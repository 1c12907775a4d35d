import UlmerOS.Sched.MutexExclusion

/-!
# The assertions of a mutex

`mutex_unlock` asserts that the mutex is locked and that the caller owns it, and both are right
in every interleaving.  `mutex_lock` asserts that the mutex is free, before the loop that waits
for it: with another task in its critical section this assertion fails and the loop is not
reached.

`current_task` is a task of the model, never `NULL`, so the assertion about it has no step.
-/

namespace UlmerOS

namespace Mutex

open Transition (Run Guarded)

variable {T : Type} [DecidableEq T]

/-- The messages of the assertions in `mutex_lock` and of the first two in `mutex_unlock`. -/
def lockMessages : List String :=
  ["mutex already acquired", "mutex_lock(): invalid current_task",
    "mutex released but not locked", "mutex released by other task"]

/-- None of these assertions has failed. -/
def AssertsHold (s : State T) : Prop := ∀ msg ∈ lockMessages, s.panicked ≠ some msg

/-- If the step is the assertion of `mutex_lock`, no task is between its exchange and its store
of `lock = 0`. -/
def Uncontended (s : State T) (a : Action T) : Prop :=
  a = .exec → s.pc s.current = .lockAssert → ∀ t, (s.pc t).holds = false

variable {s s' : State T} {debug : Bool}

/-! ## A locked mutex is held -/

/-- The word is not `0` only while a task holds the mutex. -/
def Held (s : State T) : Prop := s.lock ≠ 0 → ∃ t, (s.pc t).holds = true

/-- The running task goes to a point that holds the mutex if the one it leaves does, and a
word that is `0` stays `0`. -/
theorem Held.move (h : Held s) {p : Pc} (hpc : s'.pc = Function.update s.pc s.current p)
    (hlock : s'.lock ≠ 0 → s.lock ≠ 0) (hh : (s.pc s.current).holds = true → p.holds = true) :
    Held s' := by
  intro hl
  obtain ⟨t, ht⟩ := h (hlock hl)
  refine ⟨t, ?_⟩
  rw [hpc]
  by_cases hc : t = s.current
  · subst hc
    rw [Function.update_self]
    exact hh ht
  · rwa [Function.update_of_ne hc]

/-- The running task holds the mutex after the step. -/
theorem Held.of_holds {p : Pc} (hpc : s'.pc = Function.update s.pc s.current p)
    (hh : p.holds = true) : Held s' := by
  intro _
  refine ⟨s.current, ?_⟩
  rw [hpc, Function.update_self]
  exact hh

theorem Held.assert (h : Held s) {cond : Bool} {msg : String} {p : Pc}
    (hh : (s.pc s.current).holds = true → p.holds = true) : Held (s.assert debug cond msg p) := by
  unfold State.assert
  split
  · exact h
  · exact h.move rfl id hh

theorem Held.exec (debug : Bool) (h : Held s) : Held (s.exec debug) := by
  unfold State.exec
  cases hpc : s.pc s.current with
  | lockXchg =>
      dsimp only
      split
      · exact .of_holds rfl rfl
      · rename_i hl
        exact h.move rfl (fun _ => hl) (by rw [hpc]; intro hh; cases hh)
  | lockOwn => exact .of_holds rfl rfl
  | critical => exact .of_holds rfl rfl
  | unlockDisown => exact .of_holds rfl rfl
  | unlockStore => exact fun hl => absurd rfl hl
  | lockAssert => exact h.assert (by rw [hpc]; intro hh; cases hh)
  | unlockAssertLocked => exact h.assert fun _ => rfl
  | unlockAssertOwner => exact h.assert fun _ => rfl
  | wakeHead =>
      dsimp only
      split
      · exact h.move rfl id (by rw [hpc]; intro hh; cases hh)
      · split
        · exact h
        · exact h.move rfl id (by rw [hpc]; intro hh; cases hh)
  | waitSpinYield | waitYield | wakeSpinYield => exact h
  | _ => exact h.move rfl id (by rw [hpc]; intro hh; cases hh)

/-- The points that hold the mutex are no `yield`. -/
theorem Pc.not_holds_of_yield {p q : Pc} (h : p.afterYield = some q) : p.holds = false := by
  cases p <;> first | rfl | cases h

theorem Held.step {a : Action T} (h : Held s) (hs : Step debug s a s') : Held s' := by
  cases hs with
  | exec _ _ => exact h.exec debug
  | tick _ _ => exact h
  | yield _ hy _ =>
      refine h.move rfl id fun hh => ?_
      rw [Pc.not_holds_of_yield hy] at hh
      cases hh

omit [DecidableEq T] in
/-- With both invariants the word is `0` exactly while no task holds the mutex. -/
theorem Held.free_iff (h : Held s) (he : Excl s) :
    s.lock = 0 ↔ ∀ t, (s.pc t).holds = false := by
  refine ⟨he.free, fun hnone => ?_⟩
  by_contra hl
  obtain ⟨t, ht⟩ := h hl
  rw [hnone t] at ht
  cases ht

/-! ## The step that can fail -/

theorem State.assert_holds_iff {cond : Bool} {msg : String} {p : Pc} (hs : s.panicked = none)
    (hmsg : msg ∈ lockMessages) : AssertsHold (s.assert true cond msg p) ↔ cond = true := by
  unfold State.assert
  cases cond with
  | true =>
      refine ⟨fun _ => rfl, fun _ m _ => ?_⟩
      rw [Bool.not_true, Bool.and_false, if_neg Bool.false_ne_true, State.goto, hs]
      exact (Option.some_ne_none m).symm
  | false =>
      refine ⟨fun h => ?_, fun h => absurd h Bool.false_ne_true⟩
      exact absurd rfl (h msg hmsg)

omit [DecidableEq T] in
theorem AssertsHold.of_quiet (hs : s.panicked = none) : AssertsHold s := by
  intro m _
  rw [hs]
  exact fun he => nomatch he

/-- A step of the debug build fails one of the assertions exactly if it is the assertion of
`mutex_lock` and the word is not `0`. -/
theorem Excl.exec_asserts (h : Excl s) (hs : s.panicked = none) :
    AssertsHold (s.exec true) ↔ (s.pc s.current = .lockAssert → s.lock = 0) := by
  unfold State.exec
  cases hpc : s.pc s.current with
  | lockAssert =>
      refine (State.assert_holds_iff hs (by simp [lockMessages])).trans ?_
      rw [beq_iff_eq]
      exact ⟨fun hl _ => hl, fun hl => hl rfl⟩
  | unlockAssertLocked =>
      refine (State.assert_holds_iff hs (by simp [lockMessages])).trans ?_
      have hl : s.lock ≠ 0 := h.locked _ (by rw [hpc]; rfl)
      exact ⟨(fun _ he => by cases he), fun _ => bne_iff_ne.mpr hl⟩
  | unlockAssertOwner =>
      refine (State.assert_holds_iff hs (by simp [lockMessages])).trans ?_
      have ho : s.heldBy = some s.current := h.owner _ (by rw [hpc]; rfl)
      exact ⟨(fun _ he => by cases he), fun _ => by simp [State.mutexHeld, ho]⟩
  | wakeHead =>
      refine ⟨(fun _ he => by cases he), fun _ => ?_⟩
      dsimp only
      split
      · exact .of_quiet hs
      · split
        · intro m hm he
          rw [← Option.some.inj he] at hm
          exact absurd hm (by decide)
        · exact .of_quiet hs
  | _ => exact ⟨(fun _ he => by cases he), fun _ => .of_quiet hs⟩

theorem Excl.step_asserts {a : Action T} (h : Excl s) (hheld : Held s) (hs : Step true s a s') :
    AssertsHold s' ↔ Uncontended s a := by
  cases hs with
  | exec hquiet _ =>
      rw [h.exec_asserts hquiet, hheld.free_iff h]
      exact ⟨fun hok _ => hok, fun hok => hok rfl⟩
  | tick hquiet _ => exact ⟨(fun _ he => by cases he), fun _ => .of_quiet hquiet⟩
  | yield hquiet _ _ => exact ⟨(fun _ he => by cases he), fun _ => .of_quiet hquiet⟩

/-- Of any number of tasks that lock and unlock the mutex in pairs, in any interleaving in
which no task so far came to the assertion of `mutex_lock` while another held the mutex, no
assertion has failed; and the next step keeps this if and only if it is not such a step. -/
theorem asserts_hold_iff (first : T) {as : List (Action T)}
    (hr : Run (Guarded (Step true) Uncontended) (State.init first) as s) :
    AssertsHold s ∧ ∀ a s', Step true s a s' → (AssertsHold s' ↔ Uncontended s a) := by
  have hstart : (Excl (State.init first) ∧ Held (State.init first)) ∧
      AssertsHold (State.init first) :=
    ⟨⟨.init first, fun hl => absurd rfl hl⟩, .of_quiet rfl⟩
  have hstep : ∀ (u : State T) (a : Action T) (v : State T),
      ((Excl u ∧ Held u) ∧ AssertsHold u) → Guarded (Step true) Uncontended u a v →
        (Excl v ∧ Held v) ∧ AssertsHold v := by
    intro u a v hu hst
    exact ⟨⟨hu.1.1.step hst.1, hu.1.2.step hst.1⟩, (hu.1.1.step_asserts hu.1.2 hst.1).mpr hst.2⟩
  obtain ⟨⟨hexcl, hheld⟩, hok⟩ := Run.invariant hstep hstart hr
  exact ⟨hok, fun a s' hst => hexcl.step_asserts hheld hst⟩

/-- A task locks and unlocks a mutex nobody else wants, and all assertions hold. -/
theorem asserts_hold_iff_alone :
    ∃ s : State Bool,
      Run (Guarded (Step true) Uncontended) (State.init false)
        [.exec, .exec, .exec, .exec, .exec, .exec, .exec] s ∧
      s.pc false = .unlockDisown ∧ AssertsHold s := by
  have hr : Run (Guarded (Step true) Uncontended) (State.init false)
      [.exec, .exec, .exec, .exec, .exec, .exec, .exec] _ :=
    .cons ⟨.exec rfl rfl, fun _ => by decide⟩ (.cons ⟨.exec rfl rfl, fun _ => by decide⟩
      (.cons ⟨.exec rfl rfl, fun _ => by decide⟩ (.cons ⟨.exec rfl rfl, fun _ => by decide⟩
      (.cons ⟨.exec rfl rfl, fun _ => by decide⟩ (.cons ⟨.exec rfl rfl, fun _ => by decide⟩
      (.cons ⟨.exec rfl rfl, fun _ => by decide⟩ .nil))))))
  exact ⟨_, hr, rfl, (asserts_hold_iff false hr).1⟩

/-- One task is in its critical section when the timer hands over to a second one, whose
`mutex_lock` panics. -/
theorem contended_lock_panics :
    ∃ s : State Bool,
      Run (Step true) (State.init false)
        [.exec, .exec, .exec, .exec, .tick true, .exec, .exec] s ∧
      s.pc false = .critical ∧ s.panicked = some "mutex already acquired" ∧
      ¬ AssertsHold s := by
  have hr : Run (Step true) (State.init false)
      [.exec, .exec, .exec, .exec, .tick true, .exec, .exec] _ :=
    .cons (.exec rfl rfl) (.cons (.exec rfl rfl) (.cons (.exec rfl rfl) (.cons (.exec rfl rfl)
      (.cons (.tick rfl rfl) (.cons (.exec rfl rfl) (.cons (.exec rfl rfl) .nil))))))
  exact ⟨_, hr, rfl, rfl, fun h => h _ (List.mem_cons_self ..) rfl⟩

end Mutex

end UlmerOS
