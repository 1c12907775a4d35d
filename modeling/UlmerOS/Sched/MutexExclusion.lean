import UlmerOS.Sched.Mutex

/-!
# Mutual exclusion and ownership

`held_by` is written outside the atomic exchange, on both sides.  It is still
right while a task is in its critical section, because `mutex_unlock` clears
`held_by` before it stores `lock = 0`: between the two stores the mutex is
taken and has no owner, so no acquirer's store can be overwritten.

The invariant `Excl` follows each task's program point.  At most one task holds
the mutex, the word is not `0` while one does, and the owner is recorded from
`held_by = current_task` to `held_by = NULL`.
-/

namespace UlmerOS

namespace Mutex

open Transition (Run)

variable {T : Type} [DecidableEq T]

/-! ## The invariant -/

/-- At most one task holds the mutex, and it is recorded as the owner. -/
structure Excl (s : State T) : Prop where
  unique : ∀ t u, (s.pc t).holds = true → (s.pc u).holds = true → t = u
  locked : ∀ t, (s.pc t).holds = true → s.lock ≠ 0
  owner : ∀ t, (s.pc t).owns = true → s.heldBy = some t

theorem Pc.holds_of_owns {p : Pc} (h : p.owns = true) : p.holds = true := by
  cases p <;> first | rfl | cases h

omit [DecidableEq T] in
theorem Excl.init (first : T) : Excl (State.init first) where
  unique := by intro t u ht; cases ht
  locked := by intro t ht; cases ht
  owner := by intro t ht; cases ht

omit [DecidableEq T] in
/-- The invariant reads the program points, the word and the owner. -/
theorem Excl.congr {s s' : State T} (h : Excl s) (hpc : s'.pc = s.pc) (hlock : s'.lock = s.lock)
    (howner : s'.heldBy = s.heldBy) : Excl s' where
  unique := by rw [hpc]; exact h.unique
  locked := by rw [hpc, hlock]; exact h.locked
  owner := by rw [hpc, howner]; exact h.owner

omit [DecidableEq T] in
/-- With the mutex free no task holds it. -/
theorem Excl.free {s : State T} (h : Excl s) (hl : s.lock = 0) (t : T) :
    (s.pc t).holds = false := by
  cases hp : (s.pc t).holds with
  | false => rfl
  | true => exact absurd hl (h.locked t hp)

/-! ## The three kinds of step -/

variable {s s' : State T} {p : Pc}

/-- The running task goes to a point that holds and owns no more than the one it
leaves, and frees neither the mutex nor its owner. -/
theorem Excl.move (h : Excl s) (hpc : s'.pc = Function.update s.pc s.current p)
    (hlock : s.lock ≠ 0 → s'.lock ≠ 0) (howner : s'.heldBy = s.heldBy)
    (hh : p.holds = true → (s.pc s.current).holds = true)
    (ho : p.owns = true → (s.pc s.current).owns = true) : Excl s' := by
  have back : ∀ t, (s'.pc t).holds = true → (s.pc t).holds = true := by
    intro t ht
    rw [hpc] at ht
    by_cases hc : t = s.current
    · subst hc
      rw [Function.update_self] at ht
      exact hh ht
    · rwa [Function.update_of_ne hc] at ht
  refine ⟨fun t u ht hu => h.unique t u (back t ht) (back u hu),
    fun t ht => hlock (h.locked t (back t ht)), fun t ht => ?_⟩
  rw [hpc] at ht
  by_cases hc : t = s.current
  · subst hc
    rw [Function.update_self] at ht
    exact howner.trans (h.owner _ (ho ht))
  · rw [Function.update_of_ne hc] at ht
    exact howner.trans (h.owner t ht)

/-- The running task goes to a point that does not hold the mutex. -/
theorem Excl.leave (h : Excl s) (hp : p.holds = false)
    (hpc : s'.pc = Function.update s.pc s.current p) (hlock : s.lock ≠ 0 → s'.lock ≠ 0)
    (howner : s'.heldBy = s.heldBy) : Excl s' := by
  refine h.move hpc hlock howner (fun hh => ?_) (fun ho => ?_)
  · rw [hp] at hh
    cases hh
  · rw [Pc.holds_of_owns ho] at hp
    cases hp

/-- The running task is the only one that can hold the mutex, before the step or
because the mutex was free.  It may then change the word and the owner. -/
theorem Excl.of_sole (hsole : ∀ t, (s.pc t).holds = true → t = s.current)
    (hpc : s'.pc = Function.update s.pc s.current p) (hlock : p.holds = true → s'.lock ≠ 0)
    (howner : p.owns = true → s'.heldBy = some s.current) : Excl s' := by
  have only : ∀ t, (s'.pc t).holds = true → t = s.current ∧ p.holds = true := by
    intro t ht
    rw [hpc] at ht
    by_cases hc : t = s.current
    · subst hc
      rw [Function.update_self] at ht
      exact ⟨rfl, ht⟩
    · rw [Function.update_of_ne hc] at ht
      exact absurd (hsole t ht) hc
  refine ⟨fun t u ht hu => (only t ht).1.trans (only u hu).1.symm,
    fun t ht => hlock (only t ht).2, fun t ht => ?_⟩
  obtain ⟨hc, _⟩ := only t (Pc.holds_of_owns ht)
  subst hc
  rw [hpc, Function.update_self] at ht
  exact howner ht

omit [DecidableEq T] in
theorem Excl.sole_of_holds (h : Excl s) (hc : (s.pc s.current).holds = true) (t : T)
    (ht : (s.pc t).holds = true) : t = s.current :=
  h.unique t s.current ht hc

theorem Excl.assert {debug cond : Bool} {msg : String} (h : Excl s)
    (hh : p.holds = true → (s.pc s.current).holds = true)
    (ho : p.owns = true → (s.pc s.current).owns = true) :
    Excl (s.assert debug cond msg p) := by
  unfold State.assert
  split
  · exact h.congr rfl rfl rfl
  · exact h.move rfl id rfl hh ho

/-! ## Every step -/

theorem Excl.exec (debug : Bool) (h : Excl s) : Excl (s.exec debug) := by
  unfold State.exec
  -- one case per program point; only the exchange and the holder's stores touch the mutex
  cases hpc : s.pc s.current with
  | outside => exact h.leave rfl rfl id rfl
  | lockAssert => exact h.assert (by intro hp; cases hp) (by intro hp; cases hp)
  | lockXchg =>
      dsimp only
      split
      · rename_i hl
        exact .of_sole (fun t ht => by rw [h.free hl t] at ht; cases ht) rfl
          (fun _ => Nat.one_ne_zero) (by intro ho; cases ho)
      · exact h.leave rfl rfl (fun _ => Nat.one_ne_zero) rfl
  | waitSpin =>
      dsimp only
      split
      · exact h.leave rfl rfl id rfl
      · exact h.leave rfl rfl id rfl
  | waitSpinYield => exact h
  | waitSleep => exact h.leave rfl rfl id rfl
  | waitEnqueue => exact h.leave rfl rfl id rfl
  | waitYield => exact h
  | waitRelease => exact h.leave rfl rfl id rfl
  | lockOwn =>
      have hc : (s.pc s.current).holds = true := by rw [hpc]; rfl
      exact .of_sole (h.sole_of_holds hc) rfl (fun _ => h.locked _ hc) (fun _ => rfl)
  | critical => exact h.move rfl id rfl (fun _ => by rw [hpc]; rfl) (fun _ => by rw [hpc]; rfl)
  | unlockAssertLocked => exact h.assert (fun _ => by rw [hpc]; rfl) (fun _ => by rw [hpc]; rfl)
  | unlockAssertOwner => exact h.assert (fun _ => by rw [hpc]; rfl) (fun _ => by rw [hpc]; rfl)
  | unlockDisown =>
      have hc : (s.pc s.current).holds = true := by rw [hpc]; rfl
      exact .of_sole (h.sole_of_holds hc) rfl (fun _ => h.locked _ hc) (by intro ho; cases ho)
  | unlockStore =>
      have hc : (s.pc s.current).holds = true := by rw [hpc]; rfl
      exact .of_sole (h.sole_of_holds hc) rfl (by intro hh; cases hh) (by intro ho; cases ho)
  | wakeSpin =>
      dsimp only
      split
      · exact h.leave rfl rfl id rfl
      · exact h.leave rfl rfl id rfl
  | wakeSpinYield => exact h
  | wakeTest =>
      dsimp only
      split
      · exact h.leave rfl rfl id rfl
      · exact h.leave rfl rfl id rfl
  | wakeHead =>
      dsimp only
      split
      · exact h.leave rfl rfl id rfl
      · split
        · exact h.congr rfl rfl rfl
        · exact h.leave rfl rfl id rfl
  | wakeRelease => exact h.leave rfl rfl id rfl

/-- A `yield` neither takes nor gives back the mutex. -/
theorem Pc.afterYield_holds {p q : Pc} (h : p.afterYield = some q) :
    q.holds = false := by
  cases p <;> cases h <;> rfl

theorem Excl.step {debug : Bool} {a : Action T} (h : Excl s)
    (hs : Step debug s a s') : Excl s' := by
  cases hs with
  | exec _ _ => exact h.exec debug
  | tick _ _ => exact h.congr rfl rfl rfl
  | yield _ hy _ =>
      exact h.leave (Pc.afterYield_holds hy) rfl id rfl

theorem Excl.run {debug : Bool} {as : List (Action T)} (h : Excl s)
    (hr : Run (Step debug) s as s') : Excl s' :=
  Run.invariant (fun _ _ _ hs hst => hs.step hst) h hr

/-! ## The ownership assertion -/

theorem State.assert_panicked {debug cond : Bool} {msg m : String} (hs : s.panicked = none)
    (hm : msg = m → cond = true) : (s.assert debug cond msg p).panicked ≠ some m := by
  unfold State.assert
  split
  · rename_i hc
    intro he
    rw [hm (Option.some.inj he)] at hc
    simp at hc
  · rw [show (s.goto p).panicked = s.panicked from rfl, hs]
    exact fun he => nomatch he

/-- No step fails the ownership assertion of `mutex_unlock`. -/
theorem Excl.exec_panicked (debug : Bool) (h : Excl s) (hs : s.panicked = none) :
    (s.exec debug).panicked ≠ some "mutex released by other task" := by
  have quiet : ∀ {m : String}, s.panicked ≠ some m := by
    intro m
    rw [hs]
    exact fun he => nomatch he
  unfold State.exec
  cases hpc : s.pc s.current with
  | lockAssert => exact State.assert_panicked hs (fun he => absurd he (by decide))
  | unlockAssertLocked => exact State.assert_panicked hs (fun he => absurd he (by decide))
  | unlockAssertOwner =>
      refine State.assert_panicked hs (fun _ => ?_)
      have ho : s.heldBy = some s.current := h.owner _ (by rw [hpc]; rfl)
      simp [State.mutexHeld, ho]
  | wakeHead =>
      dsimp only
      split
      · exact quiet
      · split
        · exact fun he => absurd (Option.some.inj he) (by decide)
        · exact quiet
  | _ => exact quiet

theorem Excl.step_panicked {debug : Bool} {a : Action T} (h : Excl s) (hs : Step debug s a s') :
    s'.panicked ≠ some "mutex released by other task" := by
  cases hs with
  | exec hn _ => exact h.exec_panicked debug hn
  | tick hn _ => rw [hn]; exact fun he => nomatch he
  | yield hn _ _ =>
      rw [State.goto, hn]
      exact fun he => nomatch he

/-- For any number of tasks and any interleaving, at most one task is in its
critical section, it is the recorded owner, `mutex_held` is true for it and for
no other task, and the ownership assertion of `mutex_unlock` does not fail. -/
theorem mutual_exclusion_and_ownership (debug : Bool) (first : T) {as : List (Action T)}
    {s : State T} (hr : Run (Step debug) (State.init first) as s) :
    (∀ t u, s.pc t = .critical → s.pc u = .critical → t = u) ∧
    (∀ t, s.pc t = .critical →
      s.heldBy = some t ∧ ∀ u, s.mutexHeld u = true ↔ u = t) ∧
    (∀ t, s.pc t = .unlockAssertOwner → s.mutexHeld t = true) ∧
    s.panicked ≠ some "mutex released by other task" := by
  have h : Excl s := (Excl.init first).run hr
  refine ⟨fun t u ht hu => ?_, fun t ht => ?_, fun t ht => ?_, ?_⟩
  · exact h.unique t u (by rw [ht]; rfl) (by rw [hu]; rfl)
  · have ho : s.heldBy = some t := h.owner t (by rw [ht]; rfl)
    refine ⟨ho, fun u => ?_⟩
    rw [State.mutexHeld, ho, beq_iff_eq, Option.some.injEq]
    exact eq_comm
  · have ho : s.heldBy = some t := h.owner t (by rw [ht]; rfl)
    simp [State.mutexHeld, ho]
  · have hinit : Excl (State.init first) ∧
        (State.init first).panicked ≠ some "mutex released by other task" :=
      ⟨Excl.init first, fun he => nomatch he⟩
    exact (Run.invariant
      (P := fun s => Excl s ∧ s.panicked ≠ some "mutex released by other task")
      (fun _ _ _ hs hst => ⟨hs.1.step hst, hs.1.step_panicked hst⟩) hinit hr).2

/-- A task that finds the mutex free enters its critical section in four steps,
while a second task is around. -/
theorem mutual_exclusion_and_ownership_entered :
    ∃ s : State Bool, Run (Step true) (State.init false) [.exec, .exec, .exec, .exec] s ∧
      s.pc false = .critical ∧ ∀ u, s.mutexHeld u = true ↔ u = false := by
  have hr : Run (Step true) (State.init false) [.exec, .exec, .exec, .exec] _ :=
    .cons (.exec rfl rfl) (.cons (.exec rfl rfl) (.cons (.exec rfl rfl)
      (.cons (.exec rfl rfl) .nil)))
  exact ⟨_, hr, rfl, ((mutual_exclusion_and_ownership true false hr).2.1 false rfl).2⟩

end Mutex

end UlmerOS
