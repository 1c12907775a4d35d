import UlmerOS.Sched.MutexWaiters
import Mathlib.Data.List.Infix

/-!
# The wake-ups of `mutex_unlock`

`mutex_unlock` sets the first task of `waiting_tasks` to `TASK_RUNNING` and leaves it in the
list.  Nothing else takes a task out of the list either, so the first task that ever waited
is the first one for good: every later call meets it again, awake, and those behind it sleep
in every run.

The debug build notices on the second call, by the assertion that the task is asleep.
-/

namespace UlmerOS

namespace Mutex

open Transition (Run Guarded)

variable {T : Type} [DecidableEq T]

/-! ## Calls of `mutex_unlock` -/

/-- In a call of `mutex_unlock` or about to make it, and not at a `yield`. -/
def Pc.calling : Pc → Bool
  | .critical | .unlockAssertLocked | .unlockAssertOwner | .unlockDisown | .unlockStore
  | .wakeSpin | .wakeTest | .wakeHead | .wakeRelease => true
  | _ => false

/-- Steps of the running task, up to the return of `mutex_unlock` or to a panic. -/
def State.unlockSteps (debug : Bool) : Nat → State T → State T
  | 0, s => s
  | n + 1, s =>
      if s.panicked = none ∧ (s.pc s.current).calling = true then
        (s.exec debug).unlockSteps debug n
      else s

/-- A call of `mutex_unlock` by the running task.  It has nine steps at most. -/
def State.mutexUnlock (debug : Bool) (s : State T) : State T := s.unlockSteps debug 9

/-- The running task holds the mutex and calls `mutex_unlock`, with the spinlock free. -/
structure AtUnlock (s : State T) : Prop where
  quiet : s.panicked = none
  critical : s.pc s.current = .critical
  locked : s.lock ≠ 0
  owner : s.heldBy = some s.current
  spinFree : s.spin = 0

/-- The step wakes no task. -/
def NoWake (s : State T) (a : Action T) : Prop :=
  a = .exec → s.pc s.current ≠ .wakeHead

/-- Successive calls of `mutex_unlock`, each with the states before and after it.  Between two
calls the tasks do anything but wake one another. -/
inductive Unlocks (debug : Bool) : State T → List (State T × State T) → Prop where
  | nil {s : State T} : Unlocks debug s []
  | call {s u : State T} {as : List (Action T)} {calls : List (State T × State T)} :
      Run (Guarded (Step debug) NoWake) s as u → AtUnlock u →
      Unlocks debug (u.mutexUnlock debug) calls →
      Unlocks debug s ((u, u.mutexUnlock debug) :: calls)

/-- What a call that goes from `u` to `u'` does if it wakes `w`: it meets `w` asleep at the
head of the list, sets it and no other to `TASK_RUNNING`, and has it out of the list. -/
structure Wakes (w : T) (u u' : State T) : Prop where
  head : u.waitingTasks.head? = some w
  asleep : u.taskState w = .sleeping
  woken : u'.taskState = Function.update u.taskState w .running
  gone : w ∉ u'.waitingTasks

/-- The calls wake the tasks `ws` in their order, one a call. -/
def WakesInOrder (ws : List T) (calls : List (State T × State T)) : Prop :=
  ∀ (k : Nat) (w : T) (u u' : State T),
    ws[k]? = some w → calls[k]? = some (u, u') → Wakes w u u'

/-! ## Nobody leaves the list -/

variable {s s' : State T} {debug : Bool}

theorem State.assert_waitingTasks {cond : Bool} {msg : String} {p : Pc} :
    (s.assert debug cond msg p).waitingTasks = s.waitingTasks := by
  unfold State.assert
  split <;> rfl

/-- A step adds a task at the end of the list or leaves the list as it is. -/
theorem State.exec_waitingTasks (debug : Bool) (s : State T) :
    s.waitingTasks <+: (s.exec debug).waitingTasks := by
  unfold State.exec
  cases hpc : s.pc s.current with
  | lockAssert | unlockAssertLocked | unlockAssertOwner =>
      dsimp only
      rw [State.assert_waitingTasks]
  | waitEnqueue => exact List.prefix_append ..
  | wakeHead =>
      dsimp only
      split
      · exact List.prefix_rfl
      · split
        · exact List.prefix_rfl
        · exact List.prefix_rfl
  | _ => exact List.prefix_rfl

theorem Step.waitingTasks {a : Action T} (h : Step debug s a s') :
    s.waitingTasks <+: s'.waitingTasks := by
  cases h with
  | exec _ _ => exact s.exec_waitingTasks debug
  | tick _ _ => exact List.prefix_rfl
  | yield _ _ _ => exact List.prefix_rfl

/-- In every run, who is in the list stays there, at the same place. -/
theorem waitingTasks_prefix {as : List (Action T)} (h : Run (Step debug) s as s') :
    s.waitingTasks <+: s'.waitingTasks :=
  Run.invariant (P := fun u => s.waitingTasks <+: u.waitingTasks)
    (fun _ _ _ hp hst => hp.trans hst.waitingTasks) List.prefix_rfl h

/-! ## Who is behind the head sleeps on -/

/-- Only the head of the list is ever woken. -/
theorem State.exec_sleeping {t w : T} {ws : List T} (hlist : s.waitingTasks = w :: ws)
    (hne : t ≠ w) (ht : s.taskState t = .sleeping) :
    (s.exec debug).taskState t = .sleeping := by
  unfold State.exec
  cases hpc : s.pc s.current with
  | lockAssert | unlockAssertLocked | unlockAssertOwner =>
      dsimp only
      rw [State.assert_taskState]
      exact ht
  | waitSleep =>
      by_cases hc : t = s.current
      · subst hc
        exact Function.update_self ..
      · exact (Function.update_of_ne hc ..).trans ht
  | wakeHead =>
      dsimp only
      rw [hlist]
      dsimp only
      split
      · exact ht
      · exact (Function.update_of_ne hne ..).trans ht
  | _ => exact ht

/-- With a task at the head of the list, every other sleeping task sleeps on, in every run and
after any number of calls of `mutex_unlock`. -/
theorem sleeps_behind_head {t w : T} {ws : List T} {as : List (Action T)}
    (hlist : s.waitingTasks = w :: ws) (hne : t ≠ w) (ht : s.taskState t = .sleeping)
    (h : Run (Step debug) s as s') : s'.taskState t = .sleeping := by
  have hstep : ∀ (u : State T) (a : Action T) (v : State T),
      ([w] <+: u.waitingTasks ∧ u.taskState t = .sleeping) → Step debug u a v →
        [w] <+: v.waitingTasks ∧ v.taskState t = .sleeping := by
    intro u a v hu hst
    refine ⟨hu.1.trans hst.waitingTasks, ?_⟩
    obtain ⟨ws', hw⟩ := hu.1
    cases hst with
    | exec _ _ => exact State.exec_sleeping hw.symm hne hu.2
    | tick _ _ => exact hu.2
    | yield _ _ _ => exact hu.2
  exact (Run.invariant hstep ⟨⟨ws, hlist.symm⟩, ht⟩ h).2

/-! ## One call -/

theorem Pc.afterYield_of_calling {p : Pc} (h : p.calling = true) : p.afterYield = none := by
  cases p <;> first | rfl | cases h

theorem State.unlockSteps_run (debug : Bool) (n : Nat) (s : State T) :
    ∃ as, Run (Step debug) s as (s.unlockSteps debug n) := by
  induction n generalizing s with
  | zero => exact ⟨[], .nil⟩
  | succ n ih =>
      rw [State.unlockSteps]
      split
      · rename_i h
        obtain ⟨as, hr⟩ := ih (s.exec debug)
        exact ⟨.exec :: as, .cons (.exec h.1 (Pc.afterYield_of_calling h.2)) hr⟩
      · exact ⟨[], .nil⟩

theorem State.unlockSteps_succ {n : Nat} (hs : s.panicked = none)
    (hc : (s.pc s.current).calling = true) :
    s.unlockSteps debug (n + 1) = (s.exec debug).unlockSteps debug n := by
  rw [State.unlockSteps, if_pos ⟨hs, hc⟩]

/-- A call of the holder gives the mutex back and sets the head of the list to `TASK_RUNNING`,
and the list is what it was. -/
theorem AtUnlock.mutexUnlock_cons (h : AtUnlock s) {w : T} {ws : List T}
    (hlist : s.waitingTasks = w :: ws) (hw : s.taskState w = .sleeping) :
    s.mutexUnlock debug =
      { s with
        lock := 0
        heldBy := none
        taskState := Function.update s.taskState w .running
        pc := Function.update s.pc s.current .outside } := by
  obtain ⟨hquiet, hcritical, hlocked, howner, hspin⟩ := h
  rw [State.mutexUnlock, State.unlockSteps_succ hquiet (by rw [hcritical]; rfl)]
  simp [State.unlockSteps, State.exec, State.goto, State.assert, State.mutexHeld, Pc.calling,
    hquiet, hcritical, hlocked, howner, hspin, hlist, hw]

/-- The running task locks the free mutex in four steps, none of which wakes a task. -/
theorem takes_free (debug : Bool) (hquiet : s.panicked = none)
    (hpc : s.pc s.current = .outside) (hfree : s.lock = 0) :
    Run (Guarded (Step debug) NoWake) s [.exec, .exec, .exec, .exec]
      { s with
        lock := 1
        heldBy := some s.current
        pc := Function.update s.pc s.current .critical } := by
  have hcall : s.exec debug = s.goto .lockAssert := by simp [State.exec, hpc]
  have hcheck : (s.goto .lockAssert).exec debug = s.goto .lockXchg := by
    simp [State.exec, State.goto, State.assert, hfree]
  have htake : (s.goto .lockXchg).exec debug = { s with lock := 1 }.goto .lockOwn := by
    simp [State.exec, State.goto, hfree]
  have hown : ({ s with lock := 1 }.goto .lockOwn).exec debug =
      { s with
        lock := 1
        heldBy := some s.current
        pc := Function.update s.pc s.current .critical } := by
    simp [State.exec, State.goto]
  have at' : ∀ {v : State T} {p : Pc}, (v.goto p).pc (v.goto p).current = p := by
    intro v p
    exact Function.update_self ..
  have step : ∀ {v : State T} {p : Pc} {v' : State T}, v.panicked = none →
      p.afterYield = none → p ≠ .wakeHead → (v.goto p).exec debug = v' →
      Guarded (Step debug) NoWake (v.goto p) .exec v' := by
    intro v p v' hv hp hne he
    refine ⟨he ▸ .exec hv (by rw [at']; exact hp), fun _ => by rw [at']; exact hne⟩
  exact .cons ⟨hcall ▸ .exec hquiet (by rw [hpc]; rfl), fun _ => by rw [hpc]; decide⟩
    (.cons (step hquiet rfl (by decide) hcheck) (.cons (step hquiet rfl (by decide) htake)
      (.cons (step hquiet rfl (by decide) hown) .nil)))

/-! ## Calls in succession -/

/-- The states before and after a call are reached by a run. -/
theorem Unlocks.reaches {calls : List (State T × State T)} (h : Unlocks debug s calls)
    {u u' : State T} (hmem : (u, u') ∈ calls) :
    (∃ as, Run (Step debug) s as u) ∧ ∃ as, Run (Step debug) s as u' := by
  induction h with
  | nil => cases hmem
  | @call s v as rest hr _ _ ih =>
      obtain ⟨bs, hcall⟩ := State.unlockSteps_run debug 9 v
      have hafter := hr.of_guarded.append hcall
      rcases List.mem_cons.mp hmem with heq | hrest
      · cases heq
        exact ⟨⟨as, hr.of_guarded⟩, _, hafter⟩
      · obtain ⟨⟨_, hu⟩, _, hu'⟩ := ih hrest
        exact ⟨⟨_, hafter.append hu⟩, _, hafter.append hu'⟩

/-- A step that wakes no task leaves every sleeper asleep. -/
theorem Step.sleeping {a : Action T} {t : T} (h : Step debug s a s') (hok : NoWake s a)
    (ht : s.taskState t = .sleeping) : s'.taskState t = .sleeping := by
  cases h with
  | exec _ _ =>
      unfold State.exec
      cases hpc : s.pc s.current with
      | wakeHead => exact absurd hpc (hok rfl)
      | lockAssert | unlockAssertLocked | unlockAssertOwner =>
          dsimp only
          rw [State.assert_taskState]
          exact ht
      | waitSleep =>
          by_cases hc : t = s.current
          · subst hc
            exact Function.update_self ..
          · exact (Function.update_of_ne hc ..).trans ht
      | _ => exact ht
  | tick _ _ => exact ht
  | yield _ _ _ => exact ht

/-- The first call does wake the task at the head of the list. -/
theorem Unlocks.first_wakes {calls : List (State T × State T)} {u u' : State T} {w : T}
    {ws : List T} (h : Unlocks debug s ((u, u') :: calls)) (hlist : s.waitingTasks = w :: ws)
    (hw : s.taskState w = .sleeping) :
    u.waitingTasks.head? = some w ∧ u.taskState w = .sleeping ∧
      u'.taskState = Function.update u.taskState w .running := by
  cases h with
  | call hr hu _ =>
      have hasleep : u.taskState w = .sleeping :=
        Run.invariant (P := fun v => v.taskState w = .sleeping)
          (fun _ _ _ hv hst => hst.1.sleeping hst.2 hv) hw hr
      have hprefix := waitingTasks_prefix hr.of_guarded
      rw [hlist] at hprefix
      obtain ⟨more, hmore⟩ := hprefix
      have hhead : u.waitingTasks = w :: (ws ++ more) := hmore.symm
      refine ⟨by rw [hhead]; rfl, hasleep, ?_⟩
      rw [hu.mutexUnlock_cons hhead hasleep]

/-- As many calls as there are waiting tasks wake these in their order if and only if no task
is waiting.  Every call meets the first of them at the head of the list, and the others are
asleep after each. -/
theorem wakes_in_order_iff {calls : List (State T × State T)} (debug : Bool) (s : State T)
    (hsleep : ∀ w ∈ s.waitingTasks, s.taskState w = .sleeping) (hcalls : Unlocks debug s calls)
    (hlength : calls.length = s.waitingTasks.length) :
    (WakesInOrder s.waitingTasks calls ↔ s.waitingTasks = []) ∧
      ∀ w ws, s.waitingTasks = w :: ws → ∀ u u', (u, u') ∈ calls →
        u.waitingTasks.head? = some w ∧ ∀ t ∈ ws, t ≠ w → u'.taskState t = .sleeping := by
  have head : ∀ {v : State T} {as w ws}, s.waitingTasks = w :: ws → Run (Step debug) s as v →
      v.waitingTasks.head? = some w := by
    intro v as w ws hlist hr
    obtain ⟨more, hmore⟩ := waitingTasks_prefix hr
    rw [← hmore, hlist]
    rfl
  refine ⟨⟨fun horder => ?_, fun hnone k w u u' hk => ?_⟩, fun w ws hlist u u' hmem => ?_⟩
  · cases hlist : s.waitingTasks with
    | nil => rfl
    | cons w ws =>
        cases calls with
        | nil =>
            rw [hlist] at hlength
            cases hlength
        | cons c rest =>
            obtain ⟨u, u'⟩ := c
            have hfirst := horder 0 w u u' (by rw [hlist]; rfl) rfl
            obtain ⟨_, _, hafter⟩ := hcalls.reaches (List.mem_cons_self ..)
            exact absurd (List.mem_of_mem_head? (head hlist hafter)) hfirst.gone
  · rw [hnone] at hk
    cases hk
  · obtain ⟨⟨_, hu⟩, _, hu'⟩ := hcalls.reaches hmem
    exact ⟨head hlist hu, fun t ht hne => sleeps_behind_head hlist hne
      (hsleep t (by rw [hlist]; exact List.mem_cons_of_mem _ ht)) hu'⟩

/-- The task `0` holds the mutex and the tasks of `ws` sleep in its list. -/
def contended (ws : List (Fin 3)) : State (Fin 3) where
  lock := 1
  heldBy := some 0
  waitingTasks := ws
  spin := 0
  taskState := fun t => if t ∈ ws then .sleeping else .running
  pc := fun t => if t = 0 then .critical else if t ∈ ws then .waitYield else .outside
  current := 0
  panicked := none

/-- One task waits, and the call that wakes it leaves it in the list. -/
theorem wakes_in_order_iff_one :
    ¬ WakesInOrder [1] [(contended [1], (contended [1]).mutexUnlock true)] := by
  have hcalls : Unlocks true (contended [1])
      [(contended [1], (contended [1]).mutexUnlock true)] :=
    .call .nil ⟨rfl, rfl, by decide, rfl, rfl⟩ .nil
  intro horder
  cases (wakes_in_order_iff true (contended [1]) (by decide) hcalls rfl).1.mp horder

/-- Two tasks wait.  The holder gives the mutex back, takes it again and gives it back: the
second call meets the task that the first one woke, and the debug build panics. -/
theorem second_unlock_panics :
    ∃ u : State (Fin 3),
      Unlocks true (contended [1, 2])
        [(contended [1, 2], (contended [1, 2]).mutexUnlock true), (u, u.mutexUnlock true)] ∧
      u.taskState 1 = .running ∧
      (u.mutexUnlock true).panicked = some "mutex wakeup: task is not sleeping" ∧
      (u.mutexUnlock true).taskState 2 = .sleeping ∧
      ¬ WakesInOrder [1, 2]
        [(contended [1, 2], (contended [1, 2]).mutexUnlock true), (u, u.mutexUnlock true)] := by
  have hat : AtUnlock (contended [1, 2]) := ⟨rfl, rfl, by decide, rfl, rfl⟩
  have hfirst : (contended [1, 2]).mutexUnlock true = _ := hat.mutexUnlock_cons rfl rfl
  have hagain := takes_free true (s := (contended [1, 2]).mutexUnlock true)
    (by rw [hfirst]; rfl) (by rw [hfirst]; rfl) (by rw [hfirst])
  refine ⟨_, .call .nil hat (.call hagain ?_ .nil), ?_, ?_, ?_, fun horder => ?_⟩
  · rw [hfirst]
    exact ⟨rfl, rfl, by decide, rfl, rfl⟩
  · rw [hfirst]
    rfl
  · rw [hfirst]
    rfl
  · rw [hfirst]
    rfl
  · have hhead := (horder 1 2 _ _ rfl rfl).head
    rw [hfirst] at hhead
    exact absurd hhead (by decide)

end Mutex

end UlmerOS
