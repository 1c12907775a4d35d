import UlmerOS.Sched.Mutex

/-!
# Waiters of a mutex

A task that loses the exchange takes `waiting_tasks_lock`, sets itself to
`TASK_SLEEPING`, enqueues itself and calls `yield`, all before `spin_unlock`.
From the store of `TASK_SLEEPING` on, the spinlock is held by a task the
scheduler does not run, and the `mutex_unlock` that should wake it spins on that
very lock.

So the waiting protocol is sound exactly as long as no task reaches that store.
`waiters_sound_iff` says so for every run: while no step was the store, every
task is awake, no waiter is stranded and the spinlock is held by a running task
or by none, and the first such store breaks it.
-/

namespace UlmerOS

namespace Mutex

open Transition (Run Guarded)

variable {T : Type} [DecidableEq T]

/-- With the mutex free and no `mutex_unlock` on its way to the wake-up, a task
inside `mutex_lock` sleeps only while another task that is awake is still in the
loop. -/
def NoStranded (s : State T) : Prop :=
  s.lock = 0 → (∀ u, (s.pc u).unlocking = false) →
    ∀ t, (s.pc t).locking = true → s.taskState t = .sleeping →
      ∃ w, w ≠ t ∧ s.taskState w = .running ∧ (s.pc w).acquiring = true

/-- No task holds `waiting_tasks_lock` in its sleep. -/
def SpinAwake (s : State T) : Prop :=
  ∀ t, (s.pc t).spins = true → s.taskState t ≠ .sleeping

/-- The step is not the store `current_task->state = TASK_SLEEPING`. -/
def NoSleep (s : State T) (a : Action T) : Prop :=
  a = .exec → s.pc s.current ≠ .waitSleep

/-- Every task is `TASK_RUNNING`. -/
def AllAwake (s : State T) : Prop := ∀ t, s.taskState t = .running

variable {s s' : State T}

omit [DecidableEq T] in
theorem AllAwake.noStranded (h : AllAwake s) : NoStranded s := by
  intro _ _ t _ hs
  rw [h t] at hs
  cases hs

omit [DecidableEq T] in
theorem AllAwake.spinAwake (h : AllAwake s) : SpinAwake s := by
  intro t _ hs
  rw [h t] at hs
  cases hs

theorem State.assert_taskState {debug cond : Bool} {msg : String} {p : Pc} :
    (s.assert debug cond msg p).taskState = s.taskState := by
  unfold State.assert
  split <;> rfl

/-- Every store to a task's state but one sets it to `TASK_RUNNING`. -/
theorem AllAwake.exec (debug : Bool) (h : AllAwake s) (hne : s.pc s.current ≠ .waitSleep) :
    AllAwake (s.exec debug) := by
  unfold State.exec
  cases hpc : s.pc s.current with
  | waitSleep => exact absurd hpc hne
  | lockAssert | unlockAssertLocked | unlockAssertOwner =>
      intro t
      rw [State.assert_taskState]
      exact h t
  | wakeHead =>
      dsimp only
      split
      · exact h
      · split
        · exact h
        · -- the woken head was awake already
          rename_i u _ _ _
          intro t
          by_cases ht : t = u
          · subst ht
            exact Function.update_self ..
          · exact (Function.update_of_ne ht ..).trans (h t)
  | _ => exact h

theorem AllAwake.step {debug : Bool} {a : Action T} (h : AllAwake s) (hs : Step debug s a s')
    (hok : NoSleep s a) : AllAwake s' := by
  cases hs with
  | exec _ _ => exact h.exec debug (hok rfl)
  | tick _ _ => exact h
  | yield _ _ _ => exact h

/-- The store of `TASK_SLEEPING` is made with the spinlock held. -/
theorem not_spinAwake_of_sleep {debug : Bool} {a : Action T} (hs : Step debug s a s')
    (hbad : ¬ NoSleep s a) : ¬ SpinAwake s' := by
  rw [NoSleep, Classical.not_imp, not_not] at hbad
  obtain ⟨rfl, hpc⟩ := hbad
  cases hs with
  | exec _ _ =>
      intro hawake
      refine hawake s.current ?_ ?_
      · rw [State.exec, hpc]
        simp [State.goto, Pc.spins]
      · rw [State.exec, hpc]
        simp [State.goto]

/-- In every run in which no step so far stored `TASK_SLEEPING`, no waiter is
stranded and no sleeper holds the spinlock; and the next step keeps this if and
only if it is not that store. -/
theorem waiters_sound_iff (debug : Bool) (first : T) {as : List (Action T)}
    (hr : Run (Guarded (Step debug) NoSleep) (State.init first) as s) :
    (NoStranded s ∧ SpinAwake s) ∧
    ∀ a s', Step debug s a s' → ((NoStranded s' ∧ SpinAwake s') ↔ NoSleep s a) := by
  have h : AllAwake s :=
    Run.invariant (P := AllAwake) (fun _ _ _ ha hst => ha.step hst.1 hst.2) (fun _ => rfl) hr
  refine ⟨⟨h.noStranded, h.spinAwake⟩, fun a s' hs => ⟨fun hgood => ?_, fun hok => ?_⟩⟩
  · by_contra hbad
    exact not_spinAwake_of_sleep hs hbad hgood.2
  · have h' := h.step hs hok
    exact ⟨h'.noStranded, h'.spinAwake⟩

/-- A task locks and unlocks a mutex nobody else wants, without a wait. -/
theorem waiters_sound_iff_uncontended :
    ∃ s : State Bool,
      Run (Guarded (Step true) NoSleep) (State.init false) [.exec, .exec, .exec, .exec] s ∧
      s.pc false = .critical ∧ NoStranded s ∧ SpinAwake s := by
  have hr : Run (Guarded (Step true) NoSleep) (State.init false)
      [.exec, .exec, .exec, .exec] _ :=
    .cons ⟨.exec rfl rfl, fun _ => by decide⟩ (.cons ⟨.exec rfl rfl, fun _ => by decide⟩
      (.cons ⟨.exec rfl rfl, fun _ => by decide⟩ (.cons ⟨.exec rfl rfl, fun _ => by decide⟩ .nil)))
  exact ⟨_, hr, rfl, (waiters_sound_iff true false hr).1⟩

/-- Two tasks pass the assertion of `mutex_lock`, one takes the mutex, and the
other sleeps with `waiting_tasks_lock` held. -/
theorem waiter_sleeps_with_spinlock :
    ∃ s : State Bool, Run (Step true) (State.init false)
      [.exec, .exec, .tick true, .exec, .exec, .tick false, .exec, .tick true, .exec, .exec,
        .exec] s ∧ s.taskState true = .sleeping ∧ (s.pc true).spins = true ∧
      ¬ (NoStranded s ∧ SpinAwake s) := by
  have hr : Run (Step true) (State.init false)
      [.exec, .exec, .tick true, .exec, .exec, .tick false, .exec, .tick true, .exec, .exec,
        .exec] _ :=
    .cons (.exec rfl rfl) (.cons (.exec rfl rfl) (.cons (.tick rfl rfl)
      (.cons (.exec rfl rfl) (.cons (.exec rfl rfl) (.cons (.tick rfl rfl)
      (.cons (.exec rfl rfl) (.cons (.tick rfl rfl) (.cons (.exec rfl rfl)
      (.cons (.exec rfl rfl) (.cons (.exec rfl rfl) .nil))))))))))
  exact ⟨_, hr, rfl, rfl, fun h => h.2 true rfl rfl⟩

end Mutex

end UlmerOS
