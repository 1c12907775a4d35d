import UlmerOS.Sched.SchedScan

/-!
# The stages of a task

What any call of `schedule` changes (`Scans`), whether or not its scan meets a killed
task: it kills tasks of the list whose process is killed, takes tasks off the list and
switches to a task of the list.

So a task is killed after it was inserted, and the two tasks of `sched_init`, which
have no process, are not killed at all (`Staged`).  A killed task stays killed,
because only a sleeping one is woken (`killed_stays`).
-/

namespace UlmerOS

namespace Sched

open Transition (Run Guarded)

variable {T P : Type} [DecidableEq T]

/-! ## What a call of `schedule` changes -/

/-- A part of `schedule`: it kills tasks of the list with their process, takes
tasks off the list and switches to a task of the list. -/
structure Scans (s s' : State T P) : Prop where
  frame : s' = { s with
    tasks := s'.tasks, schedTasks := s'.schedTasks, current := s'.current }
  subset : ∀ t ∈ s'.schedTasks, t ∈ s.schedTasks
  current : ∀ c, s'.current = some c → c ∈ s.schedTasks ∨ s.current = some c
  process : ∀ t, (s'.tasks t).process = (s.tasks t).process
  irqWait : ∀ t, (s'.tasks t).irqWait = (s.tasks t).irqWait
  killed : ∀ t, (s.tasks t).state = .killed → (s'.tasks t).state = .killed
  kills : ∀ t, (s'.tasks t).state = .killed →
    (s.tasks t).state = .killed ∨ t ∈ s.schedTasks ∧ (s.tasks t).process ≠ none

omit [DecidableEq T] in
/-- Nothing but the list and the current task changes. -/
theorem Scans.of_list {s : State T P} {l : List T} {c : Option T}
    (hl : ∀ t ∈ l, t ∈ s.schedTasks)
    (hc : ∀ u, c = some u → u ∈ s.schedTasks ∨ s.current = some u) :
    Scans s { s with schedTasks := l, current := c } where
  frame := rfl
  subset := hl
  current := hc
  process := fun _ => rfl
  irqWait := fun _ => rfl
  killed := fun _ => id
  kills := fun _ => Or.inl

omit [DecidableEq T] in
theorem Scans.refl (s : State T P) : Scans s s :=
  .of_list (fun _ => id) (fun _ => Or.inr)

omit [DecidableEq T] in
theorem Scans.trans {s s' s'' : State T P} (h : Scans s s') (h' : Scans s' s'') :
    Scans s s'' where
  frame := by
    rw [h'.frame, h.frame]
  subset := fun t ht => h.subset t (h'.subset t ht)
  current := by
    intro c hc
    cases h'.current c hc with
    | inl hmem => exact Or.inl (h.subset c hmem)
    | inr hcur => exact h.current c hcur
  process := fun t => (h'.process t).trans (h.process t)
  irqWait := fun t => (h'.irqWait t).trans (h.irqWait t)
  killed := fun t hk => h'.killed t (h.killed t hk)
  kills := by
    intro t hk
    cases h'.kills t hk with
    | inl hk' => exact h.kills t hk'
    | inr hnew => exact Or.inr ⟨h.subset t hnew.1, h.process t ▸ hnew.2⟩

theorem Scans.killWithProcess {s : State T P} {t : T} (ht : t ∈ s.schedTasks) :
    Scans s (s.killWithProcess t) := by
  unfold State.killWithProcess
  split
  · rename_i hproc
    have hother : ∀ u, u ≠ t → (s.setState t .killed).tasks u = s.tasks u :=
      fun u hu => Function.update_of_ne hu ..
    exact
      { frame := rfl
        subset := fun _ => id
        current := fun _ => Or.inr
        process := by
          intro u
          by_cases hu : u = t
          · simp [State.setState, hu]
          · rw [hother u hu]
        irqWait := by
          intro u
          by_cases hu : u = t
          · simp [State.setState, hu]
          · rw [hother u hu]
        killed := by
          intro u hk
          by_cases hu : u = t
          · simp [State.setState, hu]
          · rw [hother u hu]
            exact hk
        kills := by
          intro u hk
          by_cases hu : u = t
          · subst hu
            refine Or.inr ⟨ht, fun hnone => ?_⟩
            simp [State.procKilled, hnone] at hproc
          · rw [hother u hu] at hk
            exact Or.inl hk }
  · exact Scans.refl s

theorem Scans.removeCurrent {s s' : State T P} (h : s.removeCurrent = .ret s') : Scans s s' := by
  obtain ⟨c, -, -, rfl⟩ := State.removeCurrent_eq_ret h
  exact .of_list (fun _ => List.mem_of_mem_erase) (fun _ => Or.inr)

theorem Scans.taskSchedulable {s s' : State T P} {t : T} {ok : Bool} (ht : t ∈ s.schedTasks)
    (h : taskSchedulable s t = .ret (ok, s')) : Scans s s' := by
  obtain ⟨s1, hs1, hret⟩ := Outcome.bind_eq_ret.mp h
  obtain ⟨-, rfl⟩ := Prod.mk.inj (Outcome.ret.inj hret)
  refine (Scans.killWithProcess ht).trans ?_
  split at hs1
  · exact .removeCurrent hs1
  · exact Outcome.ret.inj hs1 ▸ Scans.refl _

/-- `get_next_task` picks a task of the list. -/
theorem Scans.getNextTask {fuel : Nat} {s s' : State T P} {next : T}
    (h : getNextTask fuel s = .ret (next, s')) : Scans s s' ∧ next ∈ s.schedTasks := by
  induction fuel generalizing s with
  | zero => cases h
  | succ fuel ih =>
      cases hlist : s.schedTasks with
      | nil =>
          rw [Sched.getNextTask, hlist] at h
          cases h
      | cons t l =>
          rw [getNextTask_cons hlist] at h
          obtain ⟨⟨ok, s1⟩, hs1, hrest⟩ := Outcome.bind_eq_ret.mp h
          have hrot : Scans s { s with schedTasks := l ++ [t] } :=
            .of_list (by simp [hlist, or_comm]) (fun _ => Or.inr)
          have hround : Scans s s1 := hrot.trans (.taskSchedulable (by simp) hs1)
          dsimp only at hrest
          split at hrest
          · obtain ⟨rfl, rfl⟩ := Prod.mk.inj (Outcome.ret.inj hrest)
            exact ⟨hround, by simp⟩
          · obtain ⟨hscan, hmem⟩ := ih hrest
            exact ⟨hround.trans hscan, hlist ▸ hround.subset next hmem⟩

theorem Scans.schedule {fuel : Nat} {s s' : State T P} (h : schedule fuel s = .ret s') :
    Scans s s' := by
  rw [Sched.schedule] at h
  split at h
  · exact Outcome.ret.inj h ▸ Scans.refl s
  · obtain ⟨⟨next, s1⟩, hnext, hrest⟩ := Outcome.bind_eq_ret.mp h
    obtain ⟨hscan, hmem⟩ := Scans.getNextTask hnext
    dsimp only at hrest
    split at hrest
    · exact Outcome.ret.inj hrest ▸ hscan
    · obtain ⟨s2, hleave, hret⟩ := Outcome.bind_eq_ret.mp hrest
      have hleft : Scans s1 s2 := by
        unfold State.leaveCurrent at hleave
        split at hleave
        · exact Outcome.ret.inj hleave ▸ Scans.refl s1
        · split at hleave
          · exact .removeCurrent hleave
          · exact Outcome.ret.inj hleave ▸ Scans.refl s1
      obtain rfl := Outcome.ret.inj hret
      have h2 := hscan.trans hleft
      -- the task switched to was in the list when the scan began
      exact
        { h2 with
          frame := by rw [h2.frame]
          current := fun c hc => Or.inl (Option.some.inj hc ▸ hmem) }

/-! ## Who can be killed -/

/-- The condition on a run: the tasks of the list and a new one lie at addresses of
their own, and a task that is woken sleeps, as `mutex_unlock` asserts. -/
structure Sane (s : State T P) (a : Action T P) : Prop where
  placed : ∀ t, a = .create t → ∃ addr : T → Nat,
    (∀ u ∈ t :: s.taskList, 0 < addr u ∧ addr u < word) ∧
      ∀ u ∈ t :: s.taskList, ∀ v ∈ t :: s.taskList, addr u = addr v → u = v
  asleep : ∀ t, a = .wake t → (s.tasks t).state = .sleeping

/-- A killed task was inserted before, and the two tasks of `sched_init` are not
killed while the cleanup task is in its loop. -/
structure Staged (s : State T P) : Prop where
  sched : ∀ t ∈ s.schedTasks, s.stage t = .inserted
  current : ∀ c, s.current = some c → s.stage c = .inserted
  killed : ∀ t, (s.tasks t).state = .killed → s.stage t = .inserted
  crew : ∀ t, t = s.idle ∨ t = s.cleanup → s.stage t = .inserted ∧ (s.tasks t).process = none
  alive : s.cleanupPc ≠ .done → ∀ t, t = s.idle ∨ t = s.cleanup → (s.tasks t).state ≠ .killed

section Staged

variable {s s' : State T P}

theorem Staged.init {idle cleanup : T} : Staged (State.init idle cleanup : State T P) where
  sched := by
    intro t ht
    have ht' : t = idle ∨ t = cleanup := by simpa [State.init, or_comm] using ht
    exact if_pos ht'
  current := by intro c hc; cases hc
  killed := by intro t hk; cases hk
  crew := fun t ht => ⟨if_pos ht, rfl⟩
  alive := by intro _ t _ hk; cases hk

/-- A task is stored to that is not killed by it. -/
theorem Staged.update_task (h : Staged s) {t : T} {task : Task P}
    (hproc : s.stage t = .inserted → task.process = (s.tasks t).process)
    (hk : task.state = .killed → (s.tasks t).state = .killed) :
    Staged { s with tasks := Function.update s.tasks t task } := by
  have hk' : ∀ u, (Function.update s.tasks t task u).state = .killed →
      (s.tasks u).state = .killed := by
    intro u hu
    by_cases ht : u = t
    · subst ht
      exact hk (by simpa using hu)
    · simpa [Function.update_of_ne ht] using hu
  exact
    { h with
      killed := fun u hu => h.killed u (hk' u hu)
      crew := by
        intro u hu
        obtain ⟨hstage, hnone⟩ := h.crew u hu
        refine ⟨hstage, ?_⟩
        by_cases ht : u = t
        · subst ht
          simpa using (hproc hstage).trans hnone
        · simpa [Function.update_of_ne ht] using hnone
      alive := fun hpc u hu hk => h.alive hpc u hu (hk' u hk) }

/-- The creation of a task goes on. -/
theorem Staged.advance (h : Staged s) {t : T} {g : Stage} (hstage : s.stage t ≠ .inserted) :
    Staged { s with stage := Function.update s.stage t g } := by
  have hkeep : ∀ u, s.stage u = .inserted → Function.update s.stage t g u = .inserted := by
    intro u hu
    have hne : u ≠ t := by
      rintro rfl
      exact hstage hu
    simpa [Function.update_of_ne hne] using hu
  exact
    { sched := fun u hu => hkeep u (h.sched u hu)
      current := fun u hu => hkeep u (h.current u hu)
      killed := fun u hu => hkeep u (h.killed u hu)
      crew := fun u hu => ⟨hkeep u (h.crew u hu).1, (h.crew u hu).2⟩
      alive := h.alive }

theorem Staged.insert (h : Staged s) {t : T} (hstage : s.stage t = .counted) :
    Staged { s with
      schedTasks := s.schedTasks ++ [t], stage := Function.update s.stage t .inserted } := by
  have h' := h.advance (t := t) (g := .inserted) (by simp [hstage])
  refine { h' with sched := ?_ }
  intro u hu
  cases List.mem_append.mp hu with
  | inl hu => exact h'.sched u hu
  | inr hu =>
      obtain rfl := List.mem_singleton.mp hu
      simp

theorem Staged.kill (h : Staged s) {c : T} (hc : s.Active c) : Staged (s.setState c .killed) := by
  obtain ⟨hcur, -, hidle, hcl⟩ := hc
  have hother : ∀ u, u ≠ c → (s.setState c .killed).tasks u = s.tasks u :=
    fun u hu => Function.update_of_ne hu ..
  refine { h with killed := ?_, crew := ?_, alive := ?_ }
  · intro u hk
    by_cases hu : u = c
    · exact hu ▸ h.current c hcur
    · exact h.killed u (hother u hu ▸ hk)
  · intro u hu
    by_cases huc : u = c
    · subst huc
      simpa [State.setState] using h.crew u hu
    · rw [hother u huc]
      exact h.crew u hu
  · intro hpc u hu
    have huc : u ≠ c := by
      rintro rfl
      exact hu.elim hidle (fun he => hpc (hcl he))
    rw [hother u huc]
    exact h.alive hpc u hu

omit [DecidableEq T] in
theorem Staged.scans (h : Staged s) (hs : Scans s s') : Staged s' := by
  obtain ⟨hframe, hsub, hcur, hproc, -, -, hkills⟩ := hs
  rw [hframe]
  exact
    { sched := fun t ht => h.sched t (hsub t ht)
      current := fun c hc => (hcur c hc).elim (h.sched c) (h.current c)
      killed := fun t hk => (hkills t hk).elim (h.killed t) (fun hnew => h.sched t hnew.1)
      crew := fun t ht => ⟨(h.crew t ht).1, (hproc t).trans (h.crew t ht).2⟩
      alive := by
        intro hpc t ht hk
        cases hkills t hk with
        | inl hk => exact h.alive hpc t ht hk
        | inr hnew => exact hnew.2 (h.crew t ht).2 }

omit [DecidableEq T] in
/-- The cleanup task only moves on to the end of its loop when the count is zero. -/
theorem Staged.moveCleanup (h : Staged s) {l : List T} {n : Nat} {f : List T} {pc : CleanupPc T}
    (hpc : s.cleanupPc ≠ .done) :
    Staged { s with taskList := l, taskCount := n, freed := f, cleanupPc := pc } :=
  { h with alive := fun _ => h.alive hpc }

theorem Staged.cleanup (h : Staged s) : Staged s.cleanupStep := by
  unfold State.cleanupStep
  split
  · rename_i hpc
    have hne : s.cleanupPc ≠ .done := by simp [hpc]
    split
    · exact h.moveCleanup hne
    · exact h.moveCleanup hne
  · rename_i hpc
    exact h.moveCleanup (by simp [hpc])
  · rename_i hpc
    have hne : s.cleanupPc ≠ .done := by simp [hpc]
    split
    · exact h.moveCleanup hne
    · exact h.moveCleanup hne
  · rename_i hpc
    exact h.moveCleanup (by simp [hpc])
  · rename_i hpc
    exact h.moveCleanup (by simp [hpc])
  · rename_i hpc
    exact h.moveCleanup (by simp [hpc])
  · exact h

theorem Staged.step [DecidableEq P] {a : Action T P} (h : Staged s) (hs : Step s a s') :
    Staged s' := by
  cases hs with
  | @create t hstage hfree =>
      have hnew : Staged { s with
          tasks := Function.update s.tasks t ⟨.running, false, none⟩ } :=
        h.update_task (by simp [hstage]) (by simp)
      have h' := hnew.advance (t := t) (g := .listed) (by simp [hstage])
      exact { h' with }
  | @count t hstage =>
      have h' := h.advance (t := t) (g := .counted) (by simp [hstage])
      exact { h' with }
  | assign hstage => exact h.update_task (by simp [hstage]) id
  | insert hstage => exact h.insert hstage
  | enable => exact { h with }
  | kill hc => exact h.kill hc
  | exit _ _ => exact { h with }
  | sleep _ _ _ => exact h.update_task (fun _ => rfl) (by simp)
  | wake => exact h.update_task (fun _ => rfl) (by simp)
  | irqWait _ _ => exact h.update_task (fun _ => rfl) id
  | irqSignal => exact h.update_task (fun _ => rfl) id
  | schedule hsched => exact h.scans (.schedule hsched)
  | cleanup _ => exact h.cleanup

/-- A killed task stays killed, for only a sleeping one is woken. -/
theorem killed_stays [DecidableEq P] {a : Action T P} (h : Staged s) (hs : Step s a s')
    (hok : Sane s a) {t : T} (hk : (s.tasks t).state = .killed) :
    (s'.tasks t).state = .killed := by
  -- a store to another task, or one that leaves the state alone
  have hupdate : ∀ {u : T} {task : Task P}, (u = t → task.state = .killed) →
      (Function.update s.tasks u task t).state = .killed := by
    intro u task hu
    by_cases ht : t = u
    · subst ht
      simpa using hu rfl
    · simpa [Function.update_of_ne ht] using hk
  cases hs with
  | create hstage _ =>
      refine hupdate (fun hu => ?_)
      rw [hu, h.killed t hk] at hstage
      cases hstage
  | assign hstage => exact hupdate (fun hu => hu ▸ hk)
  | kill _ => exact hupdate (fun _ => rfl)
  | sleep _ hrun _ => exact hupdate (fun hu => by rw [hu, hk] at hrun; cases hrun)
  | wake =>
      refine hupdate (fun hu => ?_)
      have hasleep := hok.asleep _ rfl
      rw [hu, hk] at hasleep
      cases hasleep
  | irqWait _ _ => exact hupdate (fun hu => hu ▸ hk)
  | irqSignal => exact hupdate (fun hu => hu ▸ hk)
  | schedule hsched => exact (Scans.schedule hsched).killed t hk
  | cleanup _ =>
      unfold State.cleanupStep
      split
      · split <;> exact hk
      · exact hk
      · split <;> exact hk
      · exact hk
      · exact hk
      · exact hk
      · exact hk
  | _ => exact hk

/-- A store to a task does not make it wait for an interrupt. -/
theorem update_irqWait {f : T → Task P} {t u : T} {task : Task P}
    (hu : (Function.update f t task u).irqWait = true)
    (ht : task.irqWait = true → (f t).irqWait = true) : (f u).irqWait = true := by
  by_cases h : u = t
  · subst h
    exact ht (by simpa using hu)
  · simpa [Function.update_of_ne h] using hu

/-- Only `irq_wait_until` makes a task wait for an interrupt. -/
theorem irqWait_of_step [DecidableEq P] {a : Action T P} (hs : Step s a s') (ha : a ≠ .irqWait)
    {t : T} (hw : (s'.tasks t).irqWait = true) : (s.tasks t).irqWait = true := by
  cases hs with
  | create _ _ => exact update_irqWait hw (by simp)
  | assign _ => exact update_irqWait hw id
  | kill _ => exact update_irqWait hw id
  | sleep _ _ _ => exact update_irqWait hw id
  | wake => exact update_irqWait hw id
  | irqWait _ _ => exact absurd rfl ha
  | irqSignal => exact update_irqWait hw (by simp)
  | schedule hsched =>
      rw [(Scans.schedule hsched).irqWait t] at hw
      exact hw
  | cleanup _ =>
      unfold State.cleanupStep at hw
      split at hw
      · split at hw <;> exact hw
      · exact hw
      · split at hw <;> exact hw
      · exact hw
      · exact hw
      · exact hw
      · exact hw
  | _ => exact hw

end Staged

end Sched

end UlmerOS
