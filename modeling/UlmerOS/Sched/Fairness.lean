import UlmerOS.Sched.SchedInv

/-!
# No task starves

`schedule` rotates the list, so a task that could run and is passed over moves up.  The other
steps do not move a task back: `sched_insert` adds at the tail, and what `schedule` takes out of
the list is a killed task.

The tasks in front of a task are therefore a bound on the calls that pass it over, whatever
happens between them: tasks that come to the list, sleep, wake up or are killed.
-/

namespace UlmerOS

namespace Sched

open Transition (Run Guarded)

variable {T P : Type} [DecidableEq T]

/-- A call of `schedule`. -/
def Action.isSchedule : Action T P → Bool
  | .schedule _ => true
  | _ => false

/-- The condition on a run: the task could run whenever `schedule` is called. -/
def Waits (t : T) (s : State T P) (a : Action T P) : Prop :=
  CleanScans s a ∧ (a.isSchedule = true → s.ready t = true)

/-! ## Positions in the list -/

/-- Taking out another element moves none back. -/
theorem idxOf_erase_le {t c : T} (l : List T) (hne : c ≠ t) :
    (l.erase c).idxOf t ≤ l.idxOf t := by
  induction l with
  | nil => simp
  | cons u l ih =>
      cases Decidable.em (u = c) with
      | inl huc => simp [huc, hne]
      | inr huc =>
          cases Decidable.em (u = t) with
          | inl hut => simp [hut, Ne.symm hne]
          | inr hut => simpa [huc, hut, List.idxOf_cons] using ih

/-- The list after a clean scan, with the task that was found at the end, has every
other schedulable task further in front. -/
theorem State.idxOf_rotated {s : State T P} {t next : T} {post : List T}
    (hlist : s.schedTasks = s.scanned ++ next :: post) (ht : t ∈ s.schedTasks)
    (hready : s.ready t = true) (hne : next ≠ t) :
    t ∈ post ∧ (post ++ s.scanned ++ [next]).idxOf t < s.schedTasks.idxOf t := by
  have hpassed : t ∉ s.scanned := by
    intro hmem
    have hnot := List.mem_takeWhile_imp hmem
    simp [hready] at hnot
  have hpost : t ∈ post := by
    rw [hlist] at ht
    simpa [hpassed, Ne.symm hne] using ht
  refine ⟨hpost, ?_⟩
  have hbefore : (post ++ s.scanned ++ [next]).idxOf t = post.idxOf t := by
    rw [List.append_assoc, List.idxOf_append_of_mem hpost]
  have hafter : s.schedTasks.idxOf t = s.scanned.length + (post.idxOf t + 1) := by
    rw [hlist, List.idxOf_append_of_notMem hpassed, List.idxOf_cons_ne _ hne]
  rw [hbefore, hafter]
  omega

section Steps

variable {s s' : State T P} {t : T}

/-- A call of `schedule` that passes over a task that could run brings it forward. -/
theorem Inv.schedule_passes (h : Inv s) {fuel : Nat} (he : s.enabled = true)
    (hclean : ScanClean s) (hs : Sched.schedule fuel s = .ret s') (ht : t ∈ s.schedTasks)
    (hready : s.ready t = true) (hpass : s'.current ≠ some t) :
    t ∈ s'.schedTasks ∧ s'.schedTasks.idxOf t < s.schedTasks.idxOf t := by
  obtain ⟨next, post, hlist, hnext⟩ := State.exists_ready ht hready
  rw [schedule_clean he hclean hlist hnext h.current_mem] at hs
  split at hs
  · cases hs
  · obtain rfl := Outcome.ret.inj hs
    have hne : next ≠ t := fun heq => hpass (congrArg some heq)
    obtain ⟨hpost, hlt⟩ := State.idxOf_rotated hlist ht hready hne
    have hmem : t ∈ post ++ s.scanned ++ [next] := by simp [hpost]
    have halive : (s.tasks t).state ≠ .killed :=
      (State.not_killed_of_not_doomed (State.not_doomed_of_ready hready)).2
    -- what is dropped is a killed task, which this one is not
    dsimp only
    unfold State.dropKilled
    split
    · exact ⟨hmem, hlt⟩
    · rename_i c _
      split
      · rename_i hk
        have hct : c ≠ t := by
          rintro rfl
          exact halive hk
        exact ⟨(List.mem_erase_of_ne (Ne.symm hct)).mpr hmem, (idxOf_erase_le _ hct).trans_lt hlt⟩
      · exact ⟨hmem, hlt⟩

/-- The cleanup task does not touch the scheduler. -/
theorem State.cleanupStep_sched (s : State T P) :
    s.cleanupStep.schedTasks = s.schedTasks ∧ s.cleanupStep.enabled = s.enabled := by
  unfold State.cleanupStep
  split
  · split <;> exact ⟨rfl, rfl⟩
  · exact ⟨rfl, rfl⟩
  · split <;> exact ⟨rfl, rfl⟩
  all_goals exact ⟨rfl, rfl⟩

/-- No other step moves a task back. -/
theorem Step.idxOf_le [DecidableEq P] {a : Action T P} (hst : Step s a s')
    (ha : a.isSchedule = false) (ht : t ∈ s.schedTasks) :
    t ∈ s'.schedTasks ∧ s'.schedTasks.idxOf t ≤ s.schedTasks.idxOf t := by
  cases hst with
  | insert _ =>
      exact ⟨List.mem_append_left _ ht, (List.idxOf_append_of_mem ht).le⟩
  | schedule _ => cases ha
  | cleanup _ =>
      rw [s.cleanupStep_sched.1]
      exact ⟨ht, le_rfl⟩
  | _ => exact ⟨ht, le_rfl⟩

/-- The scheduler is never disabled again. -/
theorem Step.enabled [DecidableEq P] {a : Action T P} (hst : Step s a s')
    (ha : a.isSchedule = false) (he : s.enabled = true) : s'.enabled = true := by
  cases hst with
  | enable => rfl
  | schedule _ => cases ha
  | cleanup _ => rw [s.cleanupStep_sched.2, he]
  | _ => exact he

/-- A clean `schedule` leaves the scheduler enabled. -/
theorem Inv.schedule_enabled (h : Inv s) {fuel : Nat} (he : s.enabled = true)
    (hclean : ScanClean s) (hs : Sched.schedule fuel s = .ret s') : s'.enabled = true := by
  obtain ⟨next, post, hlist, hnext⟩ := State.exists_ready h.idle_mem h.ready_idle
  rw [schedule_clean he hclean hlist hnext h.current_mem] at hs
  split at hs
  · cases hs
  · obtain rfl := Outcome.ret.inj hs
    exact he

end Steps

/-! ## Waiting -/

/-- A task that waits in the list of a scheduler that is enabled. -/
structure Queued (t : T) (s : State T P) : Prop where
  inv : Inv s
  enabled : s.enabled = true
  mem : t ∈ s.schedTasks

/-- A step of a run in which a task waits switches to it, or leaves it waiting and no
further back, and a call of `schedule` leaves it further in front. -/
theorem Queued.step [DecidableEq P] {s s' : State T P} {t : T} {a : Action T P}
    (h : Queued t s) (hst : Guarded Step (Waits t) s a s') :
    a.isSchedule = true ∧ s'.current = some t ∨
      Queued t s' ∧ s'.schedTasks.idxOf t + [a].countP Action.isSchedule ≤
        s.schedTasks.idxOf t := by
  obtain ⟨hstep, hclean, hready⟩ := hst
  have hinv : Inv s' := h.inv.step hstep hclean
  cases ha : a.isSchedule with
  | false =>
      obtain ⟨hmem, hle⟩ := hstep.idxOf_le ha h.mem
      exact Or.inr ⟨⟨hinv, hstep.enabled ha h.enabled, hmem⟩, by simpa [ha] using hle⟩
  | true =>
      cases hstep with
      | schedule hs =>
          cases Decidable.em (s'.current = some t) with
          | inl hcur => exact Or.inl ⟨rfl, hcur⟩
          | inr hpass =>
              have hscan : ScanClean s := hclean _ rfl h.enabled
              obtain ⟨hmem, hlt⟩ :=
                h.inv.schedule_passes h.enabled hscan hs h.mem (hready rfl) hpass
              exact Or.inr ⟨⟨hinv, h.inv.schedule_enabled h.enabled hscan hs, hmem⟩,
                by simpa [ha] using Nat.succ_le_of_lt hlt⟩
      | _ => cases ha

/-- **No task starves.**  From every state that a run with clean scans has reached with the
scheduler enabled, a task of the list that can run whenever `schedule` is called is switched
to by the first call after as many as there are tasks in front of it, or earlier. -/
theorem ready_task_runs [DecidableEq P] {idle cleanup : T} (hne : idle ≠ cleanup)
    {hist as : List (Action T P)} {s s' : State T P} {t : T}
    (hreach : Run (Guarded Step CleanScans) (State.init idle cleanup) hist s)
    (he : s.enabled = true) (ht : t ∈ s.schedTasks)
    (hrun : Run (Guarded Step (Waits t)) s as s')
    (hcount : s.schedTasks.idxOf t < as.countP Action.isSchedule) :
    ∃ before call after u v, as = before ++ call :: after ∧
      before.countP Action.isSchedule ≤ s.schedTasks.idxOf t ∧ call.isSchedule = true ∧
      Run (Guarded Step (Waits t)) s before u ∧ Guarded Step (Waits t) u call v ∧
      v.current = some t ∧ Run (Guarded Step (Waits t)) v after s' :=
  hrun.reaches (P := Queued t) (fun s => s.schedTasks.idxOf t) (fun s => s.current = some t)
    (fun _ _ _ hq hst => hq.step hst) ⟨(Inv.init hne).run hreach, he, ht⟩ hcount

/-- The idle task, behind the cleanup task. -/
theorem ready_task_runs_idle :
    ∃ (s s' : State (Fin 2) (Fin 1)) (as : List (Action (Fin 2) (Fin 1))),
    Run (Guarded Step CleanScans) (State.init 0 1) [.enable] s ∧
      Run (Guarded Step (Waits 0)) s as s' ∧ as = [.schedule 2, .schedule 2] ∧
      ∃ before call after u v, as = before ++ call :: after ∧
        before.countP Action.isSchedule ≤ s.schedTasks.idxOf 0 ∧ call.isSchedule = true ∧
        Run (Guarded Step (Waits 0)) s before u ∧ Guarded Step (Waits 0) u call v ∧
        v.current = some 0 ∧ Run (Guarded Step (Waits 0)) v after s' := by
  have henable : Run (Guarded Step CleanScans) (State.init 0 1 : State (Fin 2) (Fin 1))
      [.enable] _ := .cons ⟨.enable, nofun⟩ .nil
  have hwait : Run (Guarded Step (Waits 0)) ({ State.init 0 1 with enabled := true } :
      State (Fin 2) (Fin 1)) [.schedule 2, .schedule 2] _ :=
    .cons ⟨.schedule rfl, fun _ _ _ => by decide, fun _ => rfl⟩
      (.cons ⟨.schedule rfl, fun _ _ _ => by decide, fun _ => rfl⟩ .nil)
  exact ⟨_, _, _, henable, hwait, rfl,
    ready_task_runs (by decide) henable rfl (by decide) hwait (by decide)⟩

end Sched

end UlmerOS
