import UlmerOS.Sched.SchedInv

/-!
# What `schedule` removes and the cleanup task frees

A `schedule` call is sound when it returns, never passes `NULL` to
`list_it_remove`, removes killed tasks only and leaves every other task in the
list exactly once.  `schedule_sound_iff` says when that is so: exactly when no
killed task, and no task of a killed process, stands in front of the first
schedulable task of the list.

Behind such a task `task_schedulable` removes `current_task` instead of the task
it was asked about.  Either the current task is alive and is lost, or it is dead
and `schedule` looks for it a second time and gets `NULL`.

The killed task itself stays in the list.  The cleanup task goes by the task's
state alone, so it then frees a task the scheduler still has
(`listed_task_deleted`).  With clean scans it never does
(`freed_tasks_unschedulable`).
-/

namespace UlmerOS

namespace Sched

open Transition (Run Guarded)

variable {T P : Type} [DecidableEq T]

/-- One `schedule` call removes dead tasks only, and only from where they are. -/
structure SchedSound (s : State T P) : Prop where
  /-- It returns, after at most one round per task of the list. -/
  returns : ∃ s', ∀ fuel, s.schedTasks.length ≤ fuel → schedule fuel s = .ret s'
  /-- It never removes a task that is not in the list. -/
  noNull : ∀ fuel, schedule fuel s ≠ .fault
  /-- A task that is gone afterwards is killed. -/
  removed : ∀ fuel s', schedule fuel s = .ret s' →
    ∀ t ∈ s.schedTasks, t ∉ s'.schedTasks → (s'.tasks t).state = .killed
  /-- Every other task is in the list once, and no task was added. -/
  kept : ∀ fuel s', schedule fuel s = .ret s' →
    (∀ t ∈ s.schedTasks, (s'.tasks t).state ≠ .killed → s'.schedTasks.count t = 1) ∧
      ∀ t ∈ s'.schedTasks, t ∈ s.schedTasks

variable {s : State T P}

theorem sound_of_disabled (h : Inv s) (he : s.enabled = false) : SchedSound s := by
  have hs : ∀ fuel, schedule fuel s = .ret s := fun fuel => if_pos (by simp [he])
  refine ⟨⟨s, fun fuel _ => hs fuel⟩, fun fuel hf => ?_, fun fuel s' hr => ?_, fun fuel s' hr => ?_⟩
  · rw [hs fuel] at hf
    cases hf
  · rw [hs fuel] at hr
    obtain rfl := Outcome.ret.inj hr
    exact fun t ht hn => absurd ht hn
  · rw [hs fuel] at hr
    obtain rfl := Outcome.ret.inj hr
    exact ⟨fun t ht _ => List.count_eq_one_of_mem h.nodup ht, fun t ht => ht⟩

theorem sound_of_clean (h : Inv s) (he : s.enabled = true) (hclean : ScanClean s) :
    SchedSound s := by
  obtain ⟨next, post, hlist, hnext⟩ := State.exists_ready h.idle_mem h.ready_idle
  have hs := schedule_clean he hclean hlist hnext h.current_mem
  have hperm := State.rotated_perm hlist
  have hrot : (post ++ s.scanned ++ [next]).Nodup := hperm.nodup_iff.mpr h.nodup
  -- the one task that may be missing is the current one, and then it is killed
  have hgone : ∀ t ∈ s.schedTasks, t ∉ s.dropKilled (post ++ s.scanned ++ [next]) →
      (s.tasks t).state = .killed := by
    intro t ht hn
    by_contra hk
    refine hn ?_
    unfold State.dropKilled
    split
    · exact hperm.symm.subset ht
    · split
      · rename_i c _ hkc
        refine (List.mem_erase_of_ne ?_).mpr (hperm.symm.subset ht)
        rintro rfl
        exact hk hkc
      · exact hperm.symm.subset ht
  have hret : ∀ fuel s', schedule fuel s = .ret s' →
      s' = { s with
        schedTasks := s.dropKilled (post ++ s.scanned ++ [next]), current := some next } := by
    intro fuel s' hr
    rw [hs fuel] at hr
    split at hr
    · cases hr
    · exact (Outcome.ret.inj hr).symm
  refine ⟨⟨_, fun fuel hf => (hs fuel).trans (if_neg ?_)⟩, fun fuel hf => ?_, fun fuel s' hr => ?_,
    fun fuel s' hr => ?_⟩
  · rw [hlist, List.length_append, List.length_cons] at hf
    omega
  · rw [hs fuel] at hf
    split at hf <;> cases hf
  · rw [hret fuel s' hr]
    exact hgone
  · rw [hret fuel s' hr]
    refine ⟨fun t ht hk => ?_, fun t ht => hperm.subset ((s.dropKilled_sublist _).subset ht)⟩
    refine List.count_eq_one_of_mem ((s.dropKilled_sublist _).nodup hrot) ?_
    by_contra hn
    exact hk (hgone t ht hn)

/-- Behind a killed task the scan removes the current task from the list, and
then `schedule` either loses it or looks for it in vain. -/
theorem not_sound_of_doomed (h : Inv s) (he : s.enabled = true) (hbad : ¬ ScanClean s) :
    ¬ SchedSound s := by
  intro hsound
  obtain ⟨pre, d, post, hlist, hd, hscan⟩ := exists_doomed hbad
  -- run the scan past the killed task
  obtain ⟨s', hs'⟩ := hsound.returns
  have hlen : s.schedTasks.length ≤ pre.length + (post.length + 1) := by
    rw [hlist]
    simp
  have hrun := hs' _ hlen
  have hnull := hsound.noNull (pre.length + (post.length + 1))
  rw [schedule, if_neg (by simp [he]), getNextTask_doomed hlist hscan hd] at hrun hnull
  obtain ⟨hkl, -, hkc⟩ :=
    State.killWithProcess_frame ({ s with schedTasks := post ++ pre ++ [d] } : State T P) d
  generalize State.killWithProcess
    ({ s with schedTasks := post ++ pre ++ [d] } : State T P) d = k at hrun hnull hkl hkc
  have hperm := State.rotated_perm hlist
  cases hcur : s.current with
  | none =>
      rw [State.removeCurrent_of_not_mem (fun c hc => by rw [hkc, hcur] at hc; cases hc)] at hnull
      exact hnull rfl
  | some c =>
      have hcm : c ∈ k.schedTasks := by
        rw [hkl]
        exact hperm.symm.subset (h.current_mem c hcur)
      have hnd : k.schedTasks.Nodup := by
        rw [hkl]
        exact hperm.nodup_iff.mpr h.nodup
      have hkcur : k.current = some c := hkc.trans hcur
      rw [State.removeCurrent_of_mem hkcur hcm] at hrun
      have hnot : c ∉ k.schedTasks.erase c := fun hm => (hnd.mem_erase_iff.mp hm).1 rfl
      obtain ⟨⟨next, s4⟩, hget, hrest⟩ := Outcome.bind_eq_ret.mp hrun
      rw [Outcome.ret_bind] at hget
      obtain ⟨hne, hout, -, hc4⟩ := getNextTask_frame (c := c)
        (s := { k with schedTasks := k.schedTasks.erase c }) hget hnot
      have hc4' : s4.current = some c := hc4.trans hkcur
      dsimp only at hrest
      rw [if_neg (by rw [hc4']; exact fun he => hne (Option.some.inj he).symm)] at hrest
      obtain ⟨s5, hleave, hfin⟩ := Outcome.bind_eq_ret.mp hrest
      rw [State.leaveCurrent, hc4'] at hleave
      dsimp only at hleave
      split at hleave
      · rw [State.removeCurrent_of_not_mem (fun c' hc' => by
          rw [hc4'] at hc'; exact Option.some.inj hc' ▸ hout)] at hleave
        cases hleave
      · rename_i halive
        obtain rfl := Outcome.ret.inj hleave
        obtain rfl := Outcome.ret.inj hfin
        exact halive (hsound.removed _ _ (hs' _ hlen) c (h.current_mem c hcur) hout)

/-- In every run whose `schedule` calls met no killed task in their scan, the next
`schedule` call is sound if and only if it meets none either. -/
theorem schedule_sound_iff [DecidableEq P] {idle cleanup : T} (hne : idle ≠ cleanup)
    {as : List (Action T P)}
    (hr : Run (Guarded Step CleanScans) (State.init idle cleanup) as s) :
    SchedSound s ↔ (s.enabled = true → ScanClean s) := by
  have h : Inv s := (Inv.init hne).run hr
  constructor
  · intro hsound he
    by_contra hbad
    exact not_sound_of_doomed h he hbad hsound
  · intro hclean
    cases he : s.enabled with
    | false => exact sound_of_disabled h he
    | true => exact sound_of_clean h he (hclean he)

/-- A task kills itself and the scheduler goes on to the cleanup task. -/
theorem schedule_sound_iff_self_kill :
    ∃ s : State Nat Nat, Run (Guarded Step CleanScans) (State.init 0 1)
      [.create 2, .count 2, .insert 2, .enable, .schedule 1, .schedule 1, .schedule 1, .kill] s ∧
      s.current = some 2 ∧ (s.tasks 2).state = .killed ∧ 2 ∈ s.schedTasks ∧ SchedSound s := by
  have hr : Run (Guarded Step CleanScans) (State.init 0 1 : State Nat Nat)
      [.create 2, .count 2, .insert 2, .enable, .schedule 1, .schedule 1, .schedule 1, .kill] _ :=
    .cons ⟨.create rfl rfl, fun _ he => nomatch he⟩ (.cons ⟨.count rfl, fun _ he => nomatch he⟩
    (.cons ⟨.insert rfl, fun _ he => nomatch he⟩ (.cons ⟨.enable, fun _ he => nomatch he⟩
    (.cons ⟨.schedule rfl, fun _ _ _ => by decide⟩ (.cons ⟨.schedule rfl, fun _ _ _ => by decide⟩
    (.cons ⟨.schedule rfl, fun _ _ _ => by decide⟩
    (.cons ⟨.kill (c := 2) ⟨rfl, rfl, by decide, by decide⟩, fun _ he => nomatch he⟩ .nil)))))))
  exact ⟨_, hr, rfl, rfl, by decide, (schedule_sound_iff (by decide) hr).mpr (fun _ => by decide)⟩

/-- A process is killed and its only task is preempted before `task_kill`.  When a
later scan meets that task, the running idle task is taken off the list. -/
theorem schedule_loses_running_task :
    ∃ s s' : State Nat Nat, Run Step (State.init 0 1)
      [.create 2, .count 2, .assign 2 7, .insert 2, .enable, .schedule 1, .schedule 1, .schedule 1,
        .exit, .schedule 1, .schedule 1] s ∧
      schedule 3 s = .ret s' ∧ 0 ∈ s.schedTasks ∧ 0 ∉ s'.schedTasks ∧
      (s'.tasks 0).state = .running ∧ ¬ SchedSound s := by
  have hr : Run Step (State.init 0 1 : State Nat Nat)
      [.create 2, .count 2, .assign 2 7, .insert 2, .enable, .schedule 1, .schedule 1, .schedule 1,
        .exit, .schedule 1, .schedule 1] _ :=
    .cons (.create rfl rfl) (.cons (.count rfl) (.cons (.assign rfl) (.cons (.insert rfl)
    (.cons .enable (.cons (.schedule rfl) (.cons (.schedule rfl) (.cons (.schedule rfl)
    (.cons (.exit (c := 2) (p := 7) ⟨rfl, rfl, by decide, by decide⟩ rfl)
    (.cons (.schedule rfl) (.cons (.schedule rfl) .nil))))))))))
  have hmem : 0 ∈ ([2, 1, 0] : List Nat) := by decide
  exact ⟨_, _, hr, rfl, hmem, by decide, rfl,
    fun hs => nomatch hs.removed 3 _ rfl 0 hmem (by decide)⟩

/-! ## What the cleanup task frees -/

/-- In every run with clean scans, a task that the cleanup task is about to delete
is neither in `sched_tasks` nor current, and no freed task ever is. -/
theorem freed_tasks_unschedulable [DecidableEq P] {idle cleanup : T} (hne : idle ≠ cleanup)
    {as : List (Action T P)}
    (hr : Run (Guarded Step CleanScans) (State.init idle cleanup) as s) :
    (∀ t rest, s.cleanupPc = .delete t rest → t ∉ s.schedTasks ∧ s.current ≠ some t) ∧
    ∀ t ∈ s.freed, t ∉ s.schedTasks ∧ s.current ≠ some t := by
  have h : Inv s := (Inv.init hne).run hr
  refine ⟨fun t rest hpc => ?_, fun t ht => ?_⟩
  · have hout := (h.deleting t rest hpc).1
    exact ⟨hout, fun hc => hout (h.current_mem t hc)⟩
  · have hout := (h.freed_gone t ht).1
    exact ⟨hout, fun hc => hout (h.current_mem t hc)⟩

/-- A task kills itself and the cleanup task frees it. -/
theorem freed_tasks_unschedulable_self_kill :
    ∃ s : State Nat Nat, Run (Guarded Step CleanScans) (State.init 0 1)
      [.create 2, .count 2, .insert 2, .enable, .schedule 1, .schedule 1, .schedule 1, .kill,
        .schedule 1, .cleanup, .cleanup, .cleanup, .cleanup, .cleanup] s ∧
      2 ∈ s.freed ∧ 2 ∉ s.schedTasks ∧ s.current ≠ some 2 := by
  have hr : Run (Guarded Step CleanScans) (State.init 0 1 : State Nat Nat)
      [.create 2, .count 2, .insert 2, .enable, .schedule 1, .schedule 1, .schedule 1, .kill,
        .schedule 1, .cleanup, .cleanup, .cleanup, .cleanup, .cleanup] _ :=
    .cons ⟨.create rfl rfl, fun _ he => nomatch he⟩ (.cons ⟨.count rfl, fun _ he => nomatch he⟩
    (.cons ⟨.insert rfl, fun _ he => nomatch he⟩ (.cons ⟨.enable, fun _ he => nomatch he⟩
    (.cons ⟨.schedule rfl, fun _ _ _ => by decide⟩ (.cons ⟨.schedule rfl, fun _ _ _ => by decide⟩
    (.cons ⟨.schedule rfl, fun _ _ _ => by decide⟩
    (.cons ⟨.kill (c := 2) ⟨rfl, rfl, by decide, by decide⟩, fun _ he => nomatch he⟩
    (.cons ⟨.schedule rfl, fun _ _ _ => by decide⟩ (.cons ⟨.cleanup rfl, fun _ he => nomatch he⟩
    (.cons ⟨.cleanup rfl, fun _ he => nomatch he⟩ (.cons ⟨.cleanup rfl, fun _ he => nomatch he⟩
    (.cons ⟨.cleanup rfl, fun _ he => nomatch he⟩
    (.cons ⟨.cleanup rfl, fun _ he => nomatch he⟩ .nil)))))))))))))
  have hmem : 2 ∈ ([2] : List Nat) := by decide
  exact ⟨_, hr, hmem, (freed_tasks_unschedulable (by decide) hr).2 2 hmem⟩

/-- After `schedule_loses_running_task` the killed task is still in `sched_tasks`
when the cleanup task deletes it. -/
theorem listed_task_deleted :
    ∃ s : State Nat Nat, Run Step (State.init 0 1)
      [.create 2, .count 2, .assign 2 7, .insert 2, .enable, .schedule 1, .schedule 1, .schedule 1,
        .exit, .schedule 1, .schedule 1, .schedule 2, .cleanup, .cleanup, .cleanup, .cleanup] s ∧
      s.cleanupPc = .delete 2 [] ∧ 2 ∈ s.schedTasks := by
  have hr : Run Step (State.init 0 1 : State Nat Nat)
      [.create 2, .count 2, .assign 2 7, .insert 2, .enable, .schedule 1, .schedule 1, .schedule 1,
        .exit, .schedule 1, .schedule 1, .schedule 2, .cleanup, .cleanup, .cleanup, .cleanup] _ :=
    .cons (.create rfl rfl) (.cons (.count rfl) (.cons (.assign rfl) (.cons (.insert rfl)
    (.cons .enable (.cons (.schedule rfl) (.cons (.schedule rfl) (.cons (.schedule rfl)
    (.cons (.exit (c := 2) (p := 7) ⟨rfl, rfl, by decide, by decide⟩ rfl)
    (.cons (.schedule rfl) (.cons (.schedule rfl) (.cons (.schedule rfl) (.cons (.cleanup rfl)
    (.cons (.cleanup rfl) (.cons (.cleanup rfl) (.cons (.cleanup rfl) .nil)))))))))))))))
  exact ⟨_, hr, rfl, by decide⟩

end Sched

end UlmerOS
