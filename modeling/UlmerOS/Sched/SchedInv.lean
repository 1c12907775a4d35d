import UlmerOS.Sched.SchedScan
import Mathlib.Data.List.TakeWhile

/-!
# The scheduler's invariant

In a run whose `schedule` calls meet no killed task in their scan, the list
stays duplicate free, it holds the current task and the idle task, and a killed
task that is still in the list is the current one.  The cleanup task therefore
only frees tasks that are out of the list.

`Inv` collects these facts with the ones about a task's creation they rest on:
a task is listed once, because it is inserted once, and it is killed only after
it was inserted.
-/

namespace UlmerOS

namespace Sched

open Transition (Run Guarded)

variable {T P : Type} [DecidableEq T]

/-! ## `schedule` after a clean scan -/

omit [DecidableEq T] in
/-- With a schedulable task in the list, the scan ends at the first one. -/
theorem State.exists_ready {s : State T P} {t : T} (hmem : t ∈ s.schedTasks)
    (hready : s.ready t = true) :
    ∃ next post, s.schedTasks = s.scanned ++ next :: post ∧ s.ready next = true := by
  have hsplit : s.scanned ++ s.schedTasks.dropWhile (fun t => !s.ready t) = s.schedTasks :=
    List.takeWhile_append_dropWhile
  cases hdrop : s.schedTasks.dropWhile (fun t => !s.ready t) with
  | nil =>
      have hall := List.dropWhile_eq_nil_iff.mp hdrop t hmem
      rw [hready] at hall
      cases hall
  | cons next post =>
      have hhead := List.head_dropWhile_not (fun t => !s.ready t) (l := s.schedTasks)
        (by simp [hdrop])
      refine ⟨next, post, by rw [← hdrop]; exact hsplit.symm, ?_⟩
      simpa [hdrop] using hhead

/-- The list a scan leaves, without the current task if it is killed. -/
def State.dropKilled (s : State T P) (l : List T) : List T :=
  match s.current with
  | none => l
  | some c => if (s.tasks c).state = .killed then l.erase c else l

theorem State.dropKilled_of_killed {s : State T P} {c : T} (l : List T)
    (hc : s.current = some c) (hk : (s.tasks c).state = .killed) : s.dropKilled l = l.erase c := by
  rw [State.dropKilled, hc]
  exact if_pos hk

theorem State.dropKilled_of_alive {s : State T P} (l : List T)
    (h : ∀ c, s.current = some c → (s.tasks c).state ≠ .killed) : s.dropKilled l = l := by
  unfold State.dropKilled
  split
  · rfl
  · rename_i c hc
    exact if_neg (h c hc)

theorem State.dropKilled_sublist (s : State T P) (l : List T) :
    (s.dropKilled l).Sublist l := by
  unfold State.dropKilled
  split
  · exact List.Sublist.refl l
  · split
    · exact List.erase_sublist
    · exact List.Sublist.refl l

/-- Leaving the current task removes it from the list if it is killed. -/
theorem State.leaveCurrent_eq {s : State T P}
    (hmem : ∀ c, s.current = some c → c ∈ s.schedTasks) :
    s.leaveCurrent = .ret { s with schedTasks := s.dropKilled s.schedTasks } := by
  by_cases hk : ∃ c, s.current = some c ∧ (s.tasks c).state = .killed
  · obtain ⟨c, hc, hk⟩ := hk
    rw [State.dropKilled_of_killed _ hc hk, State.leaveCurrent, hc]
    dsimp only
    rw [if_pos hk, State.removeCurrent_of_mem hc (hmem c hc), hc]
  · have halive : ∀ c, s.current = some c → (s.tasks c).state ≠ .killed :=
      fun c hc hk' => hk ⟨c, hc, hk'⟩
    rw [State.dropKilled_of_alive _ halive, State.leaveCurrent]
    split
    · rfl
    · rename_i c hc
      exact if_neg (halive c hc)

/-- After a clean scan `schedule` rotates the list, removes the current task if it
is killed, and switches to the first schedulable task. -/
theorem schedule_clean {s : State T P} {next : T} {post : List T} (he : s.enabled = true)
    (hclean : ScanClean s) (hlist : s.schedTasks = s.scanned ++ next :: post)
    (hnext : s.ready next = true) (hmem : ∀ c, s.current = some c → c ∈ s.schedTasks)
    (fuel : Nat) :
    schedule fuel s =
      if fuel ≤ s.scanned.length then .hang
      else .ret { s with
        schedTasks := s.dropKilled (post ++ s.scanned ++ [next])
        current := some next } := by
  rw [schedule, if_neg (by simp [he]), getNextTask_clean hlist hclean.scanned hnext]
  by_cases hfuel : fuel ≤ s.scanned.length
  · rw [if_pos hfuel, if_pos hfuel]
    rfl
  · rw [if_neg hfuel, if_neg hfuel]
    rw [Outcome.ret_bind]
    dsimp only
    split
    · -- the current task is the one found, so it is not killed
      rename_i hcur
      have hcur' : s.current = some next := hcur
      have halive : (s.tasks next).state ≠ .killed :=
        (State.not_killed_of_not_doomed (State.not_doomed_of_ready hnext)).2
      rw [State.dropKilled_of_alive _ (fun c hc => by
        rw [hcur'] at hc; exact Option.some.inj hc ▸ halive), hcur']
    · have hmem' : ∀ c, s.current = some c → c ∈ post ++ s.scanned ++ [next] := by
        intro c hc
        exact (State.rotated_perm hlist).mem_iff.mpr (hmem c hc)
      rw [State.leaveCurrent_eq
        (s := { s with schedTasks := post ++ s.scanned ++ [next] }) hmem', Outcome.ret_bind]
      rfl

/-! ## The invariant -/

/-- What holds in every state of a run with clean scans. -/
structure Inv (s : State T P) : Prop where
  /-- No task is in the list twice. -/
  nodup : s.schedTasks.Nodup
  /-- A task gets into the list by `sched_insert` only. -/
  staged : ∀ t ∈ s.schedTasks, s.stage t = .inserted
  /-- The current task is in the list. -/
  current_mem : ∀ c, s.current = some c → c ∈ s.schedTasks
  /-- The idle task is in the list and can always run. -/
  idle_mem : s.idle ∈ s.schedTasks
  idle_running : s.tasks s.idle = ⟨.running, false, none⟩
  /-- A killed task in the list is the current one. -/
  killed_current : ∀ t ∈ s.schedTasks, (s.tasks t).state = .killed → s.current = some t
  /-- A killed task was inserted before. -/
  killed_staged : ∀ t, (s.tasks t).state = .killed → s.stage t = .inserted
  /-- The cleanup task is alive in its loop. -/
  cleanup_alive : s.cleanupPc ≠ .done → (s.tasks s.cleanup).state ≠ .killed
  /-- The task the cleanup task is about to delete is out of the list for good. -/
  deleting : ∀ t rest, s.cleanupPc = .delete t rest →
    t ∉ s.schedTasks ∧ s.stage t = .inserted
  /-- So are the tasks it has freed. -/
  freed_gone : ∀ t ∈ s.freed, t ∉ s.schedTasks ∧ s.stage t = .inserted

/-- The condition on a run: its scans meet no killed task. -/
def CleanScans (s : State T P) (a : Action T P) : Prop :=
  ∀ fuel, a = .schedule fuel → s.enabled = true → ScanClean s

/-! ## It holds at the start -/

theorem Inv.init {idle cleanup : T} (hne : idle ≠ cleanup) :
    Inv (State.init idle cleanup : State T P) where
  nodup := by simp [State.init, hne.symm]
  staged := by
    intro t ht
    have ht' : t = idle ∨ t = cleanup := by simpa [State.init, or_comm] using ht
    exact if_pos ht'
  current_mem := by intro c hc; cases hc
  idle_mem := by simp [State.init]
  idle_running := rfl
  killed_current := by intro t _ hk; cases hk
  killed_staged := by intro t hk; cases hk
  cleanup_alive := by intro _ hk; cases hk
  deleting := by intro t rest hpc; cases hpc
  freed_gone := by intro t ht; cases ht

/-! ## It is kept by every step -/

section Steps

variable {s s' : State T P}

omit [DecidableEq T] in
/-- The invariant reads of the tasks which are killed, and the idle task. -/
theorem Inv.of_tasks (h : Inv s) {f : T → Task P} (hidle : f s.idle = ⟨.running, false, none⟩)
    (hk : ∀ t, (f t).state = .killed → (s.tasks t).state = .killed) :
    Inv { s with tasks := f } :=
  { h with
    idle_running := hidle
    killed_current := fun t ht hkt => h.killed_current t ht (hk t hkt)
    killed_staged := fun t hkt => h.killed_staged t (hk t hkt)
    cleanup_alive := fun hpc hkt => h.cleanup_alive hpc (hk _ hkt) }

/-- One task is stored to, and not killed by it. -/
theorem Inv.update_task (h : Inv s) {t : T} {task : Task P}
    (hidle : t = s.idle → task = ⟨.running, false, none⟩)
    (hk : task.state = .killed → (s.tasks t).state = .killed) :
    Inv { s with tasks := Function.update s.tasks t task } := by
  refine h.of_tasks ?_ (fun u hu => ?_)
  · by_cases ht : s.idle = t
    · rw [ht, Function.update_self]
      exact hidle ht.symm
    · rw [Function.update_of_ne ht]
      exact h.idle_running
  · by_cases ht : u = t
    · subst ht
      rw [Function.update_self] at hu
      exact hk hu
    · rwa [Function.update_of_ne ht] at hu

theorem Inv.create (h : Inv s) {t : T} (hstage : s.stage t = .unborn) :
    Inv { s with
      tasks := Function.update s.tasks t ⟨.running, false, none⟩
      taskList := s.taskList ++ [t]
      stage := Function.update s.stage t .listed } := by
  have hne : ∀ u, s.stage u = .inserted → u ≠ t := by
    rintro u hu rfl
    rw [hstage] at hu
    cases hu
  have hstaged : ∀ u, s.stage u = .inserted →
      Function.update s.stage t .listed u = .inserted := fun u hu =>
    (Function.update_of_ne (hne u hu) ..).trans hu
  have h' : Inv { s with tasks := Function.update s.tasks t ⟨.running, false, none⟩ } :=
    h.update_task (fun _ => rfl) (fun hk => nomatch hk)
  exact
    { h' with
      staged := fun u hu => hstaged u (h.staged u hu)
      killed_staged := fun u hk => hstaged u (h'.killed_staged u hk)
      deleting := fun u rest hpc => ⟨(h.deleting u rest hpc).1, hstaged u (h.deleting u rest hpc).2⟩
      freed_gone := fun u hu => ⟨(h.freed_gone u hu).1, hstaged u (h.freed_gone u hu).2⟩ }

/-- A creator moves on, short of inserting its task. -/
theorem Inv.advance (h : Inv s) {t : T} {g : Stage} {n : Nat} (hstage : s.stage t ≠ .inserted) :
    Inv { s with taskCount := n, stage := Function.update s.stage t g } := by
  have hstaged : ∀ u, s.stage u = .inserted → Function.update s.stage t g u = .inserted := by
    intro u hu
    have hne : u ≠ t := by rintro rfl; exact hstage hu
    exact (Function.update_of_ne hne ..).trans hu
  exact
    { h with
      staged := fun u hu => hstaged u (h.staged u hu)
      killed_staged := fun u hk => hstaged u (h.killed_staged u hk)
      deleting := fun u rest hpc => ⟨(h.deleting u rest hpc).1, hstaged u (h.deleting u rest hpc).2⟩
      freed_gone := fun u hu => ⟨(h.freed_gone u hu).1, hstaged u (h.freed_gone u hu).2⟩ }

theorem Inv.insert (h : Inv s) {t : T} (hstage : s.stage t = .counted) :
    Inv { s with
      schedTasks := s.schedTasks ++ [t]
      stage := Function.update s.stage t .inserted } := by
  have hne : ∀ u, s.stage u = .inserted → u ≠ t := by
    rintro u hu rfl
    rw [hstage] at hu
    cases hu
  have hstaged : ∀ u, s.stage u = .inserted →
      Function.update s.stage t .inserted u = .inserted := fun u hu =>
    (Function.update_of_ne (hne u hu) ..).trans hu
  have hmem : ∀ u, u ∈ s.schedTasks ++ [t] ↔ u ∈ s.schedTasks ∨ u = t := by simp
  have hout : ∀ u, u ∉ s.schedTasks ∧ s.stage u = .inserted →
      u ∉ s.schedTasks ++ [t] ∧ Function.update s.stage t .inserted u = .inserted := by
    rintro u ⟨hu, hs⟩
    refine ⟨fun hm => ?_, hstaged u hs⟩
    exact ((hmem u).mp hm).elim hu (hne u hs)
  exact
    { nodup := by
        refine List.nodup_append.mpr ⟨h.nodup, List.nodup_singleton t, ?_⟩
        intro u hu v hv
        rw [List.mem_singleton.mp hv]
        exact hne u (h.staged u hu)
      staged := by
        intro u hu
        rcases (hmem u).mp hu with hu | rfl
        · exact hstaged u (h.staged u hu)
        · exact Function.update_self ..
      current_mem := fun c hc => (hmem c).mpr (Or.inl (h.current_mem c hc))
      idle_mem := (hmem _).mpr (Or.inl h.idle_mem)
      idle_running := h.idle_running
      killed_current := by
        intro u hu hk
        rcases (hmem u).mp hu with hu | rfl
        · exact h.killed_current u hu hk
        · exact absurd rfl (hne u (h.killed_staged u hk))
      killed_staged := fun u hk => hstaged u (h.killed_staged u hk)
      cleanup_alive := h.cleanup_alive
      deleting := fun u rest hpc => hout u (h.deleting u rest hpc)
      freed_gone := fun u hu => hout u (h.freed_gone u hu) }

theorem Inv.kill (h : Inv s) {c : T} (hc : s.Active c) : Inv (s.setState c .killed) := by
  obtain ⟨hcur, _, hidle, hcl⟩ := hc
  have hother : ∀ u, u ≠ c →
      Function.update s.tasks c { s.tasks c with state := .killed } u = s.tasks u :=
    fun u hu => Function.update_of_ne hu ..
  have hkilled : ∀ u, ((s.setState c .killed).tasks u).state = .killed →
      u = c ∨ (s.tasks u).state = .killed := by
    intro u hk
    by_cases hu : u = c
    · exact Or.inl hu
    · exact Or.inr (hother u hu ▸ hk)
  exact
    { h with
      idle_running := (hother _ hidle.symm).trans h.idle_running
      killed_current := by
        intro u hu hk
        rcases hkilled u hk with rfl | hk'
        · exact hcur
        · exact h.killed_current u hu hk'
      killed_staged := by
        intro u hk
        rcases hkilled u hk with rfl | hk'
        · exact h.staged u (h.current_mem u hcur)
        · exact h.killed_staged u hk'
      cleanup_alive := by
        intro hpc hk
        rcases hkilled _ hk with he | hk'
        · exact hpc (hcl he.symm)
        · exact h.cleanup_alive hpc hk' }

omit [DecidableEq T] in
theorem Inv.ready_idle (h : Inv s) : s.ready s.idle = true := by
  simp [State.ready, State.doomed, State.procKilled, h.idle_running]

/-- A clean `schedule` removes the current task if it is killed, and nothing else. -/
theorem Inv.schedule (h : Inv s) {fuel : Nat} (hclean : s.enabled = true → ScanClean s)
    (hs : schedule fuel s = .ret s') : Inv s' := by
  cases he : s.enabled with
  | false =>
      rw [Sched.schedule, if_pos (by simp [he])] at hs
      exact Outcome.ret.inj hs ▸ h
  | true =>
      obtain ⟨next, post, hlist, hnext⟩ := State.exists_ready h.idle_mem h.ready_idle
      rw [schedule_clean he (hclean he) hlist hnext h.current_mem] at hs
      split at hs
      · cases hs
      · obtain rfl := Outcome.ret.inj hs
        have hperm := State.rotated_perm hlist
        have hrot : (post ++ s.scanned ++ [next]).Nodup := hperm.nodup_iff.mpr h.nodup
        have hsub : ∀ t ∈ s.dropKilled (post ++ s.scanned ++ [next]), t ∈ s.schedTasks :=
          fun t ht => hperm.subset ((s.dropKilled_sublist _).subset ht)
        -- a task that is not killed stays
        have hkeep : ∀ t ∈ s.schedTasks, (s.tasks t).state ≠ .killed →
            t ∈ s.dropKilled (post ++ s.scanned ++ [next]) := by
          intro t ht hk
          have ht' := hperm.symm.subset ht
          unfold State.dropKilled
          split
          · exact ht'
          · split
            · rename_i c _ hkc
              refine (List.mem_erase_of_ne ?_).mpr ht'
              rintro rfl
              exact hk hkc
            · exact ht'
        -- a killed one was the current task
        have hgone : ∀ t ∈ s.dropKilled (post ++ s.scanned ++ [next]),
            (s.tasks t).state ≠ .killed := by
          intro t ht hk
          have hc := h.killed_current t (hsub t ht) hk
          rw [State.dropKilled_of_killed _ hc hk] at ht
          exact absurd rfl (hrot.mem_erase_iff.mp ht).1
        have hnextmem : next ∈ s.schedTasks := by simp [hlist]
        have halive : (s.tasks next).state ≠ .killed :=
          (State.not_killed_of_not_doomed (State.not_doomed_of_ready hnext)).2
        exact
          { nodup := (s.dropKilled_sublist _).nodup hrot
            staged := fun t ht => h.staged t (hsub t ht)
            current_mem := by
              rintro c hc
              obtain rfl := Option.some.inj hc
              exact hkeep _ hnextmem halive
            idle_mem := hkeep _ h.idle_mem (by rw [h.idle_running]; exact fun he => nomatch he)
            idle_running := h.idle_running
            killed_current := fun t ht hk => absurd hk (hgone t ht)
            killed_staged := h.killed_staged
            cleanup_alive := h.cleanup_alive
            deleting := fun t rest hpc =>
              ⟨fun ht => (h.deleting t rest hpc).1 (hsub t ht), (h.deleting t rest hpc).2⟩
            freed_gone := fun t ht =>
              ⟨fun hm => (h.freed_gone t ht).1 (hsub t hm), (h.freed_gone t ht).2⟩ }

omit [DecidableEq T] in
/-- A step of the cleanup task that neither chooses nor deletes a task. -/
theorem Inv.moveCleanup (h : Inv s) {pc : CleanupPc T} {l : List T} {n : Nat}
    (hpc : s.cleanupPc ≠ .done) (hd : ∀ t rest, pc ≠ .delete t rest) :
    Inv { s with taskList := l, taskCount := n, cleanupPc := pc } :=
  { h with
    cleanup_alive := fun _ => h.cleanup_alive hpc
    deleting := fun t rest he => absurd he (hd t rest) }

omit [DecidableEq T] in
/-- The cleanup task finds a killed task out of the list: it is not the current
task, which is the cleanup task itself. -/
theorem Inv.choose (h : Inv s) (hcur : s.current = some s.cleanup) (hpc : s.cleanupPc ≠ .done)
    {t : T} {rest : List T} (hk : (s.tasks t).state = .killed) :
    Inv { s with cleanupPc := .delete t rest } := by
  have halive := h.cleanup_alive hpc
  refine { h with cleanup_alive := fun _ => halive, deleting := ?_ }
  intro u rest' he
  obtain ⟨rfl, -⟩ := CleanupPc.delete.inj he
  refine ⟨fun hm => ?_, h.killed_staged _ hk⟩
  have hc := h.killed_current _ hm hk
  rw [hcur] at hc
  exact halive (Option.some.inj hc ▸ hk)

omit [DecidableEq T] in
theorem Inv.delete (h : Inv s) {t : T} {rest : List T} (hpc : s.cleanupPc = .delete t rest) :
    Inv { s with freed := t :: s.freed, cleanupPc := .unlist t rest } := by
  refine { h with
    cleanup_alive := fun _ => h.cleanup_alive (by rw [hpc]; exact fun he => nomatch he)
    deleting := fun _ _ he => nomatch he
    freed_gone := ?_ }
  intro u hu
  rcases List.mem_cons.mp hu with rfl | hu
  · exact h.deleting u rest hpc
  · exact h.freed_gone u hu

theorem Inv.cleanup (h : Inv s) (hcur : s.current = some s.cleanup) : Inv s.cleanupStep := by
  unfold State.cleanupStep
  cases hpc : s.cleanupPc with
  | loop =>
      have hne : s.cleanupPc ≠ .done := by rw [hpc]; exact fun he => nomatch he
      dsimp only
      split
      · exact h.moveCleanup hne (fun _ _ he => nomatch he)
      · exact h.moveCleanup hne (fun _ _ he => nomatch he)
  | scan rest =>
      have hne : s.cleanupPc ≠ .done := by rw [hpc]; exact fun he => nomatch he
      cases rest with
      | nil => exact h.moveCleanup hne (fun _ _ he => nomatch he)
      | cons t rest =>
          dsimp only
          split
          · rename_i hk
            exact h.choose hcur hne hk
          · exact h.moveCleanup hne (fun _ _ he => nomatch he)
  | delete t rest => exact h.delete hpc
  | unlist t rest =>
      exact h.moveCleanup (by rw [hpc]; exact fun he => nomatch he) (fun _ _ he => nomatch he)
  | uncount rest =>
      exact h.moveCleanup (by rw [hpc]; exact fun he => nomatch he) (fun _ _ he => nomatch he)
  | done => exact h

theorem Inv.step [DecidableEq P] {a : Action T P} (h : Inv s) (hs : Step s a s')
    (hok : CleanScans s a) : Inv s' := by
  cases hs with
  | create hstage _ => exact h.create hstage
  | count hstage => exact h.advance (by rw [hstage]; decide)
  | @assign t p hstage =>
      refine h.update_task (fun ht => ?_) id
      rw [ht, h.staged _ h.idle_mem] at hstage
      cases hstage
  | insert hstage => exact h.insert hstage
  | enable => exact { h with }
  | kill hc => exact h.kill hc
  | exit _ _ => exact { h with }
  | sleep _ _ hidle => exact h.update_task (fun ht => absurd ht hidle) (fun hk => nomatch hk)
  | wake =>
      refine h.update_task (fun ht => ?_) (fun hk => nomatch hk)
      rw [ht, h.idle_running]
  | irqWait _ hidle => exact h.update_task (fun ht => absurd ht hidle) id
  | irqSignal =>
      refine h.update_task (fun ht => ?_) id
      rw [ht, h.idle_running]
  | schedule hsched => exact h.schedule (hok _ rfl) hsched
  | cleanup hcur => exact h.cleanup hcur

theorem Inv.run [DecidableEq P] {as : List (Action T P)} (h : Inv s)
    (hr : Run (Guarded Step CleanScans) s as s') : Inv s' :=
  Run.invariant (P := Inv) (fun _ _ _ hi hst => hi.step hst.1 hst.2) h hr

end Steps

end Sched

end UlmerOS
