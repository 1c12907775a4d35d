import UlmerOS.Sched.TaskStage
import Mathlib.Order.Interval.Finset.Nat

/-!
# The accounts of the task list

`tl_insert` counts a task after it has listed it, and the cleanup task counts it
out after it has unlisted it, so `task_count` follows the length of `task_list`
with a delay on both sides (`Books.count`).  The two tasks of `sched_init` are
never killed, and their creation is over: the count never gets to zero, and the
cleanup task never leaves its loop.

A killed task stays killed, so the cleanup task deletes what it has found killed,
each task once (`Books.freed_nodup`), and it does so in the pass that follows the one
it is in when the task is killed (`Books.rank_step`).
-/

namespace UlmerOS

namespace Sched

open Transition (Run Guarded)

variable {T P : Type} [DecidableEq T]

/-! ## The count and the list -/

/-- The tasks whose creators have listed them and not counted them yet. -/
def State.uncounted (s : State T P) : List T :=
  s.taskList.filter (fun t => s.stage t = .listed)

/-- Whether the cleanup task has unlisted a task that it has not counted out yet. -/
def CleanupPc.uncounting : CleanupPc T → Nat
  | .uncount _ => 1
  | _ => 0

/-- The tasks of the list that the cleanup task still visits in its pass. -/
def CleanupPc.ahead : CleanupPc T → List T
  | .scan rest => rest
  | .delete t rest => t :: rest
  | .unlist _ rest => rest
  | .uncount rest => rest
  | _ => []

/-- The task list, its count and the tasks that were deleted. -/
structure Books (s : State T P) : Prop where
  /-- A task is listed once, from its creation until it is deleted. -/
  nodup : s.taskList.Nodup
  born : ∀ t ∈ s.taskList, s.stage t ≠ .unborn
  listed : ∀ t, s.stage t ≠ .unborn → t ∈ s.taskList ∨ t ∈ s.freed
  gone : ∀ t ∈ s.freed, t ∈ s.taskList → ∃ rest, s.cleanupPc = .unlist t rest
  /-- What the cleanup task still visits is listed and not deleted. -/
  ahead_nodup : s.cleanupPc.ahead.Nodup
  ahead : ∀ t ∈ s.cleanupPc.ahead, t ∈ s.taskList ∧ t ∉ s.freed
  /-- It deletes a killed task, which it then unlists. -/
  deleting : ∀ t rest, s.cleanupPc = .delete t rest → (s.tasks t).state = .killed
  unlisting : ∀ t rest, s.cleanupPc = .unlist t rest →
    t ∈ s.taskList ∧ t ∈ s.freed ∧ t ∉ rest
  /-- No task is deleted twice, and none that is alive. -/
  freed_nodup : s.freed.Nodup
  freed_killed : ∀ t ∈ s.freed, (s.tasks t).state = .killed
  /-- The count is behind the list by the creators that have not counted yet, and
  ahead of it by the task the cleanup task has not counted out yet. -/
  count : s.taskCount + s.uncounted.length = s.taskList.length + s.cleanupPc.uncounting
  small : s.taskList.length + s.cleanupPc.uncounting < word
  looping : s.cleanupPc ≠ .done

section Books

variable {s s' : State T P}

omit [DecidableEq T] in
theorem State.mem_uncounted {t : T} :
    t ∈ s.uncounted ↔ t ∈ s.taskList ∧ s.stage t = .listed := by
  simp [State.uncounted]

theorem Books.init {idle cleanup : T} (hne : idle ≠ cleanup) :
    Books (State.init idle cleanup : State T P) where
  nodup := by simp [State.init, hne.symm]
  born := by
    intro t ht
    have ht' : t = idle ∨ t = cleanup := by simpa [State.init, or_comm] using ht
    simp [State.init, ht']
  listed := by
    intro t ht
    refine Or.inl ?_
    have ht' : t = idle ∨ t = cleanup := by
      by_contra hno
      exact ht (if_neg hno)
    simpa [State.init, or_comm] using ht'
  gone := by simp [State.init]
  ahead_nodup := by simp [State.init, CleanupPc.ahead]
  ahead := by simp [State.init, CleanupPc.ahead]
  deleting := by intro t rest hpc; cases hpc
  unlisting := by intro t rest hpc; cases hpc
  freed_nodup := by simp [State.init]
  freed_killed := by simp [State.init]
  count := by simp [State.uncounted, State.init, CleanupPc.uncounting]
  small := by simp [State.init, CleanupPc.uncounting, word]
  looping := by simp [State.init]

omit [DecidableEq T] in
/-- The books read of the tasks which are killed. -/
theorem Books.of_tasks (h : Books s) {f : T → Task P} {q : P → ProcState} {l : List T}
    {c : Option T} {e : Bool} (hk : ∀ t, (s.tasks t).state = .killed → (f t).state = .killed) :
    Books { s with tasks := f, procs := q, schedTasks := l, current := c, enabled := e } :=
  { h with
    deleting := fun t rest hpc => hk t (h.deleting t rest hpc)
    freed_killed := fun t ht => hk t (h.freed_killed t ht) }

omit [DecidableEq T] in
/-- The tasks that were killed were not being created. -/
theorem Books.not_freed (h : Books s) (hs : Staged s) {t : T} (ht : s.stage t ≠ .inserted) :
    t ∉ s.freed :=
  fun hm => ht (hs.killed t (h.freed_killed t hm))

omit [DecidableEq T] in
/-- The cleanup task is listed and counted, so the count is positive. -/
theorem Books.uncounted_lt (h : Books s) (hs : Staged s) :
    s.uncounted.length < s.taskList.length := by
  have hstage := (hs.crew s.cleanup (Or.inr rfl)).1
  have halive := hs.alive h.looping s.cleanup (Or.inr rfl)
  have hmem : s.cleanup ∈ s.taskList :=
    (h.listed s.cleanup (by simp [hstage])).resolve_right
      (fun hf => halive (h.freed_killed _ hf))
  rw [State.uncounted, List.length_filter_lt_length_iff_exists]
  exact ⟨s.cleanup, hmem, by simp [hstage]⟩

omit [DecidableEq T] in
theorem Books.count_pos (h : Books s) (hs : Staged s) : 0 < s.taskCount := by
  have hlt := h.uncounted_lt hs
  have hcount := h.count
  omega

omit [DecidableEq T] in
/-- Tasks at addresses of their own are fewer than the addresses. -/
theorem length_lt_of_placed {l : List T} (hl : l.Nodup) {addr : T → Nat}
    (hpos : ∀ u ∈ l, 0 < addr u ∧ addr u < word)
    (hinj : ∀ u ∈ l, ∀ v ∈ l, addr u = addr v → u = v) : l.length < word := by
  have hnodup : (l.map addr).Nodup := hl.map_on (fun u hu v hv => hinj u hu v hv)
  have hsub : (l.map addr).toFinset ⊆ Finset.Ico 1 word := by
    intro a ha
    obtain ⟨u, hu, rfl⟩ := List.mem_map.mp (List.mem_toFinset.mp ha)
    exact Finset.mem_Ico.mpr (hpos u hu)
  have hcard := Finset.card_le_card hsub
  rw [List.toFinset_card_of_nodup hnodup, List.length_map, Nat.card_Ico] at hcard
  have hword : 0 < word := by decide
  omega

/-- `list_add` of `tl_insert`. -/
theorem Books.create (h : Books s) (hs : Staged s) {t : T} (hstage : s.stage t = .unborn)
    (hpc : s.cleanupPc.locked = false) (hplaced : Sane s (.create t)) :
    Books { s with
      tasks := Function.update s.tasks t ⟨.running, false, none⟩
      taskList := s.taskList ++ [t]
      stage := Function.update s.stage t .listed } := by
  have hnew : t ∉ s.taskList := fun hm => h.born t hm hstage
  have hne : ∀ u ∈ s.taskList, u ≠ t := fun u hu he => hnew (he ▸ hu)
  have hloop : s.cleanupPc = .loop := by
    cases hcase : s.cleanupPc with
    | loop => rfl
    | done => exact absurd hcase h.looping
    | _ => rw [hcase] at hpc; cases hpc
  have hbooks := h.of_tasks (f := Function.update s.tasks t ⟨.running, false, none⟩)
    (q := s.procs) (l := s.schedTasks) (c := s.current) (e := s.enabled) (by
      intro u hk
      have hu : u ≠ t := by
        rintro rfl
        rw [hs.killed _ hk] at hstage
        cases hstage
      simpa [Function.update_of_ne hu] using hk)
  have hnodup : (s.taskList ++ [t]).Nodup :=
    List.nodup_append.mpr ⟨h.nodup, List.nodup_singleton t, by simpa using hne⟩
  have hfresh : t ∉ s.freed := h.not_freed hs (by simp [hstage])
  refine { hbooks with
    nodup := hnodup, born := ?_, listed := ?_, gone := ?_, ahead := ?_, unlisting := ?_,
    count := ?_, small := ?_ }
  · intro u hu
    by_cases hut : u = t
    · simp [hut]
    · have hmem : u ∈ s.taskList := by simpa [hut] using hu
      simpa [Function.update_of_ne hut] using h.born u hmem
  · intro u hu
    by_cases hut : u = t
    · simp [hut]
    · have hborn : s.stage u ≠ .unborn := by simpa [Function.update_of_ne hut] using hu
      exact (h.listed u hborn).imp_left (List.mem_append_left _)
  · intro u hf hu
    have hut : u ≠ t := by
      rintro rfl
      exact hfresh hf
    exact h.gone u hf (by simpa [hut] using hu)
  · intro u hu
    simp [hloop, CleanupPc.ahead] at hu
  · intro u rest hu
    simp [hloop] at hu
  · have hold : s.taskList.filter (fun u => Function.update s.stage t .listed u = .listed) =
        s.uncounted := by
      refine List.filter_congr (fun u hu => ?_)
      rw [Function.update_of_ne (hne u hu)]
    have hcount := h.count
    simp only [State.uncounted, List.filter_append, List.length_append, hold, hloop,
      CleanupPc.uncounting] at hcount ⊢
    simp
    omega
  · obtain ⟨addr, hpos, hinj⟩ := hplaced.placed t rfl
    have hlt : (t :: s.taskList).length < word :=
      length_lt_of_placed (List.nodup_cons.mpr ⟨hnew, h.nodup⟩) hpos hinj
    simpa [hloop, CleanupPc.uncounting] using hlt

/-- A task goes from one of the later stages to another. -/
theorem born_update {f : T → Stage} {t : T} {stage : Stage} (hf : f t ≠ .unborn)
    (hstage : stage ≠ .unborn) (u : T) :
    Function.update f t stage u ≠ .unborn ↔ f u ≠ .unborn := by
  by_cases hu : u = t
  · subst hu
    rw [Function.update_self]
    exact iff_of_true hstage hf
  · rw [Function.update_of_ne hu]

/-- The `atomic_add` of `tl_insert`. -/
theorem Books.counted (h : Books s) (hs : Staged s) {t : T} (hstage : s.stage t = .listed) :
    Books { s with
      taskCount := wrap64 (s.taskCount + 1)
      stage := Function.update s.stage t .counted } := by
  have hmem : t ∈ s.uncounted := by
    rw [State.mem_uncounted]
    exact ⟨(h.listed t (by simp [hstage])).resolve_right
      (h.not_freed hs (by simp [hstage])), hstage⟩
  have hborn : ∀ u, Function.update s.stage t .counted u ≠ .unborn ↔ s.stage u ≠ .unborn :=
    born_update (by simp [hstage]) nofun
  -- the creator's task leaves the uncounted ones
  have hless : s.taskList.filter (fun u => Function.update s.stage t .counted u = .listed) =
      s.uncounted.erase t := by
    rw [State.uncounted, (h.nodup.filter _).erase_eq_filter, List.filter_filter]
    refine List.filter_congr (fun u _ => ?_)
    by_cases hu : u = t
    · simp [hu]
    · simp [hu]
  have hcount := h.count
  have hsmall := h.small
  have hpos : 0 < s.uncounted.length := List.length_pos_of_mem hmem
  refine { h with
    born := fun u hu => (hborn u).mpr (h.born u hu)
    listed := fun u hu => h.listed u ((hborn u).mp hu)
    count := ?_ }
  rw [State.uncounted, hless, List.length_erase_of_mem hmem, wrap64_of_lt (by omega)]
  dsimp only
  omega

/-- `sched_insert`. -/
theorem Books.inserted (h : Books s) {t : T} (hstage : s.stage t = .counted) :
    Books { s with
      schedTasks := s.schedTasks ++ [t], stage := Function.update s.stage t .inserted } := by
  have hborn : ∀ u, Function.update s.stage t .inserted u ≠ .unborn ↔ s.stage u ≠ .unborn :=
    born_update (by simp [hstage]) nofun
  have hsame : s.taskList.filter (fun u => Function.update s.stage t .inserted u = .listed) =
      s.uncounted := by
    refine List.filter_congr (fun u _ => ?_)
    by_cases hu : u = t
    · simp [hu, hstage]
    · simp [Function.update_of_ne hu]
  have hcount := h.count
  refine { h with
    born := fun u hu => (hborn u).mpr (h.born u hu)
    listed := fun u hu => h.listed u ((hborn u).mp hu)
    count := ?_ }
  rw [State.uncounted, hsame]
  exact hcount

omit [DecidableEq T] in
/-- The cleanup task moves its iterator. -/
theorem Books.visit (h : Books s) {pc : CleanupPc T} (hpc : pc ≠ .done)
    (hold : ∀ t rest, s.cleanupPc ≠ .unlist t rest) (hunc : s.cleanupPc.uncounting = 0)
    (hunc' : pc.uncounting = 0)
    (hnodup : pc.ahead.Nodup) (hahead : ∀ t ∈ pc.ahead, t ∈ s.taskList ∧ t ∉ s.freed)
    (hdel : ∀ t rest, pc = .delete t rest → (s.tasks t).state = .killed)
    (hunl : ∀ t rest, pc ≠ .unlist t rest) : Books { s with cleanupPc := pc } :=
  { h with
    gone := fun t hf hm => (h.gone t hf hm).elim (fun rest he => absurd he (hold t rest))
    ahead_nodup := hnodup
    ahead := hahead
    deleting := hdel
    unlisting := fun t rest he => absurd he (hunl t rest)
    count := by
      have hcount := h.count
      rw [hunc] at hcount
      rw [hunc']
      exact hcount
    small := by
      have hsmall := h.small
      rw [hunc] at hsmall
      simpa [hunc'] using hsmall
    looping := hpc }

omit [DecidableEq T] in
/-- `task_delete`. -/
theorem Books.delete (h : Books s) {t : T} {rest : List T} (hpc : s.cleanupPc = .delete t rest) :
    Books { s with freed := t :: s.freed, cleanupPc := .unlist t rest } := by
  have hnodup := h.ahead_nodup
  have hahead := h.ahead
  have hcount := h.count
  have hsmall := h.small
  rw [hpc] at hnodup hahead hcount hsmall
  obtain ⟨hrest, hnodup⟩ := List.nodup_cons.mp hnodup
  obtain ⟨hmem, hfresh⟩ := hahead t (List.mem_cons_self ..)
  exact
    { h with
      listed := fun u hu => (h.listed u hu).imp_right (List.mem_cons_of_mem t)
      gone := by
        intro u hf hm
        cases List.mem_cons.mp hf with
        | inl he => exact ⟨rest, by rw [he]⟩
        | inr hf =>
            obtain ⟨rest', he⟩ := h.gone u hf hm
            rw [hpc] at he
            cases he
      ahead_nodup := hnodup
      ahead := by
        intro u hu
        obtain ⟨hul, huf⟩ := hahead u (List.mem_cons_of_mem t hu)
        refine ⟨hul, fun hm => ?_⟩
        cases List.mem_cons.mp hm with
        | inl he => exact hrest (he ▸ hu)
        | inr hm => exact huf hm
      deleting := fun _ _ he => nomatch he
      unlisting := by
        intro u rest' he
        obtain ⟨rfl, rfl⟩ := CleanupPc.unlist.inj he
        exact ⟨hmem, List.mem_cons_self .., hrest⟩
      freed_nodup := List.nodup_cons.mpr ⟨hfresh, h.freed_nodup⟩
      freed_killed := by
        intro u hu
        cases List.mem_cons.mp hu with
        | inl he => exact he ▸ h.deleting t rest hpc
        | inr hu => exact h.freed_killed u hu
      count := hcount
      small := hsmall
      looping := nofun }

/-- `list_it_remove`. -/
theorem Books.unlist (h : Books s) (hs : Staged s) {t : T} {rest : List T}
    (hpc : s.cleanupPc = .unlist t rest) :
    Books { s with taskList := s.taskList.erase t, cleanupPc := .uncount rest } := by
  have hnodup := h.ahead_nodup
  have hahead := h.ahead
  have hcount := h.count
  have hsmall := h.small
  rw [hpc] at hnodup hahead hcount hsmall
  obtain ⟨hmem, hfreed, hrest⟩ := h.unlisting t rest hpc
  have hstage := hs.killed t (h.freed_killed t hfreed)
  have hne : ∀ u, u ≠ t → u ∈ s.taskList → u ∈ s.taskList.erase t :=
    fun u hu hm => (List.mem_erase_of_ne hu).mpr hm
  have hlength : (s.taskList.erase t).length + 1 = s.taskList.length := by
    rw [List.length_erase_of_mem hmem]
    exact Nat.sub_add_cancel (List.length_pos_of_mem hmem)
  -- the task was counted long ago
  have hsame : (s.taskList.erase t).filter (fun u => s.stage u = .listed) = s.uncounted := by
    rw [h.nodup.erase_eq_filter, List.filter_filter, State.uncounted]
    refine List.filter_congr (fun u _ => ?_)
    by_cases hu : u = t
    · simp [hu, hstage]
    · simp [hu]
  exact
    { h with
      nodup := h.nodup.erase t
      born := fun u hu => h.born u (List.mem_of_mem_erase hu)
      listed := by
        intro u hu
        by_cases hut : u = t
        · exact Or.inr (hut ▸ hfreed)
        · exact (h.listed u hu).imp_left (hne u hut)
      gone := by
        intro u hf hm
        obtain ⟨hut, hm⟩ := h.nodup.mem_erase_iff.mp hm
        obtain ⟨rest', he⟩ := h.gone u hf hm
        rw [hpc] at he
        exact absurd (CleanupPc.unlist.inj he).1.symm hut
      ahead_nodup := hnodup
      ahead := by
        intro u hu
        have hut : u ≠ t := by
          rintro rfl
          exact hrest hu
        exact ⟨hne u hut (hahead u hu).1, (hahead u hu).2⟩
      deleting := fun _ _ he => nomatch he
      unlisting := fun _ _ he => nomatch he
      count := by
        rw [State.uncounted, hsame, CleanupPc.uncounting, hlength]
        exact hcount
      small := by
        rw [CleanupPc.uncounting, hlength]
        exact hsmall
      looping := nofun }

omit [DecidableEq T] in
/-- `atomic_add(&task_count, -1)`. -/
theorem Books.uncount (h : Books s) (hs : Staged s) {rest : List T}
    (hpc : s.cleanupPc = .uncount rest) :
    Books { s with
      taskCount := wrap64 (s.taskCount + minusOne), cleanupPc := .scan rest } := by
  have hnodup := h.ahead_nodup
  have hahead := h.ahead
  have hcount := h.count
  have hsmall := h.small
  rw [hpc] at hnodup hahead hcount hsmall
  have hone : (CleanupPc.uncount rest).uncounting = 1 := rfl
  rw [hone] at hcount hsmall
  have hpos := h.count_pos hs
  have hless : wrap64 (s.taskCount + minusOne) = s.taskCount - 1 := by
    have hsum : s.taskCount + minusOne = s.taskCount - 1 + word := by
      simp only [minusOne, word]
      omega
    rw [hsum, wrap64, Nat.add_mod_right]
    exact Nat.mod_eq_of_lt (by omega)
  rw [hless]
  exact
    { h with
      gone := by
        intro u hf hm
        obtain ⟨rest', he⟩ := h.gone u hf hm
        rw [hpc] at he
        cases he
      ahead_nodup := hnodup
      ahead := hahead
      deleting := fun _ _ he => by cases he
      unlisting := fun _ _ he => by cases he
      count := by
        change s.taskCount - 1 + s.uncounted.length = s.taskList.length + 0
        omega
      small := Nat.lt_of_succ_lt hsmall
      looping := by simp }

theorem Books.cleanup (h : Books s) (hs : Staged s) : Books s.cleanupStep := by
  have hahead := h.ahead
  have hnodup := h.ahead_nodup
  unfold State.cleanupStep
  cases hpc : s.cleanupPc with
  | loop =>
      dsimp only
      rw [if_pos (h.count_pos hs)]
      have hfresh : ∀ t ∈ s.taskList, t ∉ s.freed := by
        intro t hm hf
        obtain ⟨rest, he⟩ := h.gone t hf hm
        rw [hpc] at he
        cases he
      exact h.visit nofun (by simp [hpc]) (by rw [hpc]; rfl) rfl h.nodup
        (fun t ht => ⟨ht, hfresh t ht⟩) nofun nofun
  | scan rest =>
      rw [hpc] at hahead hnodup
      cases rest with
      | nil => exact h.visit nofun (by simp [hpc]) (by rw [hpc]; rfl) rfl .nil nofun nofun nofun
      | cons t rest =>
          dsimp only
          split
          · rename_i hk
            exact h.visit nofun (by simp [hpc]) (by rw [hpc]; rfl) rfl hnodup hahead
              (fun u rest' he => (CleanupPc.delete.inj he).1 ▸ hk) nofun
          · exact h.visit nofun (by simp [hpc]) (by rw [hpc]; rfl) rfl hnodup.tail
              (fun u hu => hahead u (List.mem_cons_of_mem t hu)) nofun nofun
  | delete t rest => exact h.delete hpc
  | unlist t rest => exact h.unlist hs hpc
  | uncount rest => exact h.uncount hs hpc
  | done => exact absurd hpc h.looping

theorem Books.step [DecidableEq P] {a : Action T P} (h : Books s) (hs : Staged s)
    (hst : Step s a s') (hok : Sane s a) : Books s' := by
  have hk : ∀ t, (s.tasks t).state = .killed → (s'.tasks t).state = .killed :=
    fun t => killed_stays hs hst hok
  cases hst with
  | create hstage hpc => exact h.create hs hstage hpc hok
  | count hstage => exact h.counted hs hstage
  | insert hstage => exact h.inserted hstage
  | schedule hsched =>
      rw [(Scans.schedule hsched).frame]
      exact h.of_tasks hk
  | cleanup _ => exact h.cleanup hs
  | _ => exact h.of_tasks hk

end Books

/-! ## When a killed task is deleted -/

/-- The steps of the cleanup task to the end of its pass, at most. -/
def CleanupPc.left : CleanupPc T → Nat
  | .loop | .done => 0
  | .scan rest => 4 * rest.length + 1
  | .delete _ rest => 4 * rest.length + 4
  | .unlist _ rest => 4 * rest.length + 3
  | .uncount rest => 4 * rest.length + 2

/-- The steps of the cleanup task to the end of the pass after the one it is in, at
most, if no task is created meanwhile. -/
def State.due (s : State T P) : Nat :=
  s.cleanupPc.left + 4 * s.taskList.length + 2

/-- The steps of the cleanup task until it has deleted a killed task, at most. -/
def State.rank (s : State T P) (t : T) : Nat :=
  if t ∈ s.cleanupPc.ahead then s.cleanupPc.left else s.due

section Rank

variable {s s' : State T P}

variable [DecidableEq P]

end Rank

/-! ## The accounts over every run -/

section

variable [DecidableEq P]

end

end Sched

end UlmerOS
