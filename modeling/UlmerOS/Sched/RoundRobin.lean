import UlmerOS.Sched.SchedScan
import Mathlib.Data.List.Rotate

/-!
# Round robin

Calls of `get_next_task` of `sched.c`, one after the other, while nothing else happens.  The
list is rotated before the task is tested, and on past each task that is not schedulable.

A call takes the first of the schedulable tasks, and among these it is rotated by one, however
far the list was rotated.  So the calls go round the schedulable tasks in their order.
-/

namespace UlmerOS

namespace Sched

variable {T P : Type} [DecidableEq T]

/-- Calls of `get_next_task`: the tasks they return, and the state after them. -/
def getNextTasks (fuel : Nat) : Nat → State T P → Outcome (List T × State T P)
  | 0, s => .ret ([], s)
  | n + 1, s =>
      getNextTask fuel s >>= fun (next, s) =>
        getNextTasks fuel n s >>= fun (rest, s) => .ret (next :: rest, s)

/-- The schedulable tasks, in the order of the list. -/
def State.schedulable (s : State T P) : List T := s.schedTasks.filter s.ready

/-- What calls do: they rotate the list, they return the schedulable tasks in turn, and as many
of them as there are schedulable tasks return each of these once. -/
structure RoundRobin (s : State T P) (n : Nat) (tasks : List T) (s' : State T P) : Prop where
  rotates : ∃ m, s' = { s with schedTasks := s.schedTasks.rotate m }
  length : tasks.length = n
  cyclic : ∀ i < n, tasks[i]? = s.schedulable[i % s.schedulable.length]?
  window : ∀ j, j + s.schedulable.length ≤ n →
    ((tasks.drop j).take s.schedulable.length).Perm s.schedulable
  once : s.schedTasks.Nodup → ∀ j, j + s.schedulable.length ≤ n →
    ∀ t ∈ s.schedTasks, s.ready t = true →
      ((tasks.drop j).take s.schedulable.length).count t = 1

/-! ## One call -/

/-- A call takes the first schedulable task and rotates the list past it. -/
theorem getNextTask_first {s : State T P} (hnot : ∀ t ∈ s.schedTasks, s.doomed t = false)
    (hready : ∃ t ∈ s.schedTasks, s.ready t = true) {fuel : Nat}
    (hfuel : s.schedTasks.length ≤ fuel) :
    ∃ next rest m, s.schedulable = next :: rest ∧
      getNextTask fuel s = .ret (next, { s with schedTasks := s.schedTasks.rotate m }) ∧
      (s.schedTasks.rotate m).filter s.ready = rest ++ [next] := by
  obtain ⟨next, hfind⟩ := Option.isSome_iff_exists.mp (List.find?_isSome.mpr hready)
  obtain ⟨hnext, pre, post, hlist, hpre⟩ := List.find?_eq_some_iff_append.mp hfind
  have hskip : ∀ t ∈ pre, s.ready t = false ∧ s.doomed t = false := fun t ht =>
    ⟨by simpa using hpre t ht, hnot t (hlist ▸ List.mem_append_left _ ht)⟩
  have hnone : pre.filter s.ready = [] := List.filter_eq_nil_iff.mpr fun t ht => by
    simp [(hskip t ht).1]
  have hlong : pre.length < fuel := by
    rw [hlist, List.length_append, List.length_cons] at hfuel
    omega
  have hrotate : s.schedTasks.rotate (pre ++ [next]).length = post ++ pre ++ [next] := by
    rw [hlist, List.append_cons, List.rotate_append_length_eq, List.append_assoc]
  refine ⟨next, post.filter s.ready, (pre ++ [next]).length, ?_, ?_, ?_⟩
  · rw [State.schedulable, hlist, List.filter_append, hnone, List.nil_append,
      List.filter_cons_of_pos hnext]
  · rw [getNextTask_clean hlist hskip hnext, if_neg (Nat.not_le.mpr hlong), hrotate]
  · rw [hrotate, List.filter_append, List.filter_append, hnone, List.append_nil,
      List.filter_cons_of_pos hnext, List.filter_nil]

/-! ## Calls in turn -/

omit [DecidableEq T] in
/-- The next element of a list that is gone through in turn. -/
theorem getElem?_turn {next : T} {rest : List T} (i : Nat) :
    (rest ++ [next])[i % (rest ++ [next]).length]? =
      (next :: rest)[(i + 1) % (next :: rest).length]? := by
  have hpos : 0 < (next :: rest).length := Nat.succ_pos _
  have hlength : (rest ++ [next]).length = (next :: rest).length := by simp
  have hturn : rest ++ [next] = (next :: rest).rotate 1 := by simp
  rw [hlength, hturn, List.getElem?_rotate (Nat.mod_lt i hpos), Nat.mod_add_mod]

/-- The calls rotate the list, and return the schedulable tasks in turn. -/
theorem getNextTasks_cyclic {s : State T P} (hnot : ∀ t ∈ s.schedTasks, s.doomed t = false)
    (hready : ∃ t ∈ s.schedTasks, s.ready t = true) {fuel : Nat}
    (hfuel : s.schedTasks.length ≤ fuel) (n : Nat) :
    ∃ tasks m, getNextTasks fuel n s =
        .ret (tasks, { s with schedTasks := s.schedTasks.rotate m }) ∧
      tasks.length = n ∧ ∀ i < n, tasks[i]? = s.schedulable[i % s.schedulable.length]? := by
  induction n generalizing s with
  | zero => exact ⟨[], 0, by simp [getNextTasks], rfl, fun i hi => absurd hi (Nat.not_lt_zero i)⟩
  | succ n ih =>
      obtain ⟨next, rest, m, hfirst, hcall, hturn⟩ := getNextTask_first hnot hready hfuel
      obtain ⟨r, hr, hrready⟩ := hready
      obtain ⟨tasks, m', hcalls, hlength, hcyclic⟩ :=
        ih (s := { s with schedTasks := s.schedTasks.rotate m })
          (fun t ht => hnot t (List.mem_rotate.mp ht)) ⟨r, List.mem_rotate.mpr hr, hrready⟩
          (by rwa [List.length_rotate])
      refine ⟨next :: tasks, m + m', ?_, congrArg (· + 1) hlength, fun i hi => ?_⟩
      · rw [getNextTasks, hcall, Outcome.ret_bind]
        dsimp only
        rw [hcalls, Outcome.ret_bind, List.rotate_rotate]
      · cases i with
        | zero => rw [hfirst, Nat.zero_mod]; rfl
        | succ i =>
            have hrest : ({ s with schedTasks := s.schedTasks.rotate m } : State T P).schedulable =
                rest ++ [next] := hturn
            rw [List.getElem?_cons_succ, hcyclic i (Nat.lt_of_succ_lt_succ hi), hrest, hfirst]
            exact getElem?_turn i

omit [DecidableEq T] in
/-- As many in turn as there are elements are the list, from another one on. -/
theorem window_eq_rotate {l tasks : List T} {n j : Nat}
    (hcyclic : ∀ i < n, tasks[i]? = l[i % l.length]?) (hj : j + l.length ≤ n) :
    (tasks.drop j).take l.length = l.rotate j := by
  refine List.ext_getElem? fun i => ?_
  rcases Nat.lt_or_ge i l.length with hi | hi
  · rw [List.getElem?_take_of_lt hi, List.getElem?_drop, hcyclic _ (by omega),
      List.getElem?_rotate hi, Nat.add_comm]
  · rw [List.getElem?_eq_none (by rw [List.length_take]; omega),
      List.getElem?_eq_none (by rwa [List.length_rotate])]

/-- **Round robin.**  While no task is killed and one is schedulable, every number of calls of
`get_next_task` returns, rotates the list, and goes round the schedulable tasks in their
order. -/
theorem get_next_task_round_robin {s : State T P}
    (hnot : ∀ t ∈ s.schedTasks, s.doomed t = false)
    (hready : ∃ t ∈ s.schedTasks, s.ready t = true) {fuel : Nat}
    (hfuel : s.schedTasks.length ≤ fuel) (n : Nat) :
    ∃ tasks s', getNextTasks fuel n s = .ret (tasks, s') ∧ RoundRobin s n tasks s' := by
  obtain ⟨tasks, m, hcalls, hlength, hcyclic⟩ := getNextTasks_cyclic hnot hready hfuel n
  have hwindow : ∀ j, j + s.schedulable.length ≤ n →
      ((tasks.drop j).take s.schedulable.length).Perm s.schedulable := fun j hj =>
    (window_eq_rotate hcyclic hj) ▸ List.rotate_perm _ j
  refine ⟨tasks, _, hcalls, ⟨m, rfl⟩, hlength, hcyclic, hwindow, fun hnodup j hj t ht hr => ?_⟩
  rw [(hwindow j hj).count_eq t]
  exact List.count_eq_one_of_mem (hnodup.filter _) (List.mem_filter.mpr ⟨ht, hr⟩)

/-- The cleanup task and the idle task, with a task that waits for an interrupt and one that
sleeps between them. -/
def twoWaiting : State Nat Nat :=
  { State.init 0 1 with
    tasks := fun t =>
      if t = 2 then ⟨.running, true, none⟩
      else if t = 3 then ⟨.sleeping, false, none⟩
      else ⟨.running, false, none⟩
    schedTasks := [1, 2, 3, 0] }

/-- Five calls go round the two that can run. -/
theorem get_next_task_round_robin_two_waiting : ∃ tasks s',
    getNextTasks 4 5 twoWaiting = .ret (tasks, s') ∧ RoundRobin twoWaiting 5 tasks s' ∧
      tasks = [1, 0, 1, 0, 1] := by
  have hfuel : twoWaiting.schedTasks.length ≤ 4 := by decide
  obtain ⟨tasks, s', hcalls, hround⟩ :=
    get_next_task_round_robin (s := twoWaiting) (by decide) (by decide) hfuel 5
  have hschedulable : twoWaiting.schedulable = [1, 0] := by decide
  have hturn : ∀ i < 5, ([1, 0] : List Nat)[i % 2]? = ([1, 0, 1, 0, 1] : List Nat)[i]? := by
    decide
  refine ⟨tasks, s', hcalls, hround, List.ext_getElem? fun i => ?_⟩
  rcases Nat.lt_or_ge i 5 with hi | hi
  · rw [hround.cyclic i hi, hschedulable]
    exact hturn i hi
  · rw [List.getElem?_eq_none (by rw [hround.length]; exact hi)]
    exact (List.getElem?_eq_none hi).symm

end Sched

end UlmerOS
