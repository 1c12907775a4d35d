import UlmerOS.Sched.Sched
import Mathlib.Data.List.Nodup
import Mathlib.Data.List.TakeWhile
import Mathlib.Data.List.Perm.Basic

/-!
# One scan of the scheduler's list

`get_next_task` takes the head of `sched_tasks`, rotates the list and asks
`task_schedulable`, until a task is.  When it meets a killed task,
`task_schedulable` removes `current_task` from the list, whichever task it was
asked about.

A scan that meets no killed task before the first schedulable one only rotates
the list (`getNextTask_clean`).  Whatever a scan does, it neither brings a
missing task back nor touches it (`getNextTask_frame`).
-/

namespace UlmerOS

namespace Sched

variable {T P : Type} [DecidableEq T]

/-! ## Removing from the list -/

theorem listItRemove_listFind {l : List T} {c : T} (h : c ∈ l) :
    listItRemove l (listFind l (some c)) = .ret (l.erase c) := by
  have key : ∃ i, listFind l (some c) = some i ∧ l.eraseIdx i = l.erase c := by
    induction l with
    | nil => cases h
    | cons t l ih =>
        by_cases ht : t = c
        · subst ht
          exact ⟨0, by simp [listFind, List.findIdx?_cons], by simp⟩
        · have hc : c ∈ l := (List.mem_cons.mp h).resolve_left (fun he => ht he.symm)
          obtain ⟨i, hi, he⟩ := ih hc
          refine ⟨i + 1, ?_, ?_⟩
          · have hne : (some t == some c) = false := by simpa using ht
            rw [listFind] at hi ⊢
            rw [List.findIdx?_cons, hne, hi]
            rfl
          · rw [List.eraseIdx_cons_succ, he, List.erase_cons_tail (by simpa using ht)]
  obtain ⟨i, hi, he⟩ := key
  rw [hi, listItRemove, he]

theorem listFind_of_not_mem {l : List T} {c : T} (h : c ∉ l) : listFind l (some c) = none := by
  rw [listFind, List.findIdx?_eq_none_iff]
  intro t ht
  simp only [beq_eq_false_iff_ne, ne_eq, Option.some.injEq]
  intro he
  exact h (he ▸ ht)

theorem listFind_none (l : List T) : listFind l none = none := by
  rw [listFind, List.findIdx?_eq_none_iff]
  intro t _
  rfl

/-- Removing the current task succeeds when it is in the list. -/
theorem State.removeCurrent_of_mem {s : State T P} {c : T} (hc : s.current = some c)
    (h : c ∈ s.schedTasks) :
    s.removeCurrent = .ret { s with schedTasks := s.schedTasks.erase c } := by
  rw [State.removeCurrent, hc, listItRemove_listFind h]
  rfl

/-- It dereferences `NULL` when the current task is not in the list. -/
theorem State.removeCurrent_of_not_mem {s : State T P}
    (h : ∀ c, s.current = some c → c ∉ s.schedTasks) : s.removeCurrent = .fault := by
  rw [State.removeCurrent]
  cases hc : s.current with
  | none => rw [listFind_none]; rfl
  | some c => rw [listFind_of_not_mem (h c hc)]; rfl

theorem State.removeCurrent_eq_ret {s s' : State T P} (h : s.removeCurrent = .ret s') :
    ∃ c, s.current = some c ∧ c ∈ s.schedTasks ∧
      s' = { s with schedTasks := s.schedTasks.erase c } := by
  by_cases hmem : ∃ c, s.current = some c ∧ c ∈ s.schedTasks
  · obtain ⟨c, hc, hm⟩ := hmem
    rw [State.removeCurrent_of_mem hc hm] at h
    exact ⟨c, hc, hm, (Outcome.ret.inj h).symm⟩
  · rw [State.removeCurrent_of_not_mem (fun c hc hm => hmem ⟨c, hc, hm⟩)] at h
    cases h

/-! ## Killed and schedulable tasks -/

/-- The task is killed, or its process is. -/
def State.doomed (s : State T P) (t : T) : Bool :=
  s.procKilled t || (s.tasks t).state == .killed

/-- The task can be switched to. -/
def State.ready (s : State T P) (t : T) : Bool :=
  !s.doomed t && !(s.tasks t).irqWait && (s.tasks t).state == .running

/-- The tasks a scan meets before the first schedulable one. -/
def State.scanned (s : State T P) : List T :=
  s.schedTasks.takeWhile (fun t => !s.ready t)

/-- No killed task stands in front of the first schedulable one. -/
def ScanClean (s : State T P) : Prop := ∀ t ∈ s.scanned, s.doomed t = false

instance (s : State T P) : Decidable (ScanClean s) :=
  inferInstanceAs (Decidable (∀ t ∈ s.scanned, s.doomed t = false))

omit [DecidableEq T] in
theorem State.not_doomed_of_ready {s : State T P} {t : T} (h : s.ready t = true) :
    s.doomed t = false := by
  simp only [State.ready, Bool.and_eq_true, Bool.not_eq_true'] at h
  exact h.1.1

omit [DecidableEq T] in
theorem State.not_killed_of_not_doomed {s : State T P} {t : T} (h : s.doomed t = false) :
    s.procKilled t = false ∧ (s.tasks t).state ≠ .killed := by
  simpa [State.doomed] using h

omit [DecidableEq T] in
theorem ScanClean.scanned {s : State T P} (h : ScanClean s) :
    ∀ t ∈ s.scanned, s.ready t = false ∧ s.doomed t = false := by
  intro t ht
  refine ⟨?_, h t ht⟩
  simpa using List.mem_takeWhile_imp ht

omit [DecidableEq T] in
/-- Without a schedulable task a scan meets them all. -/
theorem State.scanned_eq {s : State T P} (h : ¬ ∃ t ∈ s.schedTasks, s.ready t = true) :
    s.scanned = s.schedTasks := by
  rw [State.scanned, List.takeWhile_eq_self_iff]
  intro t ht
  by_contra hr
  exact h ⟨t, ht, by simpa using hr⟩

omit [DecidableEq T] in
/-- A scan rotates the list up to a task. -/
theorem State.rotated_perm {s : State T P} {pre post : List T} {d : T}
    (hlist : s.schedTasks = pre ++ d :: post) : (post ++ pre ++ [d]).Perm s.schedTasks := by
  rw [hlist, List.append_assoc]
  exact List.perm_append_comm.trans (by simp)

/-! ## Any way of removing the current task -/

section

variable (remove : State T P → Outcome (State T P))

/-- `task_schedulable`, with its call of `list_it_remove` left open. -/
def taskSchedulableWith (s : State T P) (t : T) : Outcome (Bool × State T P) :=
  let s := s.killWithProcess t
  (if (s.tasks t).state = .killed then remove s else .ret s) >>= fun s =>
    .ret (if (s.tasks t).irqWait then false else (s.tasks t).state == .running, s)

/-- `get_next_task` with that. -/
def getNextTaskWith : Nat → State T P → Outcome (T × State T P)
  | 0, _ => .hang
  | fuel + 1, s =>
      match s.schedTasks with
      | [] => .panic "no schedulable task"
      | next :: _ =>
          taskSchedulableWith remove { s with schedTasks := listRotate s.schedTasks } next >>=
            fun (ok, s') => if ok then .ret (next, s') else getNextTaskWith fuel s'

end

theorem getNextTask_eq (fuel : Nat) (s : State T P) :
    getNextTask fuel s = getNextTaskWith State.removeCurrent fuel s := by
  induction fuel generalizing s with
  | zero => rfl
  | succ fuel ih =>
      rw [getNextTask, getNextTaskWith]
      cases s.schedTasks with
      | nil => rfl
      | cons next l =>
          simp only [ih]
          rfl

variable {remove : State T P → Outcome (State T P)}

/-- Asked about a task that is not killed, `task_schedulable` changes nothing. -/
theorem taskSchedulableWith_of_not_doomed {s : State T P} {t : T} (h : s.doomed t = false) :
    taskSchedulableWith remove s t = .ret (s.ready t, s) := by
  obtain ⟨hp, hk⟩ := State.not_killed_of_not_doomed h
  have hs : s.killWithProcess t = s := by rw [State.killWithProcess, hp]; rfl
  rw [taskSchedulableWith, hs]
  rw [if_neg hk, Outcome.ret_bind, State.ready, h]
  cases (s.tasks t).irqWait <;> simp

/-! ## A clean scan -/

/-- One round of the loop. -/
theorem getNextTaskWith_cons {fuel : Nat} {s : State T P} {t : T} {l : List T}
    (hlist : s.schedTasks = t :: l) :
    getNextTaskWith remove (fuel + 1) s =
      taskSchedulableWith remove { s with schedTasks := l ++ [t] } t >>= fun (ok, s') =>
        if ok then .ret (t, s') else getNextTaskWith remove fuel s' := by
  rw [getNextTaskWith, hlist]
  rfl

theorem getNextTask_cons {fuel : Nat} {s : State T P} {t : T} {l : List T}
    (hlist : s.schedTasks = t :: l) :
    getNextTask (fuel + 1) s =
      taskSchedulable { s with schedTasks := l ++ [t] } t >>= fun (ok, s') =>
        if ok then .ret (t, s') else getNextTask fuel s' := by
  rw [getNextTask, hlist]
  rfl

/-- The tasks in front of the first schedulable one are rotated away one by one. -/
theorem getNextTaskWith_clean {s : State T P} {pre post : List T} {next : T}
    (hlist : s.schedTasks = pre ++ next :: post)
    (hpre : ∀ t ∈ pre, s.ready t = false ∧ s.doomed t = false) (hnext : s.ready next = true)
    (fuel : Nat) :
    getNextTaskWith remove fuel s =
      if fuel ≤ pre.length then .hang
      else .ret (next, { s with schedTasks := post ++ pre ++ [next] }) := by
  induction pre generalizing s fuel post with
  | nil =>
      cases fuel with
      | zero => rfl
      | succ fuel =>
          have hd : ({ s with schedTasks := post ++ [next] } : State T P).doomed next = false :=
            State.not_doomed_of_ready hnext
          rw [getNextTaskWith_cons hlist, taskSchedulableWith_of_not_doomed hd]
          have hr : ({ s with schedTasks := post ++ [next] } : State T P).ready next = true := hnext
          simp [hr]
  | cons t pre ih =>
      cases fuel with
      | zero => rfl
      | succ fuel =>
          obtain ⟨hr, hd⟩ := hpre t (List.mem_cons_self ..)
          have hlist' : s.schedTasks = t :: (pre ++ next :: post) := hlist
          have hd' : ({ s with schedTasks := pre ++ next :: post ++ [t] } : State T P).doomed t
              = false := hd
          rw [getNextTaskWith_cons hlist', taskSchedulableWith_of_not_doomed hd', Outcome.ret_bind]
          have hr' : ({ s with schedTasks := pre ++ next :: post ++ [t] } : State T P).ready t
              = false := hr
          dsimp only
          have hrot : ({ s with schedTasks := pre ++ next :: post ++ [t] } : State T P).schedTasks
              = pre ++ next :: (post ++ [t]) := by simp
          rw [hr', ih hrot
            (fun u hu => hpre u (List.mem_cons_of_mem _ hu)) hnext]
          simp

/-! ## A scan that meets a killed task -/

/-- Tasks that are neither schedulable nor killed are rotated away. -/
theorem getNextTaskWith_skip {s : State T P} {pre post : List T}
    (hlist : s.schedTasks = pre ++ post)
    (hpre : ∀ t ∈ pre, s.ready t = false ∧ s.doomed t = false) (fuel : Nat) :
    getNextTaskWith remove (pre.length + fuel) s =
      getNextTaskWith remove fuel { s with schedTasks := post ++ pre } := by
  induction pre generalizing s post with
  | nil => simp [← show s.schedTasks = post from hlist]
  | cons t pre ih =>
      obtain ⟨hr, hd⟩ := hpre t (List.mem_cons_self ..)
      have hlist' : s.schedTasks = t :: (pre ++ post) := hlist
      have hd' : ({ s with schedTasks := pre ++ post ++ [t] } : State T P).doomed t = false := hd
      have hr' : ({ s with schedTasks := pre ++ post ++ [t] } : State T P).ready t = false := hr
      rw [List.length_cons, Nat.add_right_comm, getNextTaskWith_cons hlist',
        taskSchedulableWith_of_not_doomed hd', hr', Outcome.ret_bind]
      dsimp only
      have hrot : ({ s with schedTasks := pre ++ post ++ [t] } : State T P).schedTasks
          = pre ++ (post ++ [t]) := by simp
      rw [if_neg Bool.false_ne_true, ih hrot (fun u hu => hpre u (List.mem_cons_of_mem _ hu))]
      simp

theorem State.killWithProcess_killed {s : State T P} {t : T} (h : s.doomed t = true) :
    ((s.killWithProcess t).tasks t).state = .killed := by
  unfold State.killWithProcess
  split
  · simp [State.setState]
  · rename_i hp
    simpa [State.doomed, hp] using h

/-- Asked about a killed task, `task_schedulable` removes the current one. -/
theorem taskSchedulableWith_of_doomed
    (hremove : ∀ s s' : State T P, remove s = .ret s' → s'.tasks = s.tasks) {s : State T P} {t : T}
    (h : s.doomed t = true) :
    taskSchedulableWith remove s t =
      remove (s.killWithProcess t) >>= fun s' => .ret (false, s') := by
  have hk := State.killWithProcess_killed h
  unfold taskSchedulableWith
  dsimp only
  rw [if_pos hk]
  cases hrem : remove (s.killWithProcess t) with
  | ret s' =>
      have htasks := hremove _ _ hrem
      have hnot : (s'.tasks t).state ≠ .running := by
        rw [htasks, hk]
        exact fun he => nomatch he
      simp [hnot]
  | _ => rfl

omit [DecidableEq T] in
/-- A scan that is not clean has a first killed task. -/
theorem exists_doomed {s : State T P} (hbad : ¬ ScanClean s) :
    ∃ pre d post, s.schedTasks = pre ++ d :: post ∧ s.doomed d = true ∧
      ∀ t ∈ pre, s.ready t = false ∧ s.doomed t = false := by
  have hex : ∃ d ∈ s.scanned, s.doomed d = true := by simpa [ScanClean] using hbad
  obtain ⟨d, hfind⟩ := Option.isSome_iff_exists.mp (List.find?_isSome.mpr hex)
  obtain ⟨hd, pre, mid, hsplit, hpre⟩ := List.find?_eq_some_iff_append.mp hfind
  have hall : s.scanned ++ s.schedTasks.dropWhile (fun t => !s.ready t) = s.schedTasks :=
    List.takeWhile_append_dropWhile
  refine ⟨pre, d, mid ++ s.schedTasks.dropWhile (fun t => !s.ready t), ?_, hd, fun t ht => ?_⟩
  · rw [hsplit, List.append_assoc, List.cons_append] at hall
    exact hall.symm
  · have htm : t ∈ s.scanned := by rw [hsplit]; exact List.mem_append_left _ ht
    exact ⟨by simpa using List.mem_takeWhile_imp htm, by simpa using hpre t ht⟩

/-- The scan up to the first killed task, and past it. -/
theorem getNextTaskWith_doomed
    (hremove : ∀ s s' : State T P, remove s = .ret s' → s'.tasks = s.tasks) {s : State T P}
    {pre post : List T} {d : T} (hlist : s.schedTasks = pre ++ d :: post)
    (hpre : ∀ t ∈ pre, s.ready t = false ∧ s.doomed t = false) (hd : s.doomed d = true)
    (fuel : Nat) :
    getNextTaskWith remove (pre.length + (fuel + 1)) s =
      remove (State.killWithProcess { s with schedTasks := post ++ pre ++ [d] } d) >>=
        getNextTaskWith remove fuel := by
  have hd' : ({ s with schedTasks := post ++ pre ++ [d] } : State T P).doomed d = true := hd
  have hcons : ({ s with schedTasks := d :: post ++ pre } : State T P).schedTasks
      = d :: (post ++ pre) := rfl
  have hround : getNextTaskWith remove (fuel + 1) _ = _ := getNextTaskWith_cons hcons
  rw [getNextTaskWith_skip hlist hpre, hround]
  have hsched := taskSchedulableWith_of_doomed hremove hd'
  generalize State.killWithProcess { s with schedTasks := post ++ pre ++ [d] } d = k at hsched ⊢
  rw [show taskSchedulableWith remove _ d = _ from hsched]
  cases remove k <;> rfl

/-- Both for the scheduler as it is. -/
theorem getNextTask_clean {s : State T P} {pre post : List T} {next : T}
    (hlist : s.schedTasks = pre ++ next :: post)
    (hpre : ∀ t ∈ pre, s.ready t = false ∧ s.doomed t = false) (hnext : s.ready next = true)
    (fuel : Nat) :
    getNextTask fuel s =
      if fuel ≤ pre.length then .hang
      else .ret (next, { s with schedTasks := post ++ pre ++ [next] }) := by
  rw [getNextTask_eq, getNextTaskWith_clean hlist hpre hnext]

theorem State.removeCurrent_tasks {s s' : State T P} (h : s.removeCurrent = .ret s') :
    s'.tasks = s.tasks := by
  obtain ⟨c, -, -, rfl⟩ := State.removeCurrent_eq_ret h
  rfl

theorem getNextTask_doomed {s : State T P} {pre post : List T} {d : T}
    (hlist : s.schedTasks = pre ++ d :: post)
    (hpre : ∀ t ∈ pre, s.ready t = false ∧ s.doomed t = false) (hd : s.doomed d = true)
    (fuel : Nat) :
    getNextTask (pre.length + (fuel + 1)) s =
      (State.killWithProcess { s with schedTasks := post ++ pre ++ [d] } d).removeCurrent >>=
        getNextTask fuel := by
  have hrest : getNextTask fuel = getNextTaskWith (T := T) (P := P) State.removeCurrent fuel :=
    funext (getNextTask_eq fuel)
  rw [hrest, getNextTask_eq,
    getNextTaskWith_doomed (fun _ _ => State.removeCurrent_tasks) hlist hpre hd]

/-! ## What any scan leaves alone -/

theorem State.killWithProcess_frame (s : State T P) (t : T) :
    (s.killWithProcess t).schedTasks = s.schedTasks ∧
      (∀ u, u ≠ t → (s.killWithProcess t).tasks u = s.tasks u) ∧
      (s.killWithProcess t).current = s.current := by
  unfold State.killWithProcess
  split
  · exact ⟨rfl, fun u hu => Function.update_of_ne hu .., rfl⟩
  · exact ⟨rfl, fun u _ => rfl, rfl⟩

/-- `task_schedulable` only removes from the list, and only stores to the task it
is asked about. -/
theorem taskSchedulable_frame {s s' : State T P} {t : T} {ok : Bool}
    (h : taskSchedulable s t = .ret (ok, s')) :
    s'.schedTasks.Sublist s.schedTasks ∧ (∀ u, u ≠ t → s'.tasks u = s.tasks u) ∧
      s'.current = s.current := by
  obtain ⟨s1, hs1, hret⟩ := Outcome.bind_eq_ret.mp h
  obtain ⟨-, rfl⟩ := Prod.mk.inj (Outcome.ret.inj hret)
  obtain ⟨hl, htasks, hcur⟩ := State.killWithProcess_frame s t
  split at hs1
  · obtain ⟨c, _, _, rfl⟩ := State.removeCurrent_eq_ret hs1
    refine ⟨?_, htasks, hcur⟩
    rw [← hl]
    exact List.erase_sublist
  · obtain rfl := Outcome.ret.inj hs1
    exact ⟨hl ▸ List.Sublist.refl _, htasks, hcur⟩

/-- A scan leaves a task that is not in the list alone, and picks another one. -/
theorem getNextTask_frame {fuel : Nat} {s s' : State T P} {next c : T}
    (h : getNextTask fuel s = .ret (next, s')) (hc : c ∉ s.schedTasks) :
    next ≠ c ∧ c ∉ s'.schedTasks ∧ s'.tasks c = s.tasks c ∧ s'.current = s.current := by
  induction fuel generalizing s with
  | zero => cases h
  | succ fuel ih =>
      cases hlist : s.schedTasks with
      | nil => rw [getNextTask, hlist] at h; cases h
      | cons t l =>
          rw [getNextTask_cons hlist] at h
          obtain ⟨⟨ok, s1⟩, hs1, hrest⟩ := Outcome.bind_eq_ret.mp h
          obtain ⟨hsub, htasks, hcur⟩ := taskSchedulable_frame hs1
          have ht : c ≠ t := by
            rintro rfl
            exact hc (hlist ▸ List.mem_cons_self ..)
          have hc1 : c ∉ s1.schedTasks := by
            intro hm
            have hm' : c ∈ l ++ [t] := hsub.subset hm
            refine hc (hlist ▸ ?_)
            rcases List.mem_append.mp hm' with hl | ht'
            · exact List.mem_cons_of_mem _ hl
            · exact absurd (List.mem_singleton.mp ht') ht
          dsimp only at hrest
          split at hrest
          · obtain ⟨rfl, rfl⟩ := Prod.mk.inj (Outcome.ret.inj hrest)
            exact ⟨ht.symm, hc1, htasks c ht, hcur⟩
          · obtain ⟨h1, h2, h3, h4⟩ := ih hrest hc1
            exact ⟨h1, h2, h3.trans (htasks c ht), h4.trans hcur⟩

end Sched

end UlmerOS
