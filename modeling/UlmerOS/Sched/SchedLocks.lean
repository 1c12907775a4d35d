import UlmerOS.Sched.SchedInv
import UlmerOS.Util.LinkedListRefine

/-!
# The locks that the scheduler takes

`schedule` runs in the context of an interrupt and must not block.  Its only way to a
lock is `list_it_remove`, which gives the item it took off to `kfree`.  That locks
`kheap_mutex`, and if the heap shrinks the lock of the kernel's address space and
`free_pages_lock` as well.

A mutex that is held when `mutex_lock` is called puts `current_task` to sleep.  Here
such a call ends as `blocked`.  Which mutexes are held, and what `kfree` locks after
the first, is left open.
-/

namespace UlmerOS

namespace Sched

open Transition (Run Guarded)

variable {T P : Type} [DecidableEq T]

/-- The mutexes that `kfree` may lock. -/
inductive Lock where
  /-- `kheap_mutex`. -/
  | kheap
  /-- The lock of the kernel's address space. -/
  | vspace
  /-- `free_pages_lock`. -/
  | freePages
deriving DecidableEq, Repr

/-- The calls of `mutex_lock` on these mutexes, one after the other. -/
def lockAll (held : Lock → Bool) : List Lock → Outcome Unit
  | [] => .ret ()
  | l :: ls => if held l then .blocked else lockAll held ls

/-- The locks of `kfree`: that of the heap, and then others. -/
def kfreeLocks (held : Lock → Bool) (others : List Lock) : Outcome Unit :=
  lockAll held (.kheap :: others)

/-- Remove `current_task` from `sched_tasks`, with the locks that this takes. -/
def State.removeLocking (held : Lock → Bool) (others : List Lock) (s : State T P) :
    Outcome (State T P) :=
  match listFind s.schedTasks s.current with
  | none => .fault
  | some i =>
      kfreeLocks held others >>= fun _ => .ret { s with schedTasks := s.schedTasks.eraseIdx i }

/-- `schedule`, with the locks that it takes. -/
def scheduleLocking (held : Lock → Bool) (others : List Lock) (fuel : Nat) (s : State T P) :
    Outcome (State T P) :=
  if !s.enabled then .ret s else
    getNextTaskWith (State.removeLocking held others) fuel s >>= fun (next, s) =>
      if s.current = some next then .ret s else
        (match s.current with
          | none => .ret s
          | some c =>
              if (s.tasks c).state = .killed then s.removeLocking held others else .ret s) >>=
          fun s => .ret { s with current := some next }

/-! ## With and without locks -/

section

variable {held : Lock → Bool} {others : List Lock}

/-- Taking locks returns, or one of them is held. -/
theorem lockAll_cases (held : Lock → Bool) (ls : List Lock) :
    lockAll held ls = .ret () ∨ lockAll held ls = .blocked := by
  induction ls with
  | nil => exact .inl rfl
  | cons l ls ih =>
      rw [lockAll]
      split
      · exact .inr rfl
      · exact ih

/-- The removal is the one without locks, or it blocks. -/
theorem State.removeLocking_cases (s : State T P) :
    s.removeLocking held others = s.removeCurrent ∨
      s.removeLocking held others = .blocked := by
  rw [removeLocking, removeCurrent]
  cases listFind s.schedTasks s.current with
  | none => exact .inl rfl
  | some i =>
      rcases lockAll_cases held (.kheap :: others) with h | h
      · exact .inl (by rw [kfreeLocks, h]; rfl)
      · exact .inr (by rw [kfreeLocks, h]; rfl)

theorem State.removeLocking_tasks {s s' : State T P}
    (h : s.removeLocking held others = .ret s') : s'.tasks = s.tasks := by
  have hcases : s.removeLocking held others = s.removeCurrent ∨ _ := s.removeLocking_cases
  rcases hcases with he | he
  · rw [he] at h
    exact State.removeCurrent_tasks h
  · rw [he] at h
    cases h

/-- A current task that is in the list is taken off, and this needs the lock of the heap. -/
theorem State.removeLocking_blocked {s : State T P} {c : T} (hc : s.current = some c)
    (hmem : c ∈ s.schedTasks) (hheld : held .kheap = true) :
    s.removeLocking held others = .blocked := by
  rw [removeLocking, hc]
  cases hfind : listFind s.schedTasks (some c) with
  | none =>
      have hret := listItRemove_listFind hmem
      rw [hfind] at hret
      cases hret
  | some i =>
      simp only [kfreeLocks, lockAll, hheld, if_true]
      rfl

/-- One that is not in the list is a `NULL` iterator, and no lock is taken. -/
theorem State.removeLocking_fault {s : State T P}
    (h : ∀ c, s.current = some c → c ∉ s.schedTasks) : s.removeLocking held others = .fault := by
  rw [removeLocking]
  cases hc : s.current with
  | none => rw [listFind_none]
  | some c => rw [listFind_of_not_mem (h c hc)]

/-! ## Scans that take no lock -/

/-- The current task is not in the list, so that a killed task ends the scan with a fault. -/
theorem getNextTaskWith_absent (held : Lock → Bool) (others : List Lock) (fuel : Nat)
    {s : State T P} (habsent : ∀ c, s.current = some c → c ∉ s.schedTasks) :
    getNextTaskWith (State.removeLocking held others) fuel s ≠ .blocked ∧
      ∀ next s', getNextTaskWith (State.removeLocking held others) fuel s = .ret (next, s') →
        ∀ c, s'.current = some c → c ∉ s'.schedTasks := by
  induction fuel generalizing s with
  | zero => simp [getNextTaskWith]
  | succ fuel ih =>
      cases hlist : s.schedTasks with
      | nil =>
          simp [getNextTaskWith, hlist]
      | cons t l =>
          rw [getNextTaskWith_cons hlist]
          have habsent' : ∀ c, s.current = some c → c ∉ l ++ [t] := by
            intro c hc hmem
            refine habsent c hc ?_
            rw [hlist]
            exact List.perm_append_singleton t l |>.mem_iff.mp hmem
          by_cases hd : s.doomed t = true
          · have hd' : ({ s with schedTasks := l ++ [t] } : State T P).doomed t = true := hd
            obtain ⟨hsame, -, hcur⟩ :=
              State.killWithProcess_frame ({ s with schedTasks := l ++ [t] } : State T P) t
            rw [taskSchedulableWith_of_doomed (fun _ _ => State.removeLocking_tasks) hd',
              State.removeLocking_fault (by rw [hsame, hcur]; exact habsent')]
            exact ⟨fun hret => (by cases hret), fun _ _ hret => (by cases hret)⟩
          · have hd0 : s.doomed t = false := by simpa using hd
            have hd' : ({ s with schedTasks := l ++ [t] } : State T P).doomed t = false := hd0
            rw [taskSchedulableWith_of_not_doomed hd', Outcome.ret_bind]
            dsimp only
            split
            · refine ⟨by simp, fun next s' hret => ?_⟩
              cases hret
              exact habsent'
            · exact ih habsent'

/-- No task of the list is schedulable or killed, so that the scan does not end. -/
theorem getNextTaskWith_idle (held : Lock → Bool) (others : List Lock) (fuel : Nat) {s : State T P}
    (hnone : ∀ t ∈ s.schedTasks, s.ready t = false ∧ s.doomed t = false) :
    getNextTaskWith (State.removeLocking held others) fuel s ≠ .blocked ∧
      ∀ r, getNextTaskWith (State.removeLocking held others) fuel s ≠ .ret r := by
  induction fuel generalizing s with
  | zero => simp [getNextTaskWith]
  | succ fuel ih =>
      cases hlist : s.schedTasks with
      | nil =>
          simp [getNextTaskWith, hlist]
      | cons t l =>
          obtain ⟨hr, hd⟩ := hnone t (by rw [hlist]; exact List.mem_cons_self)
          have hd' : ({ s with schedTasks := l ++ [t] } : State T P).doomed t = false := hd
          have hr' : ({ s with schedTasks := l ++ [t] } : State T P).ready t = false := hr
          rw [getNextTaskWith_cons hlist, taskSchedulableWith_of_not_doomed hd', hr',
            Outcome.ret_bind]
          refine ih fun u hu => hnone u ?_
          rw [hlist]
          exact List.perm_append_singleton t l |>.mem_iff.mp hu

end

/-! ## When `schedule` may block -/

/-- The condition under which a call takes no lock: no task is taken off the list. -/
def QuietCall (s : State T P) : Prop :=
  s.enabled = true → ∀ c, s.current = some c → c ∈ s.schedTasks →
    (s.tasks c).state ≠ .killed ∧ ScanClean s

/-- Whatever is held, a call of `schedule` locks no mutex that is held, and puts no task
to sleep. -/
structure NeverBlocks (s : State T P) : Prop where
  no_lock : ∀ held others fuel, scheduleLocking held others fuel s ≠ .blocked
  no_sleep : ∀ held others fuel s', scheduleLocking held others fuel s = .ret s' →
    ∀ t, (s'.tasks t).state = .sleeping → (s.tasks t).state = .sleeping

section

variable {s : State T P} (he : s.enabled = true) (held : Lock → Bool) (others : List Lock)
  (fuel : Nat)
include he

/-- A clean scan that finds a task, with a current task that is not killed. -/
theorem scheduleLocking_ready {c : T} (hc : s.current = some c)
    (halive : (s.tasks c).state ≠ .killed) (hclean : ScanClean s)
    (hready : ∃ t ∈ s.schedTasks, s.ready t = true) :
    scheduleLocking held others fuel s ≠ .blocked := by
  obtain ⟨t, ht, hr⟩ := hready
  obtain ⟨next, post, hlist, hnext⟩ := State.exists_ready ht hr
  rw [scheduleLocking, if_neg (by simp [he]), getNextTaskWith_clean hlist hclean.scanned hnext]
  split
  · nofun
  · rw [Outcome.ret_bind]
    dsimp only
    split
    · nofun
    · rw [hc]
      dsimp only
      rw [if_neg halive]
      nofun

/-- A clean scan that finds none. -/
theorem scheduleLocking_idle (hclean : ScanClean s)
    (hready : ¬ ∃ t ∈ s.schedTasks, s.ready t = true) :
    scheduleLocking held others fuel s ≠ .blocked := by
  have hnone : ∀ t ∈ s.schedTasks, s.ready t = false ∧ s.doomed t = false := by
    rw [← State.scanned_eq hready]
    exact hclean.scanned
  obtain ⟨hblocked, hret⟩ := getNextTaskWith_idle held others fuel hnone
  rw [scheduleLocking, if_neg (by simp [he])]
  cases hnext : getNextTaskWith (State.removeLocking held others) fuel s with
  | ret r => exact absurd hnext (hret r)
  | blocked => exact absurd hnext hblocked
  | _ => nofun

/-- The current task is not in the list. -/
theorem scheduleLocking_absent (habsent : ∀ c, s.current = some c → c ∉ s.schedTasks) :
    scheduleLocking held others fuel s ≠ .blocked := by
  obtain ⟨hblocked, hret⟩ := getNextTaskWith_absent held others fuel habsent
  rw [scheduleLocking, if_neg (by simp [he])]
  cases hnext : getNextTaskWith (State.removeLocking held others) fuel s with
  | ret r =>
      have habsent' := hret r.1 r.2 hnext
      rw [Outcome.ret_bind]
      dsimp only
      split
      · nofun
      · split
        · nofun
        · split
          · rw [State.removeLocking_fault habsent']
            nofun
          · nofun
  | blocked => exact absurd hnext hblocked
  | _ => nofun

end

theorem QuietCall.no_lock {s : State T P} (h : QuietCall s) (held : Lock → Bool)
    (others : List Lock) (fuel : Nat) : scheduleLocking held others fuel s ≠ .blocked := by
  by_cases he : s.enabled = true
  · by_cases hmem : ∃ c, s.current = some c ∧ c ∈ s.schedTasks
    · obtain ⟨c, hc, hmem⟩ := hmem
      obtain ⟨halive, hclean⟩ := h he c hc hmem
      by_cases hready : ∃ t ∈ s.schedTasks, s.ready t = true
      · exact scheduleLocking_ready he held others fuel hc halive hclean hready
      · exact scheduleLocking_idle he held others fuel hclean hready
    · exact scheduleLocking_absent he held others fuel fun c hc hm => hmem ⟨c, hc, hm⟩
  · rw [scheduleLocking, if_pos (by simpa using he)]
    nofun

/-- What any scan does to the states of the tasks: it kills some. -/
theorem getNextTaskWith_states {remove : State T P → Outcome (State T P)}
    (hremove : ∀ s s' : State T P, remove s = .ret s' → s'.tasks = s.tasks) (fuel : Nat)
    {s s' : State T P} {next : T} (h : getNextTaskWith remove fuel s = .ret (next, s')) (t : T)
    (ht : (s'.tasks t).state = .sleeping) : (s.tasks t).state = .sleeping := by
  induction fuel generalizing s with
  | zero => cases h
  | succ fuel ih =>
      cases hlist : s.schedTasks with
      | nil =>
          rw [getNextTaskWith, hlist] at h
          cases h
      | cons u l =>
          rw [getNextTaskWith_cons hlist] at h
          obtain ⟨⟨ok, s1⟩, hround, hrest⟩ := Outcome.bind_eq_ret.mp h
          have hs1 : (s1.tasks t).state = .sleeping := by
            dsimp only at hrest
            split at hrest
            · cases hrest
              exact ht
            · exact ih hrest
          obtain ⟨s2, hs2, hret⟩ := Outcome.bind_eq_ret.mp hround
          cases hret
          have htasks : s1.tasks =
              (State.killWithProcess { s with schedTasks := l ++ [u] } u).tasks := by
            split at hs2
            · exact hremove _ _ hs2
            · cases hs2
              rfl
          rw [htasks, State.killWithProcess] at hs1
          split at hs1
          · by_cases htu : t = u
            · subst htu
              simp [State.setState] at hs1
            · simpa [State.setState, Function.update_of_ne htu] using hs1
          · exact hs1

/-- No call of `schedule` that returns has put a task to sleep. -/
theorem scheduleLocking_states {held : Lock → Bool} {others : List Lock} {fuel : Nat}
    {s s' : State T P} (h : scheduleLocking held others fuel s = .ret s') (t : T)
    (ht : (s'.tasks t).state = .sleeping) : (s.tasks t).state = .sleeping := by
  rw [scheduleLocking] at h
  split at h
  · cases h
    exact ht
  · obtain ⟨⟨next, s1⟩, hnext, hrest⟩ := Outcome.bind_eq_ret.mp h
    refine getNextTaskWith_states (fun _ _ => State.removeLocking_tasks) fuel hnext t ?_
    dsimp only at hrest
    split at hrest
    · cases hrest
      exact ht
    · obtain ⟨s2, hs2, hret⟩ := Outcome.bind_eq_ret.mp hrest
      cases hret
      have htasks : s2.tasks = s1.tasks := by
        split at hs2
        · cases hs2
          rfl
        · split at hs2
          · exact State.removeLocking_tasks hs2
          · cases hs2
            rfl
      rw [← htasks]
      exact ht

/-- Only the lock of the heap is held. -/
def kheapHeld : Lock → Bool
  | .kheap => true
  | _ => false

section

variable {s : State T P} {c : T} (he : s.enabled = true) (hc : s.current = some c)
  (hmem : c ∈ s.schedTasks)
include he hc hmem

/-- The current task is killed and the scan does not meet it, so that another one is found. -/
theorem blocks_of_killed (hkilled : (s.tasks c).state = .killed) (hclean : ScanClean s) :
    ∃ fuel, scheduleLocking kheapHeld [] fuel s = .blocked := by
  have hdoomed : s.doomed c = true := by simp [State.doomed, hkilled]
  have hready : ∃ t ∈ s.schedTasks, s.ready t = true := by
    by_contra hno
    have hnot := hclean c (by rw [State.scanned_eq hno]; exact hmem)
    rw [hdoomed] at hnot
    cases hnot
  obtain ⟨t, ht, hr⟩ := hready
  obtain ⟨next, post, hlist, hnext⟩ := State.exists_ready ht hr
  have hother : s.current ≠ some next := by
    rw [hc]
    intro hcn
    obtain rfl := Option.some.inj hcn
    rw [State.not_doomed_of_ready hnext] at hdoomed
    cases hdoomed
  have hblocked : State.removeLocking kheapHeld []
      { s with schedTasks := post ++ s.scanned ++ [next] } = .blocked :=
    State.removeLocking_blocked hc ((State.rotated_perm hlist).mem_iff.mpr hmem) rfl
  refine ⟨s.scanned.length + 1, ?_⟩
  rw [scheduleLocking, if_neg (by simp [he]), getNextTaskWith_clean hlist hclean.scanned hnext,
    if_neg (by omega), Outcome.ret_bind]
  dsimp only
  rw [if_neg hother, hc]
  dsimp only
  rw [if_pos hkilled]
  rw [hc] at hblocked
  rw [hblocked]
  rfl

/-- The scan meets a killed task first. -/
theorem blocks_of_doomed (hbad : ¬ ScanClean s) :
    ∃ fuel, scheduleLocking kheapHeld [] fuel s = .blocked := by
  obtain ⟨pre, d, post, hlist, hd, hpre⟩ := exists_doomed hbad
  obtain ⟨hsame, -, hcur⟩ :=
    State.killWithProcess_frame ({ s with schedTasks := post ++ pre ++ [d] } : State T P) d
  have hmem' : c ∈ post ++ pre ++ [d] := (State.rotated_perm hlist).mem_iff.mpr hmem
  have hblocked : State.removeLocking kheapHeld []
      (State.killWithProcess { s with schedTasks := post ++ pre ++ [d] } d) = .blocked :=
    State.removeLocking_blocked (hcur.trans hc) (by rw [hsame]; exact hmem') rfl
  refine ⟨pre.length + (0 + 1), ?_⟩
  rw [scheduleLocking, if_neg (by simp [he]),
    getNextTaskWith_doomed (fun _ _ => State.removeLocking_tasks) hlist hpre hd, hblocked]
  rfl

end

/-- A call that takes a task off the list blocks if the lock of the heap is held. -/
theorem blocks_of_not_quiet {s : State T P} (h : ¬ QuietCall s) :
    ∃ fuel, scheduleLocking kheapHeld [] fuel s = .blocked := by
  simp only [QuietCall, not_forall] at h
  obtain ⟨he, c, hc, hmem, hbad⟩ := h
  by_cases hclean : ScanClean s
  · have hkilled : (s.tasks c).state = .killed := by
      by_contra hne
      exact hbad ⟨hne, hclean⟩
    exact blocks_of_killed he hc hmem hkilled hclean
  · exact blocks_of_doomed he hc hmem hclean

/-- A scan does what it does without locks, or it blocks. -/
theorem getNextTaskWith_cases (held : Lock → Bool) (others : List Lock) (fuel : Nat)
    (s : State T P) :
    getNextTaskWith (State.removeLocking held others) fuel s = getNextTask fuel s ∨
      getNextTaskWith (State.removeLocking held others) fuel s = .blocked := by
  induction fuel generalizing s with
  | zero => exact .inl rfl
  | succ fuel ih =>
      cases hlist : s.schedTasks with
      | nil =>
          rw [getNextTaskWith, getNextTask, hlist]
          exact .inl rfl
      | cons t l =>
          rw [getNextTask_eq, getNextTaskWith_cons hlist, getNextTaskWith_cons hlist]
          by_cases hd : s.doomed t = true
          · have hd' : ({ s with schedTasks := l ++ [t] } : State T P).doomed t = true := hd
            rw [taskSchedulableWith_of_doomed (fun _ _ => State.removeLocking_tasks) hd',
              taskSchedulableWith_of_doomed (fun _ _ => State.removeCurrent_tasks) hd']
            obtain ⟨k, hk⟩ : ∃ k, k =
                State.killWithProcess { s with schedTasks := l ++ [t] } t := ⟨_, rfl⟩
            rw [← hk]
            have hcases : k.removeLocking held others = k.removeCurrent ∨ _ :=
              k.removeLocking_cases
            rcases hcases with he | he
            · rw [he]
              cases hrem : k.removeCurrent with
              | ret s1 =>
                  simp only [Outcome.ret_bind, Bool.false_eq_true, if_false, ← getNextTask_eq]
                  exact ih s1
              | _ => exact .inl rfl
            · exact .inr (by rw [he]; rfl)
          · have hd0 : s.doomed t = false := by simpa using hd
            have hd' : ({ s with schedTasks := l ++ [t] } : State T P).doomed t = false := hd0
            rw [taskSchedulableWith_of_not_doomed hd', taskSchedulableWith_of_not_doomed hd']
            simp only [Outcome.ret_bind]
            split
            · exact .inl rfl
            · rw [← getNextTask_eq]
              exact ih _

theorem scheduleLocking_cases (held : Lock → Bool) (others : List Lock) (fuel : Nat)
    (s : State T P) :
    scheduleLocking held others fuel s = schedule fuel s ∨
      scheduleLocking held others fuel s = .blocked := by
  rw [scheduleLocking, schedule]
  split
  · exact .inl rfl
  · rcases getNextTaskWith_cases held others fuel s with hnext | hnext
    · rw [hnext]
      cases getNextTask fuel s with
      | ret r =>
          obtain ⟨next, s1⟩ := r
          simp only [Outcome.ret_bind]
          split
          · exact .inl rfl
          · rw [State.leaveCurrent]
            cases s1.current with
            | none => exact .inl rfl
            | some c =>
                dsimp only
                split
                · have hcases : s1.removeLocking held others = s1.removeCurrent ∨ _ :=
                    s1.removeLocking_cases
                  rcases hcases with he | he
                  · exact .inl (by rw [he])
                  · exact .inr (by rw [he]; rfl)
                · exact .inl rfl
      | _ => exact .inl rfl
    · exact .inr (by rw [hnext]; rfl)

/-! ## Runs -/

variable [DecidableEq P]

/-- The steps of the kernel, with the mutexes that are held at each of them. -/
def LockingStep (s : State T P) (a : Action T P × (Lock → Bool) × List Lock) (s' : State T P) :
    Prop :=
  match a.1 with
  | .schedule fuel => scheduleLocking a.2.1 a.2.2 fuel s = .ret s'
  | b => Step s b s'

/-- The calls of `schedule` meet the condition. -/
def QuietCalls (s : State T P) (a : Action T P) : Prop := ∀ fuel, a = .schedule fuel → QuietCall s

/-- A call that meets it returns whatever is held. -/
theorem lockingStep_of_quiet {s s' : State T P} {a : Action T P × (Lock → Bool) × List Lock}
    (h : Step s a.1 s') (hquiet : QuietCalls s a.1) : LockingStep s a s' := by
  obtain ⟨a, held, others⟩ := a
  cases a with
  | schedule fuel =>
      cases h with
      | schedule hret =>
          rcases scheduleLocking_cases held others fuel s with he | he
          · exact he.trans hret
          · exact absurd he ((hquiet fuel rfl).no_lock held others fuel)
  | _ => exact h

/-- **`schedule` does not block.**  A call locks no mutex that is held and puts no task to
sleep, whatever is held, exactly if the current task is not in the list, or it is not
killed and no killed task stands in front of the first schedulable one.  So a run in
which every call of `schedule` meets this is a run whatever is held at its steps. -/
theorem schedule_never_blocks :
    (∀ s : State T P, NeverBlocks s ↔ QuietCall s) ∧
      ∀ (s s' : State T P) (as : List (Action T P)), Run (Guarded Step QuietCalls) s as s' →
        ∀ las : List (Action T P × (Lock → Bool) × List Lock), las.map Prod.fst = as →
          Run LockingStep s las s' := by
  refine ⟨fun s => ⟨fun h => ?_, fun h => ⟨h.no_lock, ?_⟩⟩, fun s s' as hrun => ?_⟩
  · by_contra hno
    obtain ⟨fuel, hblocked⟩ := blocks_of_not_quiet hno
    exact h.no_lock kheapHeld [] fuel hblocked
  · exact fun held others fuel s' hret => scheduleLocking_states hret
  · induction hrun with
    | nil =>
        intro las hlas
        obtain rfl := List.map_eq_nil_iff.mp hlas
        exact .nil
    | @cons s t u a as hstep _ ih =>
        intro las hlas
        obtain ⟨la, las, rfl, rfl, hrest⟩ := List.map_eq_cons_iff.mp hlas
        exact .cons (lockingStep_of_quiet hstep.1 hstep.2) (ih las hrest)

/-- Tasks 2 and 3 take turns with the idle task and the cleanup task, and task 2 is killed when
it runs.  The next scan finds the idle task before it, so the heap may be locked all the time. -/
theorem schedule_never_blocks_until_killed : ∃ s : State Nat Nat,
    Run LockingStep (State.init 0 1)
      (([.create 3, .count 3, .insert 3, .create 2, .count 2, .assign 2 7, .insert 2, .enable,
        .schedule 1, .schedule 1, .schedule 1, .schedule 1, .exit, .schedule 1] :
          List (Action Nat Nat)).map fun a => (a, kheapHeld, [])) s ∧
      NeverBlocks s ∧ s.procKilled 2 = true := by
  have hquiet : ∀ {s : State Nat Nat}, (∀ c ∈ s.current, (s.tasks c).state ≠ .killed) →
      ScanClean s → QuietCalls s (.schedule 1) := fun halive hclean _ _ _ c hc _ =>
    ⟨halive c hc, hclean⟩
  have hr : Run (Guarded Step QuietCalls) (State.init 0 1 : State Nat Nat)
      [.create 3, .count 3, .insert 3, .create 2, .count 2, .assign 2 7, .insert 2, .enable,
        .schedule 1, .schedule 1, .schedule 1, .schedule 1, .exit, .schedule 1] _ :=
    .cons ⟨.create rfl rfl, nofun⟩ (.cons ⟨.count rfl, nofun⟩ (.cons ⟨.insert rfl, nofun⟩
    (.cons ⟨.create rfl rfl, nofun⟩ (.cons ⟨.count rfl, nofun⟩ (.cons ⟨.assign rfl, nofun⟩
    (.cons ⟨.insert rfl, nofun⟩ (.cons ⟨.enable, nofun⟩
    (.cons ⟨.schedule rfl, hquiet (by decide) (by decide)⟩
    (.cons ⟨.schedule rfl, hquiet (by decide) (by decide)⟩
    (.cons ⟨.schedule rfl, hquiet (by decide) (by decide)⟩
    (.cons ⟨.schedule rfl, hquiet (by decide) (by decide)⟩
    (.cons ⟨.exit (c := 2) (p := 7) ⟨rfl, rfl, by decide, by decide⟩ rfl, nofun⟩
    (.cons ⟨.schedule rfl, hquiet (by decide) (by decide)⟩ .nil)))))))))))))
  refine ⟨_, schedule_never_blocks.2 _ _ _ hr _ (by simp), ?_, rfl⟩
  exact (schedule_never_blocks.1 _).mpr (hquiet (by decide) (by decide) 1 rfl)

/-- Task 2 of a process was killed by `sys_exit` and preempted.  Task 3, which stands in
front of it, holds the lock of the heap when the timer fires.  The scan meets task 2 and
removes task 3 from the list, and freeing the item waits for task 3. -/
theorem schedule_waits_for_itself : ∃ s : State Nat Nat, Run Step (State.init 0 1)
      [.create 3, .count 3, .insert 3, .create 2, .count 2, .assign 2 7, .insert 2, .enable,
        .schedule 1, .schedule 1, .schedule 1, .schedule 1, .exit, .schedule 1, .schedule 1,
        .schedule 1] s ∧
      s.current = some 3 ∧ scheduleLocking kheapHeld [] 1 s = .blocked ∧ ¬ NeverBlocks s := by
  have hr : Run Step (State.init 0 1 : State Nat Nat)
      [.create 3, .count 3, .insert 3, .create 2, .count 2, .assign 2 7, .insert 2, .enable,
        .schedule 1, .schedule 1, .schedule 1, .schedule 1, .exit, .schedule 1, .schedule 1,
        .schedule 1] _ :=
    .cons (.create rfl rfl) (.cons (.count rfl) (.cons (.insert rfl) (.cons (.create rfl rfl)
    (.cons (.count rfl) (.cons (.assign rfl) (.cons (.insert rfl) (.cons .enable
    (.cons (.schedule rfl) (.cons (.schedule rfl) (.cons (.schedule rfl) (.cons (.schedule rfl)
    (.cons (.exit (c := 2) (p := 7) ⟨rfl, rfl, by decide, by decide⟩ rfl)
    (.cons (.schedule rfl) (.cons (.schedule rfl) (.cons (.schedule rfl) .nil)))))))))))))))
  exact ⟨_, hr, rfl, rfl, fun h => h.no_lock kheapHeld [] 1 rfl⟩

/-! ## The list in memory -/

omit [DecidableEq P] in
/-- `sched_tasks` is a linked list, and what is removed from the sequence of its tasks is
the item that `list_find` returns and `list_it_remove` frees. -/
theorem removeCurrent_linked {s : State T P} {c : T} (hc : s.current = some c)
    (hmem : c ∈ s.schedTasks) {debug : Bool} {ls : LinkedList.ListState T}
    {l : List (LinkedList.Node T)} (hrep : LinkedList.Rep ls l)
    (hlist : l.map Prod.snd = s.schedTasks) :
    ∃ it ls' l' s', LinkedList.listFind debug ls c = .ret it ∧
      LinkedList.listItRemove debug ls it = .ret ls' ∧ LinkedList.Rep ls' l' ∧
      s.removeCurrent = .ret s' ∧ l'.map Prod.snd = s'.schedTasks := by
  obtain ⟨xs, a, ys, rfl, hnot, hfrom⟩ := LinkedList.fromPayload_split (hlist ▸ hmem)
  obtain ⟨ls', hremove, hrep'⟩ : ∃ ls', LinkedList.listItRemove debug ls a = .ret ls' ∧
      LinkedList.Rep ls' (xs ++ ys) := hrep.itRemove
  refine ⟨a, ls', xs ++ ys, _, ?_, hremove, hrep', State.removeCurrent_of_mem hc hmem, ?_⟩
  · rw [hrep.find, hfrom, LinkedList.headAddr_cons]
  · rw [← hlist, List.map_append, List.map_append, List.map_cons,
      List.erase_append_right _ hnot, List.erase_cons_head]

omit [DecidableEq T] in
/-- `list_rotate` on it is the rotation of the sequence. -/
theorem listRotate_linked {debug : Bool} {ls : LinkedList.ListState T}
    {l : List (LinkedList.Node T)} (hrep : LinkedList.Rep ls l) :
    ∃ ls' l', LinkedList.listRotate debug ls = .ret ls' ∧ LinkedList.Rep ls' l' ∧
      l'.map Prod.snd = listRotate (l.map Prod.snd) := by
  obtain ⟨ls', hret, hrep'⟩ : ∃ ls', LinkedList.listRotate debug ls = .ret ls' ∧
      LinkedList.Rep ls' (LinkedList.rotate l) := hrep.rotate
  refine ⟨ls', LinkedList.rotate l, hret, hrep', ?_⟩
  cases l with
  | nil => rfl
  | cons x l => simp [LinkedList.rotate, listRotate]

end Sched

end UlmerOS
