import Mathlib.Algebra.BigOperators.Group.Finset.Piecewise
import Mathlib.Algebra.Order.BigOperators.Group.Finset
import Mathlib.Algebra.Order.Ring.Int
import Mathlib.Data.Fintype.Basic
import UlmerOS.Lib.Run
import UlmerOS.Proc.Proc

/-!
# `sys_sbrk` in several threads

The steps of `sys_sbrk` (`mm/sbrk.c`) for the threads of one process, in any order.  Each
thread has a program point `Pc`, and `heap_lock` lets one thread in.  What is unmapped when
the break moves down is left out: the calls that are looked at have positive increments.

`old_break` is read before the lock is taken.  Two threads that both read it before either
moves the break get the same address.  `sbrk_ranges` says that this is the only way in which
two ranges can overlap.  The break itself moves inside the lock, and it always ends where it
should.
-/

namespace UlmerOS

namespace Sbrk

open Transition (Run Guarded run_of_foldlM guarded_of_foldlM)

/-! ## Program points and steps -/

/-- What a thread does next in its call of `sys_sbrk`. -/
inductive Pc where
  /-- In no call. -/
  | outside
  /-- `if (process->heap_brk == (size_t)-1)`. -/
  | check (increment : Int)
  /-- `void* old_break = (void*)process->heap_brk`. -/
  | readBreak (increment : Int)
  /-- `mutex_lock(&process->heap_lock)`. -/
  | lockHeap (oldBreak : Nat) (increment : Int)
  /-- The assignment to `process->heap_brk`. -/
  | update (oldBreak : Nat) (increment : Int)
  /-- `mutex_unlock(&process->heap_lock)`. -/
  | unlockHeap (oldBreak : Nat) (increment : Int)
  /-- The return from the call. -/
  | ret (value : Nat) (increment : Int)
deriving DecidableEq, Repr

/-- A thread makes a call or goes on in the one it is in. -/
inductive Action where
  | call (increment : Int)
  | step
deriving DecidableEq, Repr

variable {T : Type} [DecidableEq T]

/-- A process and its threads. -/
structure State (T : Type) where
  proc : Proc
  /-- The thread that holds `heap_lock`. -/
  heapLock : Option T
  pc : T → Pc
  /-- The values that were returned, with the increments of the calls. -/
  returned : List (Nat × Int)

/-- A process none of whose threads has called `sys_sbrk`. -/
def State.init (proc : Proc) : State T where
  proc := proc
  heapLock := none
  pc := fun _ => .outside
  returned := []

/-- A thread goes to a program point. -/
def State.setPc (s : State T) (t : T) (pc : Pc) : State T :=
  { s with pc := Function.update s.pc t pc }

/-- One step of a thread.  Who waits for the lock takes no step. -/
def next (s : State T) (t : T) : Action → Option (State T)
  | .call increment => if s.pc t = .outside then some (s.setPc t (.check increment)) else none
  | .step =>
      match s.pc t with
      | .outside => none
      | .check increment =>
          if s.proc.heapBrk = minusOne then some (s.setPc t (.ret minusOne increment))
          else some (s.setPc t (.readBreak increment))
      | .readBreak increment => some (s.setPc t (.lockHeap s.proc.heapBrk increment))
      | .lockHeap oldBreak increment =>
          if s.heapLock = none then
            some { s.setPc t (.update oldBreak increment) with heapLock := some t }
          else none
      | .update oldBreak increment =>
          some { s.setPc t (.unlockHeap oldBreak increment) with
            proc := { s.proc with heapBrk := s.proc.nextBreak increment } }
      | .unlockHeap oldBreak increment =>
          some { s.setPc t (.ret oldBreak increment) with heapLock := none }
      | .ret value increment =>
          some { s.setPc t .outside with returned := s.returned ++ [(value, increment)] }

/-- A step of one of the threads. -/
def Step (s : State T) (l : T × Action) (s' : State T) : Prop := next s l.1 l.2 = some s'

/-- What a step can do. -/
inductive Moved (s : State T) (t : T) : Action → State T → Prop where
  | call {increment : Int} (hpc : s.pc t = .outside) :
      Moved s t (.call increment) (s.setPc t (.check increment))
  | refused {increment : Int} (hpc : s.pc t = .check increment)
      (hbrk : s.proc.heapBrk = minusOne) : Moved s t .step (s.setPc t (.ret minusOne increment))
  | checked {increment : Int} (hpc : s.pc t = .check increment)
      (hbrk : s.proc.heapBrk ≠ minusOne) : Moved s t .step (s.setPc t (.readBreak increment))
  | read {increment : Int} (hpc : s.pc t = .readBreak increment) :
      Moved s t .step (s.setPc t (.lockHeap s.proc.heapBrk increment))
  | locked {oldBreak : Nat} {increment : Int} (hpc : s.pc t = .lockHeap oldBreak increment)
      (hfree : s.heapLock = none) :
      Moved s t .step { s.setPc t (.update oldBreak increment) with heapLock := some t }
  | updated {oldBreak : Nat} {increment : Int} (hpc : s.pc t = .update oldBreak increment) :
      Moved s t .step { s.setPc t (.unlockHeap oldBreak increment) with
        proc := { s.proc with heapBrk := s.proc.nextBreak increment } }
  | unlocked {oldBreak : Nat} {increment : Int} (hpc : s.pc t = .unlockHeap oldBreak increment) :
      Moved s t .step { s.setPc t (.ret oldBreak increment) with heapLock := none }
  | returned {value : Nat} {increment : Int} (hpc : s.pc t = .ret value increment) :
      Moved s t .step { s.setPc t .outside with
        returned := s.returned ++ [(value, increment)] }

theorem Step.moved {s s' : State T} {l : T × Action} (h : Step s l s') :
    Moved s l.1 l.2 s' := by
  obtain ⟨t, a⟩ := l
  cases a with
  | call increment =>
      obtain ⟨hpc, hs⟩ := Option.ite_none_right_eq_some.mp h
      cases hs
      exact .call hpc
  | step =>
      rw [Step, next] at h
      cases hpc : s.pc t with
      | outside => rw [hpc] at h; cases h
      | check increment =>
          simp only [hpc] at h
          by_cases hbrk : s.proc.heapBrk = minusOne
          · rw [if_pos hbrk] at h; cases h; exact .refused hpc hbrk
          · rw [if_neg hbrk] at h; cases h; exact .checked hpc hbrk
      | readBreak increment => rw [hpc] at h; cases h; exact .read hpc
      | lockHeap oldBreak increment =>
          rw [hpc] at h
          obtain ⟨hfree, hs⟩ := Option.ite_none_right_eq_some.mp h
          cases hs
          exact .locked hpc hfree
      | update oldBreak increment => rw [hpc] at h; cases h; exact .updated hpc
      | unlockHeap oldBreak increment => rw [hpc] at h; cases h; exact .unlocked hpc
      | ret value increment => rw [hpc] at h; cases h; exact .returned hpc

/-- With no other thread in a call, `sys_sbrk` is the function it looks like. -/
theorem sysSbrk_run {s : State T} {t : T} {m m' : PhysMem} {increment : Int} {value : Nat}
    {proc : Proc} (hpc : s.pc t = .outside) (hfree : s.heapLock = none) (hpos : 0 ≤ increment)
    (h : sysSbrk m s.proc increment = .ret (value, proc, m')) :
    ∃ n, Run Step s ((t, .call increment) :: List.replicate n (t, .step))
      { s with proc := proc, returned := s.returned ++ [(value, increment)] } := by
  have hback : Function.update s.pc t .outside = s.pc := by rw [← hpc, Function.update_eq_self]
  rw [sysSbrk] at h
  by_cases hbrk : s.proc.heapBrk = minusOne
  · rw [if_pos hbrk] at h
    cases h
    refine ⟨2, run_of_foldlM ?_⟩
    simp [next, hpc, hbrk, State.setPc, hback]
  · simp only [if_neg hbrk, if_neg (not_lt.mpr hpos)] at h
    cases h
    refine ⟨6, run_of_foldlM ?_⟩
    simp [List.replicate, next, hpc, hbrk, hfree, State.setPc, hback]

/-! ## Sums over the threads -/

variable [Fintype T]

/-- A sum over the threads when one of them moves. -/
theorem sum_update {M : Type} [AddCommMonoid M] (f : Pc → M) (pc : T → Pc) (t : T) (p : Pc) :
    ∑ u, f (Function.update pc t p u) + f (pc t) = ∑ u, f (pc u) + f p := by
  have hrest : ∑ u ∈ Finset.univ.erase t, f (Function.update pc t p u) =
      ∑ u ∈ Finset.univ.erase t, f (pc u) :=
    Finset.sum_congr rfl fun u hu => by
      rw [Function.update_of_ne (Finset.ne_of_mem_erase hu)]
  rw [← Finset.add_sum_erase _ _ (Finset.mem_univ t), hrest, Function.update_self,
    ← Finset.add_sum_erase Finset.univ (fun u => f (pc u)) (Finset.mem_univ t)]
  rw [add_comm (f p), add_comm (f (pc t)), add_right_comm]

/-- What the break still has to move up by for a call. -/
def Pc.due : Pc → Int
  | .check increment | .readBreak increment | .lockHeap _ increment | .update _ increment =>
      increment
  | _ => 0

/-- The range that a call was given and has yet to return. -/
def Pc.granted : Pc → List (Nat × Int)
  | .unlockHeap oldBreak increment | .ret oldBreak increment => [(oldBreak, increment)]
  | _ => []

/-- The range has the address in it. -/
def covers (x : Int) (range : Nat × Int) : Bool :=
  decide (range.1 ≤ x ∧ x < range.1 + range.2)

/-- The break that all the calls lead to. -/
def State.due (s : State T) : Int := s.proc.heapBrk + ∑ t, (s.pc t).due

/-- The number of ranges that have the address in them. -/
def State.handedOut (s : State T) (x : Int) : Nat :=
  s.returned.countP (covers x) + ∑ t, (s.pc t).granted.countP (covers x)

/-- The increment of a call. -/
def amount : T × Action → Int
  | (_, .call increment) => increment
  | (_, .step) => 0

/-- How a step of a thread changes what is due. -/
theorem due_moved {s s' : State T} {t : T} {p : Pc} {d : Int}
    (hpc : s'.pc = Function.update s.pc t p)
    (h : s'.proc.heapBrk + p.due = s.proc.heapBrk + (s.pc t).due + d) : s'.due = s.due + d := by
  have hsum := sum_update Pc.due s.pc t p
  simp only [State.due, hpc]
  omega

/-- How a step of a thread changes what is handed out. -/
theorem handedOut_moved {s s' : State T} {t : T} {p : Pc} {x : Int} {n : Nat}
    (hpc : s'.pc = Function.update s.pc t p)
    (h : s'.returned.countP (covers x) + p.granted.countP (covers x) =
      s.returned.countP (covers x) + (s.pc t).granted.countP (covers x) + n) :
    s'.handedOut x = s.handedOut x + n := by
  have hsum := sum_update (fun pc => pc.granted.countP (covers x)) s.pc t p
  simp only [State.handedOut, hpc]
  omega

/-! ## Where the break ends -/

/-- The increment of the call that a thread is in. -/
def Pc.increment : Pc → Option Int
  | .outside => none
  | .check increment | .readBreak increment | .lockHeap _ increment | .update _ increment
  | .unlockHeap _ increment | .ret _ increment => some increment

/-- The break that a thread has read and not used yet. -/
def Pc.oldBreak : Pc → Option Nat
  | .lockHeap oldBreak _ | .update oldBreak _ => some oldBreak
  | _ => none

/-- The calls have positive increments, and the break only moved up since the start. -/
structure Inv (start : Nat) (s : State T) : Prop where
  low : s.proc.loader.minHeapBreak ≤ s.proc.heapBrk
  up : start ≤ s.proc.heapBrk
  positive : ∀ t, ∀ i ∈ (s.pc t).increment, 0 < i
  read : ∀ t, ∀ o ∈ (s.pc t).oldBreak, start ≤ o ∧ o ≤ s.proc.heapBrk

omit [DecidableEq T] [Fintype T] in
theorem Inv.init {proc : Proc} (h : proc.loader.minHeapBreak ≤ proc.heapBrk) :
    Inv proc.heapBrk (State.init proc : State T) where
  low := h
  up := Nat.le_refl proc.heapBrk
  positive := by intro t i hi; cases hi
  read := by intro t o ho; cases ho

theorem Pc.due_nonneg {pc : Pc} (h : ∀ i ∈ pc.increment, 0 < i) : 0 ≤ pc.due := by
  cases pc <;> first | exact Int.le_refl 0 | exact (h _ rfl).le

omit [DecidableEq T] in
/-- What is due to one call is no more than what is due to all. -/
theorem Inv.due_le {start : Nat} {s : State T} (h : Inv start s) (t : T) :
    s.proc.heapBrk + (s.pc t).due ≤ s.due :=
  Int.add_le_add_left (Finset.single_le_sum
    (fun u _ => Pc.due_nonneg (h.positive u)) (Finset.mem_univ t)) _

/-- A break in user space moves by the increment. -/
theorem nextBreak_eq {proc : Proc} {increment : Int}
    (hlow : proc.loader.minHeapBreak ≤ proc.heapBrk) (hpos : 0 < increment)
    (huser : proc.heapBrk + increment < userBreak) :
    (proc.nextBreak increment : Int) = proc.heapBrk + increment := by
  have hword : (userBreak : Int) < word := by decide
  rw [Proc.nextBreak_exact (by omega) (huser.trans hword), max_eq_left (by omega)]

/-- The break that all the calls lead to changes with a call only. -/
theorem Moved.due {start : Nat} {s s' : State T} {t : T} {a : Action} (h : Moved s t a s')
    (hinv : Inv start s) (hdue : s.due < userBreak) : s'.due = s.due + amount (t, a) := by
  have hle := hinv.due_le t
  have hpos := hinv.positive t
  cases h with
  | call hpc => exact due_moved rfl (by simp [hpc, State.setPc, Pc.due, amount])
  | refused hpc hbrk =>
      have hnonneg := Pc.due_nonneg (hinv.positive t)
      simp only [hbrk, minusOne, word, userBreak] at hle hdue
      omega
  | checked hpc hbrk => exact due_moved rfl (by simp [hpc, State.setPc, Pc.due, amount])
  | read hpc => exact due_moved rfl (by simp [hpc, State.setPc, Pc.due, amount])
  | locked hpc hfree => exact due_moved rfl (by simp [hpc, State.setPc, Pc.due, amount])
  | updated hpc =>
      rw [hpc] at hle hpos
      refine due_moved rfl ?_
      simp only [hpc, Pc.due, amount, add_zero]
      exact nextBreak_eq hinv.low (hpos _ rfl) (hle.trans_lt hdue)
  | unlocked hpc => exact due_moved rfl (by simp [hpc, State.setPc, Pc.due, amount])
  | returned hpc => exact due_moved rfl (by simp [hpc, State.setPc, Pc.due, amount])

omit [Fintype T] in
/-- A thread that goes on keeps the invariant, if the break moves up at most. -/
theorem Inv.moved {start : Nat} {s s' : State T} {t : T} {p : Pc} (h : Inv start s)
    (hpc : s'.pc = Function.update s.pc t p) (hldr : s'.proc.loader = s.proc.loader)
    (hbrk : s.proc.heapBrk ≤ s'.proc.heapBrk) (hp : ∀ i ∈ p.increment, 0 < i)
    (ho : ∀ o ∈ p.oldBreak, start ≤ o ∧ o ≤ s.proc.heapBrk) : Inv start s' where
  low := by rw [hldr]; exact h.low.trans hbrk
  up := h.up.trans hbrk
  positive := by
    intro u i hi
    rw [hpc] at hi
    by_cases hu : u = t
    · subst hu
      rw [Function.update_self] at hi
      exact hp i hi
    · rw [Function.update_of_ne hu] at hi
      exact h.positive u i hi
  read := by
    intro u o hu
    rw [hpc] at hu
    by_cases hut : u = t
    · subst hut
      rw [Function.update_self] at hu
      exact (ho o hu).imp id (·.trans hbrk)
    · rw [Function.update_of_ne hut] at hu
      exact (h.read u o hu).imp id (·.trans hbrk)

theorem Moved.inv {start : Nat} {s s' : State T} {t : T} {a : Action} (h : Moved s t a s')
    (hinv : Inv start s) (hdue : s.due < userBreak) (hcall : ∀ i, a = .call i → 0 < i) :
    Inv start s' := by
  have hle := hinv.due_le t
  have hpos := hinv.positive t
  have hread := hinv.read t
  have hkeep := Nat.le_refl s.proc.heapBrk
  cases h with
  | call hpc => exact hinv.moved rfl rfl hkeep (fun i hi => by cases hi; exact hcall _ rfl) nofun
  | refused hpc hbrk =>
      rw [hpc] at hpos
      exact hinv.moved rfl rfl hkeep hpos nofun
  | checked hpc hbrk =>
      rw [hpc] at hpos
      exact hinv.moved rfl rfl hkeep hpos nofun
  | read hpc =>
      rw [hpc] at hpos
      exact hinv.moved rfl rfl hkeep hpos fun o ho => by cases ho; exact ⟨hinv.up, hkeep⟩
  | locked hpc hfree =>
      rw [hpc] at hpos hread
      exact hinv.moved rfl rfl hkeep hpos hread
  | updated hpc =>
      rw [hpc] at hle hpos
      have hbrk := nextBreak_eq hinv.low (hpos _ rfl) (hle.trans_lt hdue)
      have hup := hpos _ rfl
      exact hinv.moved rfl rfl (by dsimp only; omega) hpos nofun
  | unlocked hpc =>
      rw [hpc] at hpos
      exact hinv.moved rfl rfl hkeep hpos nofun
  | returned hpc => exact hinv.moved rfl rfl hkeep nofun nofun

/-- The increments of the calls together. -/
def total (ls : List (T × Action)) : Int := (ls.map amount).sum

/-- The invariant, with positive calls to come that keep the break in user space. -/
structure Ready (start : Nat) (s : State T) (ls : List (T × Action)) : Prop where
  inv : Inv start s
  positive : ∀ l ∈ ls, ∀ i, l.2 = .call i → 0 < i
  user : s.due + total ls < userBreak

omit [DecidableEq T] [Fintype T] in
theorem total_nonneg {ls : List (T × Action)} (h : ∀ l ∈ ls, ∀ i, l.2 = .call i → 0 < i) :
    0 ≤ total ls := by
  refine List.sum_nonneg ?_
  simp only [List.mem_map]
  rintro _ ⟨⟨t, a⟩, hl, rfl⟩
  cases a with
  | call increment => exact (h _ hl increment rfl).le
  | step => exact Int.le_refl 0

omit [DecidableEq T] in
theorem Ready.user_now {start : Nat} {s : State T} {ls : List (T × Action)}
    (h : Ready start s ls) : s.due < userBreak := by
  have := total_nonneg h.positive
  have := h.user
  omega

theorem Ready.step {start : Nat} {s s' : State T} {l : T × Action} {ls : List (T × Action)}
    (h : Ready start s (l :: ls)) (hst : Step s l s') :
    Ready start s' ls ∧ s'.due = s.due + amount l := by
  have hdue : s'.due = s.due + amount l := hst.moved.due h.inv h.user_now
  refine ⟨⟨?_, fun k hk => h.positive k (List.mem_cons_of_mem l hk), ?_⟩, hdue⟩
  · exact hst.moved.inv h.inv h.user_now (h.positive l List.mem_cons_self)
  · have := h.user
    rw [total, List.map_cons, List.sum_cons, ← total] at this
    omega

/-- A run ends with the break that its calls lead to. -/
theorem Ready.run {start : Nat} {s s' : State T} {ls : List (T × Action)}
    (h : Ready start s ls) (hrun : Run Step s ls s') : s'.due = s.due + total ls := by
  induction hrun with
  | nil => simp [total]
  | cons hst _ ih =>
      obtain ⟨hready, hdue⟩ := h.step hst
      rw [ih hready, hdue, total, total, List.map_cons, List.sum_cons, add_assoc]

/-! ## Where the ranges are -/

/-- What a thread is given with its next step. -/
def Pc.gets : Pc → List (Nat × Int)
  | .update oldBreak increment => [(oldBreak, increment)]
  | _ => []

/-- The step does not move a break that another thread has moved since it was read. -/
def Fresh (s : State T) (l : T × Action) : Prop :=
  ∀ oldBreak increment, s.pc l.1 = .update oldBreak increment → oldBreak = s.proc.heapBrk

/-- The break that a thread is about to move. -/
def Pc.moves : Pc → Option Nat
  | .update oldBreak _ => some oldBreak
  | _ => none

instance (s : State T) (l : T × Action) : Decidable (Fresh s l) :=
  decidable_of_iff (∀ oldBreak ∈ (s.pc l.1).moves, oldBreak = s.proc.heapBrk) <| by
    rw [Fresh]
    cases s.pc l.1 <;> simp [Pc.moves]

/-- Each address between the first break and the present one was handed out once. -/
def Tiled (start : Nat) (s : State T) : Prop :=
  ∀ x : Int, s.handedOut x = if start ≤ x ∧ x < s.proc.heapBrk then 1 else 0

/-- A range is handed out with the step that moves the break. -/
theorem Moved.handedOut {start : Nat} {s s' : State T} {t : T} {a : Action}
    (h : Moved s t a s') (hinv : Inv start s) (hdue : s.due < userBreak) (x : Int) :
    s'.handedOut x = s.handedOut x + (s.pc t).gets.countP (covers x) := by
  cases h with
  | call hpc => exact handedOut_moved rfl (by simp [hpc, State.setPc, Pc.granted, Pc.gets])
  | refused hpc hbrk =>
      have hle := hinv.due_le t
      have hnonneg := Pc.due_nonneg (hinv.positive t)
      simp only [hbrk, minusOne, word, userBreak] at hle hdue
      omega
  | checked hpc hbrk => exact handedOut_moved rfl (by simp [hpc, State.setPc, Pc.granted, Pc.gets])
  | read hpc => exact handedOut_moved rfl (by simp [hpc, State.setPc, Pc.granted, Pc.gets])
  | locked hpc hfree =>
      exact handedOut_moved rfl (by simp [hpc, State.setPc, Pc.granted, Pc.gets])
  | updated hpc => exact handedOut_moved rfl (by simp [hpc, State.setPc, Pc.granted, Pc.gets])
  | unlocked hpc => exact handedOut_moved rfl (by simp [hpc, State.setPc, Pc.granted, Pc.gets])
  | returned hpc => exact handedOut_moved rfl (by simp [hpc, Pc.granted, Pc.gets])

/-- The break moves with the step that hands a range out, and by its length. -/
theorem Moved.heapBrk {start : Nat} {s s' : State T} {t : T} {a : Action}
    (h : Moved s t a s') (hinv : Inv start s) (hdue : s.due < userBreak) :
    (∃ oldBreak increment, s.pc t = .update oldBreak increment ∧ 0 < increment ∧
      (s'.proc.heapBrk : Int) = s.proc.heapBrk + increment) ∨
    ((s.pc t).gets = [] ∧ s'.proc.heapBrk = s.proc.heapBrk) := by
  cases h with
  | @updated oldBreak increment hpc =>
      have hpos := hinv.positive t increment (by rw [hpc]; rfl)
      have hle := hinv.due_le t
      rw [hpc] at hle
      exact .inl ⟨oldBreak, increment, hpc, hpos,
        nextBreak_eq hinv.low hpos (hle.trans_lt hdue)⟩
  | call hpc => exact .inr ⟨by rw [hpc]; rfl, rfl⟩
  | refused hpc hbrk => exact .inr ⟨by rw [hpc]; rfl, rfl⟩
  | checked hpc hbrk => exact .inr ⟨by rw [hpc]; rfl, rfl⟩
  | read hpc => exact .inr ⟨by rw [hpc]; rfl, rfl⟩
  | locked hpc hfree => exact .inr ⟨by rw [hpc]; rfl, rfl⟩
  | unlocked hpc => exact .inr ⟨by rw [hpc]; rfl, rfl⟩
  | returned hpc => exact .inr ⟨by rw [hpc]; rfl, rfl⟩

/-- A range at the break continues the others. -/
theorem Moved.tiled {start : Nat} {s s' : State T} {t : T} {a : Action} (h : Moved s t a s')
    (hinv : Inv start s) (hdue : s.due < userBreak) (htiled : Tiled start s)
    (hfresh : Fresh s (t, a)) : Tiled start s' := by
  intro x
  rw [h.handedOut hinv hdue, htiled x]
  rcases h.heapBrk hinv hdue with ⟨oldBreak, increment, hpc, hpos, hbrk⟩ | ⟨hgets, hbrk⟩
  · have hup := hinv.up
    rw [hfresh oldBreak increment hpc] at hpc
    simp only [hpc, Pc.gets, List.countP_singleton, covers, decide_eq_true_eq, hbrk]
    by_cases hx : (start : Int) ≤ x ∧ x < s.proc.heapBrk
    · rw [if_pos hx, if_neg (by omega), if_pos (by omega)]
    · rw [if_neg hx]
      by_cases hnew : (s.proc.heapBrk : Int) ≤ x ∧ x < s.proc.heapBrk + increment
      · rw [if_pos hnew, if_pos (by omega)]
      · rw [if_neg hnew, if_neg (by omega)]
  · rw [hgets, hbrk]
    rfl

/-- A range below the break covers addresses a second time. -/
theorem Moved.stale {start : Nat} {s s' : State T} {t : T} {a : Action} (h : Moved s t a s')
    (hinv : Inv start s) (hdue : s.due < userBreak) (htiled : Tiled start s)
    (hstale : ¬ Fresh s (t, a)) : ∃ x, 1 < s'.handedOut x := by
  simp only [Fresh, not_forall] at hstale
  obtain ⟨oldBreak, increment, hpc, hne⟩ := hstale
  obtain ⟨hstart, hle⟩ := hinv.read t oldBreak (by rw [hpc]; rfl)
  have hpos := hinv.positive t increment (by rw [hpc]; rfl)
  refine ⟨oldBreak, ?_⟩
  rw [h.handedOut hinv hdue, htiled, if_pos (by omega), hpc, Pc.gets, List.countP_singleton,
    if_pos (by simp [covers, hpos])]
  exact Nat.lt_succ_self 1

omit [DecidableEq T] in
theorem tiled_init (proc : Proc) : Tiled proc.heapBrk (State.init proc : State T) := by
  intro x
  rw [if_neg (by simp only [State.init]; omega)]
  simp [State.handedOut, State.init, Pc.granted]

/-! ## Runs -/

/-- What was handed out stays so. -/
theorem Ready.handedOut_le {start : Nat} {s s' : State T} {ls : List (T × Action)}
    (h : Ready start s ls) (hrun : Run Step s ls s') (x : Int) :
    s.handedOut x ≤ s'.handedOut x := by
  induction hrun with
  | nil => exact Nat.le_refl _
  | cons hst _ ih =>
      refine Nat.le_trans ?_ (ih (h.step hst).1)
      rw [hst.moved.handedOut h.inv h.user_now]
      exact Nat.le_add_right _ _

theorem Ready.tiled {start : Nat} {s s' : State T} {ls : List (T × Action)}
    (h : Ready start s ls) (htiled : Tiled start s) (hrun : Run (Guarded Step Fresh) s ls s') :
    Tiled start s' := by
  induction hrun with
  | nil => exact htiled
  | cons hst _ ih =>
      exact ih (h.step hst.1).1 (hst.1.moved.tiled h.inv h.user_now htiled hst.2)

/-- A run that hands no address out twice has fresh steps only. -/
theorem Ready.fresh {start : Nat} {s s' : State T} {ls : List (T × Action)}
    (h : Ready start s ls) (htiled : Tiled start s) (hrun : Run Step s ls s')
    (honce : ∀ x, s'.handedOut x ≤ 1) : Run (Guarded Step Fresh) s ls s' := by
  induction hrun with
  | nil => exact .nil
  | @cons s u s' l ls hst hrest ih =>
      have hready := (h.step hst).1
      by_cases hfresh : Fresh s l
      · exact .cons ⟨hst, hfresh⟩
          (ih hready (hst.moved.tiled h.inv h.user_now htiled hfresh) honce)
      · obtain ⟨x, hx⟩ := hst.moved.stale h.inv h.user_now htiled hfresh
        have := hready.handedOut_le hrest x
        exact absurd (hx.trans_le this) (Nat.not_lt.mpr (honce x))

/-- Two ranges have no address in common. -/
def Apart (r r' : Nat × Int) : Prop := ∀ x, covers x r = true → covers x r' = false

/-- Ranges are disjoint when no address is in two of them. -/
theorem pairwise_apart_iff (rs : List (Nat × Int)) :
    rs.Pairwise Apart ↔ ∀ x, rs.countP (covers x) ≤ 1 := by
  induction rs with
  | nil => simp
  | cons r rs ih =>
      rw [List.pairwise_cons, ih]
      constructor
      · rintro ⟨hr, hrs⟩ x
        rw [List.countP_cons]
        split
        next hx =>
          have : rs.countP (covers x) = 0 :=
            List.countP_eq_zero.mpr fun r' hr' => by simp [hr r' hr' x hx]
          omega
        next => exact hrs x
      · intro h
        refine ⟨fun r' hr' x hx => ?_, fun x => ?_⟩
        · have hone := h x
          rw [List.countP_cons, if_pos hx] at hone
          have hzero : rs.countP (covers x) = 0 := by omega
          exact Bool.eq_false_iff.mpr (List.countP_eq_zero.mp hzero r' hr')
        · exact (List.countP_cons ▸ Nat.le_add_right _ _).trans (h x)

/-- No thread is in a call. -/
def State.Idle (s : State T) : Prop := ∀ t, s.pc t = .outside

omit [DecidableEq T] in
theorem State.Idle.handedOut {s : State T} (h : s.Idle) (x : Int) :
    s.handedOut x = s.returned.countP (covers x) := by
  simp [State.handedOut, h _, Pc.granted]

omit [DecidableEq T] in
theorem State.Idle.due {s : State T} (h : s.Idle) : s.due = s.proc.heapBrk := by
  simp [State.due, h _, Pc.due]

/-- In a run whose calls keep the break in user space, the ranges are disjoint if every step
is fresh, and only then once all calls have returned.  The break ends where it should. -/
theorem sbrk_ranges {proc : Proc} {ls : List (T × Action)} {s : State T}
    (hlow : proc.loader.minHeapBreak ≤ proc.heapBrk)
    (hcalls : ∀ l ∈ ls, ∀ i, l.2 = .call i → 0 < i)
    (huser : proc.heapBrk + total ls < userBreak) (hrun : Run Step (State.init proc) ls s) :
    (Run (Guarded Step Fresh) (State.init proc) ls s → s.returned.Pairwise Apart) ∧
    (s.Idle → s.proc.heapBrk = proc.heapBrk + total ls ∧
      (s.returned.Pairwise Apart → Run (Guarded Step Fresh) (State.init proc) ls s)) := by
  have hidle : (State.init proc : State T).Idle := fun t => rfl
  have hready : Ready proc.heapBrk (State.init proc) ls :=
    ⟨Inv.init hlow, hcalls, by rw [hidle.due]; exact huser⟩
  refine ⟨fun hfresh => ?_, fun hdone => ⟨?_, fun happart => ?_⟩⟩
  · have htiled := hready.tiled (tiled_init proc) hfresh
    refine (pairwise_apart_iff _).mpr fun x => ?_
    calc s.returned.countP (covers x)
      _ ≤ s.handedOut x := Nat.le_add_right _ _
      _ ≤ 1 := by rw [htiled x]; split <;> decide
  · have hdue := hready.run hrun
    rwa [hdone.due, hidle.due] at hdue
  · refine hready.fresh (tiled_init proc) hrun fun x => ?_
    rw [hdone.handedOut]
    exact (pairwise_apart_iff _).mp happart x

/-- A process whose heap starts at `0x400000`. -/
def heapProc : Proc where
  stackList := []
  vspace := ⟨0⟩
  heapBrk := 0x400000
  loader :=
    { file := ⟨fun _ _ => (0, [])⟩, header := ⟨0, 0, 0, 0, 0, 0⟩, pht := none,
      phtBuf := fun _ => 0, locked := false, minHeapBreak := 0x400000 }

/-- Two calls that overlap.  The second one reads the break that the first one has moved, while
the first one has the lock, and moves it before the first one is back. -/
def overlapping : List (Bool × Action) :=
  [(false, .call 8), (true, .call 16), (false, .step), (true, .step), (false, .step),
    (false, .step), (false, .step), (true, .step), (false, .step), (true, .step), (true, .step),
    (false, .step), (true, .step), (true, .step)]

theorem sbrk_ranges_overlapping :
    ∃ s, Run Step (State.init heapProc) overlapping s ∧
      s.returned = [(0x400000, 8), (0x400008, 16)] ∧ s.returned.Pairwise Apart ∧
      s.proc.heapBrk = 0x400018 := by
  obtain ⟨s, hfresh, hreturned, hidle⟩ :
      ∃ s, Run (Guarded Step Fresh) (State.init heapProc) overlapping s ∧
        s.returned = [(0x400000, 8), (0x400008, 16)] ∧ s.Idle :=
    ⟨_, guarded_of_foldlM rfl, rfl, fun t => by cases t <;> rfl⟩
  have hcalls : ∀ l ∈ overlapping, ∀ i, l.2 = .call i → 0 < i := by simp [overlapping]
  obtain ⟨hdisjoint, hend⟩ := sbrk_ranges (by decide) hcalls (by decide) hfresh.of_guarded
  exact ⟨s, hfresh.of_guarded, hreturned, hdisjoint hfresh, Int.ofNat_inj.mp (hend hidle).1⟩

/-- Two threads that both read the break before either moves it. -/
def readTwice : List (Bool × Action) :=
  [(false, .call 8), (true, .call 16), (false, .step), (false, .step), (true, .step),
    (true, .step)] ++ List.replicate 4 (false, .step) ++ List.replicate 4 (true, .step)

/-- They get the same address. -/
theorem sbrk_same_address :
    ∃ s, Run Step (State.init heapProc) readTwice s ∧ s.Idle ∧
      s.returned = [(0x400000, 8), (0x400000, 16)] ∧ ¬ s.returned.Pairwise Apart := by
  obtain ⟨s, hrun, hidle, hreturned⟩ : ∃ s, Run Step (State.init heapProc) readTwice s ∧
      s.Idle ∧ s.returned = [(0x400000, 8), (0x400000, 16)] :=
    ⟨_, run_of_foldlM rfl, fun t => by cases t <;> rfl, rfl⟩
  refine ⟨s, hrun, hidle, hreturned, fun h => ?_⟩
  rw [hreturned] at h
  have hpair : Apart (0x400000, 8) (0x400000, 16) := (List.pairwise_cons.mp h).1 _ (by simp)
  exact absurd (hpair 0x400000 (by decide)) (by decide)

end Sbrk

end UlmerOS
