import Mathlib.Data.List.DropRight
import UlmerOS.Lib.Run
import UlmerOS.Proc.Demand
import UlmerOS.Proc.Sbrk

/-!
# The slots of the stacks

A process has its stacks in slots, counted from `USER_BREAK` downwards, with a slot of guard
pages above each.  `create_stack` computes the slot of a new stack from the length of the list,
and `delete_stack` takes free slots off the end of the list only.  So the slot of a stack is its
place in the list (`Slots`), whatever stacks were created and deleted.
-/

namespace UlmerOS

open Transition

/-! ## Steps -/

/-- What the threads of a process do to its stacks. -/
inductive StackCall where
  | create
  /-- A page fault at this address. -/
  | fault (address : Nat) (bits : FaultBits)
  | delete (index : Nat)

/-- The calls that return.  There are less than `2^21` slots, and only an allocated stack is
deleted. -/
inductive StackStep : Proc × PhysMem → StackCall → Proc × PhysMem → Prop where
  | create {proc : Proc} {m : PhysMem} : (createStack proc).2.stackList.length < 2 ^ 21 →
      StackStep (proc, m) .create ((createStack proc).2, m)
  | fault {proc proc' : Proc} {m m' : PhysMem} {address : Nat} {bits : FaultBits} {ok : Bool} :
      address < word → pageFault m proc address bits = .ret (ok, proc', m') →
      StackStep (proc, m) (.fault address bits) (proc', m')
  | delete {proc proc' : Proc} {m m' : PhysMem} {stack : Userstack} :
      stack ∈ proc.stackList → stack.allocated = true →
      deleteStack m proc stack.index = .ret (proc', m') →
      StackStep (proc, m) (.delete stack.index) (proc', m')

/-! ## Slots -/

/-- The stack is in the slot of this number. -/
def Userstack.InSlot (stack : Userstack) (i : Nat) : Prop :=
  ∃ allocated pagesMapped,
    stack = { newStack i with allocated := allocated, pagesMapped := pagesMapped }

/-- Every stack is in the slot of its place in the list. -/
structure Slots (stackList : List Userstack) : Prop where
  few : stackList.length < 2 ^ 21
  inSlot : ∀ (i : Nat) (stack : Userstack), stackList[i]? = some stack → stack.InSlot i

/-- The page is in the range of the stack. -/
def Userstack.Holds (stack : Userstack) (page : Nat) : Prop :=
  stack.startPage ≤ page ∧ page < stack.startPage + stack.pageCount

theorem stackStart_eq {i : Nat} (hi : i < 2 ^ 21) : stackStart i + (i + 1) * 0x4000 = 2 ^ 35 := by
  rw [stackStart, userBreak, pageShift, stackSize, pageSize, wrap64, word,
    Nat.shiftRight_eq_div_pow]
  omega

namespace Userstack.InSlot

variable {stack : Userstack} {i : Nat}

theorem index_eq (h : stack.InSlot i) : stack.index = i := by
  obtain ⟨allocated, pagesMapped, rfl⟩ := h
  rfl

theorem pageCount_eq (h : stack.InSlot i) : stack.pageCount = 0x2000 := by
  obtain ⟨allocated, pagesMapped, rfl⟩ := h
  rfl

theorem startPage_eq (h : stack.InSlot i) (hi : i < 2 ^ 21) :
    stack.startPage + (i + 1) * 0x4000 = 2 ^ 35 := by
  obtain ⟨allocated, pagesMapped, rfl⟩ := h
  exact stackStart_eq hi

/-- The stack pointer starts at the end of the range. -/
theorem stackPtr_eq (h : stack.InSlot i) (hi : i < 2 ^ 21) :
    stack.stackPtr = (stack.startPage + stack.pageCount) * pageSize := by
  have hstart := stackStart_eq hi
  obtain ⟨allocated, pagesMapped, rfl⟩ := h
  show wrap64 ((stackStart i + stackSize >>> pageShift) <<< pageShift) =
    (stackStart i + stackSize / pageSize) * pageSize
  rw [stackSize, pageShift, pageSize, Nat.shiftRight_eq_div_pow, Nat.shiftLeft_eq]
  exact wrap64_of_lt (by rw [word]; omega)

end Userstack.InSlot

/-! ## What every call keeps -/

theorem getElem?_of_prefix {l l' : List Userstack} {i : Nat} {stack : Userstack}
    (h : l <+: l') (hi : l[i]? = some stack) : l'[i]? = some stack := by
  obtain ⟨rest, rfl⟩ := h
  obtain ⟨hlt, -⟩ := List.getElem?_eq_some_iff.mp hi
  rw [List.getElem?_append_left hlt, hi]

namespace Slots

variable {stackList stackList' : List Userstack}

theorem lt_of_getElem? (h : Slots stackList) {i : Nat} {stack : Userstack}
    (hi : stackList[i]? = some stack) : i < 2 ^ 21 := by
  obtain ⟨hlt, -⟩ := List.getElem?_eq_some_iff.mp hi
  exact Nat.lt_trans hlt h.few

/-- A list of the same stacks, each allocated or not and with any count, has the same slots. -/
theorem of_forall (h : Slots stackList) (hlen : stackList'.length ≤ stackList.length)
    (hsame : ∀ (i : Nat) (stack' : Userstack), stackList'[i]? = some stack' →
      ∃ (stack : Userstack) (allocated : Bool) (pagesMapped : Nat), stackList[i]? = some stack ∧
        stack' = { stack with allocated := allocated, pagesMapped := pagesMapped }) :
    Slots stackList' := by
  refine ⟨Nat.lt_of_le_of_lt hlen h.few, fun i stack' hi => ?_⟩
  obtain ⟨stack, allocated, pagesMapped, hstack, rfl⟩ := hsame i stack' hi
  obtain ⟨a, n, rfl⟩ := h.inSlot i stack hstack
  exact ⟨allocated, pagesMapped, rfl⟩

end Slots

/-- A page more is counted for some stack. -/
theorem countPage_getElem? (virtPage : Nat) {stackList : List Userstack} {i : Nat}
    {stack' : Userstack} (h : (countPage virtPage stackList)[i]? = some stack') :
    ∃ stack pagesMapped, stackList[i]? = some stack ∧
      stack' = { stack with pagesMapped := pagesMapped } := by
  induction stackList generalizing i with
  | nil => cases h
  | cons stack rest ih =>
      rw [countPage] at h
      split at h
      · cases i with
        | zero =>
            cases h
            exact ⟨stack, _, rfl, rfl⟩
        | succ i => exact ⟨stack', stack'.pagesMapped, h, rfl⟩
      · cases i with
        | zero =>
            cases h
            exact ⟨_, _, rfl, rfl⟩
        | succ i => exact ih h

theorem countPage_length (virtPage : Nat) (stackList : List Userstack) :
    (countPage virtPage stackList).length = stackList.length := by
  induction stackList with
  | nil => rfl
  | cons stack rest ih =>
      rw [countPage]
      split
      · rfl
      · rw [List.length_cons, ih, List.length_cons]

/-- A fault counts a page of a stack, or it leaves the list alone. -/
theorem Proc.faulted_stackList (proc : Proc) (address : Nat) :
    (proc.faulted address).stackList =
      if proc.stackList.any fun stack => stack.covers (address >>> pageShift) then
        countPage (address >>> pageShift) proc.stackList
      else proc.stackList := by
  rw [faulted]
  split
  · rfl
  · split <;> rfl

theorem pageFault_proc {m m' : PhysMem} {proc proc' : Proc} {address : Nat} {bits : FaultBits}
    {ok : Bool} (h : pageFault m proc address bits = .ret (ok, proc', m')) :
    proc' = proc.faulted address := by
  rw [pageFault_eq] at h
  obtain ⟨r, -, h⟩ := Outcome.bind_eq_ret.mp h
  cases h
  rfl

/-- The stacks that stay are the first of the list. -/
theorem deleteStack_ret {m m' : PhysMem} {proc proc' : Proc} {index : Nat}
    (h : deleteStack m proc index = .ret (proc', m')) :
    ∃ stack, proc.stackList[index]? = some stack ∧
      unwindStack proc.vspace word (wrap64 (stack.startPage + stack.pageCount + minusOne))
        stack.pagesMapped m = .ret m' ∧
      ∃ kept,
        kept <+: proc.stackList.set index { stack with allocated := false, pagesMapped := 0 } ∧
        proc' = { proc with stackList := kept } := by
  rw [deleteStack] at h
  split at h
  · cases h
  · rename_i stack hstack
    obtain ⟨m1, hunwind, h⟩ := Outcome.bind_eq_ret.mp h
    cases h
    exact ⟨stack, hstack, hunwind, _, List.rdropWhile_prefix _ _, rfl⟩

/-- What `create_stack` does: a free slot is taken, or the next one is added. -/
theorem createStack_cases (proc : Proc) :
    (∃ i stack, proc.stackList[i]? = some stack ∧ stack.allocated = false ∧
      createStack proc = ({ stack with allocated := true }, { proc with
        stackList := proc.stackList.modify i fun stack => { stack with allocated := true } })) ∨
    (∀ stack ∈ proc.stackList, stack.allocated = true) ∧
      createStack proc = (newStack proc.stackList.length,
        { proc with stackList := proc.stackList ++ [newStack proc.stackList.length] }) := by
  rw [createStack]
  split
  · rename_i i hfind
    obtain ⟨hlt, hfree, -⟩ := List.findIdx?_eq_some_iff_getElem.mp hfind
    have hstack : proc.stackList[i]? = some proc.stackList[i] := List.getElem?_eq_getElem hlt
    refine .inl ⟨i, proc.stackList[i], hstack, (Bool.not_eq_eq_eq_not).mp hfree, ?_⟩
    simp only [List.getD_eq_getElem?_getD, List.getElem?_modify_eq, hstack]
    rfl
  · rename_i hfind
    refine .inr ⟨fun stack hmem => ?_, rfl⟩
    have hused := List.findIdx?_eq_none_iff.mp hfind stack hmem
    cases hallocated : stack.allocated with
    | true => rfl
    | false =>
        rw [hallocated] at hused
        cases hused

namespace Slots

variable {stackList : List Userstack} {proc proc' : Proc} {m m' : PhysMem}

theorem create (h : Slots proc.stackList) (hfew : (createStack proc).2.stackList.length < 2 ^ 21) :
    Slots (createStack proc).2.stackList := by
  rcases createStack_cases proc with ⟨i, stack, hstack, -, heq⟩ | ⟨-, heq⟩
  · rw [heq]
    refine h.of_forall (List.length_modify _ _ _).le fun j stack' hj => ?_
    rw [List.getElem?_modify] at hj
    obtain ⟨old, hold, rfl⟩ := Option.map_eq_some_iff.mp hj
    split
    · exact ⟨old, true, old.pagesMapped, hold, rfl⟩
    · exact ⟨old, old.allocated, old.pagesMapped, hold, rfl⟩
  · refine ⟨hfew, fun j stack' hj => ?_⟩
    rw [heq] at hj
    simp only [List.getElem?_append] at hj
    split at hj
    · exact h.inSlot j stack' hj
    · rename_i hge
      obtain ⟨hzero, rfl⟩ := List.getElem?_eq_some_iff.mp hj
      rw [List.length_singleton] at hzero
      obtain rfl : j = proc.stackList.length := by omega
      rw [List.getElem_singleton]
      exact ⟨true, 0, rfl⟩

theorem fault (h : Slots proc.stackList) (address : Nat) :
    Slots (proc.faulted address).stackList := by
  rw [Proc.faulted_stackList]
  split
  · refine h.of_forall (countPage_length _ _).le fun i stack' hi => ?_
    obtain ⟨stack, pagesMapped, hstack, rfl⟩ := countPage_getElem? _ hi
    exact ⟨stack, stack.allocated, pagesMapped, hstack, rfl⟩
  · exact h

theorem delete (h : Slots proc.stackList) {index : Nat}
    (hret : deleteStack m proc index = .ret (proc', m')) : Slots proc'.stackList := by
  obtain ⟨stack, hstack, -, kept, hprefix, rfl⟩ := deleteStack_ret hret
  have hlen := hprefix.length_le
  rw [List.length_set] at hlen
  refine h.of_forall hlen fun i stack' hi => ?_
  have hset := getElem?_of_prefix hprefix hi
  rw [List.getElem?_set] at hset
  split at hset
  · rename_i hindex
    split at hset
    · cases hset
      exact ⟨stack, false, 0, hindex ▸ hstack, rfl⟩
    · cases hset
  · exact ⟨stack', stack'.allocated, stack'.pagesMapped, hset, rfl⟩

theorem step {s t : Proc × PhysMem} {call : StackCall} (h : Slots s.1.stackList)
    (hstep : StackStep s call t) : Slots t.1.stackList := by
  cases hstep with
  | create hfew => exact h.create hfew
  | fault _ hret =>
      rw [pageFault_proc hret]
      exact h.fault _
  | delete _ _ hret => exact h.delete hret

theorem run {s t : Proc × PhysMem} {calls : List StackCall} (hempty : s.1.stackList = [])
    (hrun : Run StackStep s calls t) : Slots t.1.stackList := by
  refine hrun.invariant (P := fun s => Slots s.1.stackList) (fun _ _ _ h hstep => h.step hstep) ?_
  rw [hempty]
  exact ⟨by decide, nofun⟩

/-- A stack that is created is in its slot, which no allocated stack was in. -/
theorem created (h : Slots proc.stackList) :
    (createStack proc).2.stackList[(createStack proc).1.index]? = some (createStack proc).1 ∧
      ∀ old : Userstack, proc.stackList[(createStack proc).1.index]? = some old →
        old.allocated = false := by
  rcases createStack_cases proc with ⟨i, stack, hstack, hfree, heq⟩ | ⟨-, heq⟩
  · rw [heq]
    obtain rfl : stack.index = i := (h.inSlot i stack hstack).index_eq
    refine ⟨by simp only [List.getElem?_modify_eq, hstack]; rfl, fun old hold => ?_⟩
    obtain rfl := Option.some.inj (hstack.symm.trans hold)
    exact hfree
  · rw [heq]
    refine ⟨List.getElem?_concat_length, fun old hold => ?_⟩
    obtain ⟨hlt, -⟩ := List.getElem?_eq_some_iff.mp hold
    exact absurd hlt (Nat.lt_irrefl _)

/-- A slot is a slot of guard pages below the one before it. -/
theorem apart (h : Slots stackList) {i j : Nat} {s t : Userstack} (hij : i < j)
    (hs : stackList[i]? = some s) (ht : stackList[j]? = some t) :
    t.startPage + t.pageCount + t.pageCount ≤ s.startPage := by
  have hstarts := (h.inSlot i s hs).startPage_eq (h.lt_of_getElem? hs)
  have hstartt := (h.inSlot j t ht).startPage_eq (h.lt_of_getElem? ht)
  rw [(h.inSlot j t ht).pageCount_eq]
  omega

/-- No stack has a page of a guard. -/
theorem guard (h : Slots stackList) {j : Nat} {t : Userstack}
    (ht : stackList[j]? = some t) {page : Nat} (hlow : t.startPage + t.pageCount ≤ page)
    (hhigh : page < t.startPage + t.pageCount + t.pageCount) :
    ∀ stack ∈ stackList, ¬ stack.Holds page := by
  rintro stack hmem ⟨h1, h2⟩
  obtain ⟨k, hk⟩ := List.mem_iff_getElem?.mp hmem
  rcases Nat.lt_trichotomy k j with hlt | rfl | hlt
  · have := h.apart hlt hk ht
    omega
  · obtain rfl := Option.some.inj (hk.symm.trans ht)
    omega
  · have := h.apart hlt ht hk
    omega

theorem below (h : Slots stackList) {stack : Userstack} (hmem : stack ∈ stackList) :
    stack.startPage + stack.pageCount ≤ userBreak >>> pageShift := by
  obtain ⟨i, hi⟩ := List.mem_iff_getElem?.mp hmem
  have hstart := (h.inSlot i stack hi).startPage_eq (h.lt_of_getElem? hi)
  rw [(h.inSlot i stack hi).pageCount_eq, userBreak, pageShift, Nat.shiftRight_eq_div_pow]
  omega

end Slots

/-- **Every stack has its slot.**  After every run in which stacks are created and deleted, with
page faults in between, a process that had no stack has each one at its index in the list.  Two
slots have as many guard pages between them as each of them has pages, and no stack has one of
these; all are below `USER_BREAK`.  A stack that is created was not allocated, is at its index,
and its pointer is the end of its range. -/
theorem stack_slots {proc proc' : Proc} {m m' : PhysMem} {calls : List StackCall}
    (hempty : proc.stackList = []) (hrun : Run StackStep (proc, m) calls (proc', m')) :
    (∀ (i : Nat) (stack : Userstack), proc'.stackList[i]? = some stack → stack.index = i) ∧
      (∀ stack ∈ proc'.stackList, proc'.stackList[stack.index]? = some stack) ∧
      (∀ (i j : Nat) (s t : Userstack), i < j → proc'.stackList[i]? = some s →
        proc'.stackList[j]? = some t →
        t.startPage + t.pageCount + t.pageCount ≤ s.startPage ∧
        ∀ page, t.startPage + t.pageCount ≤ page →
          page < t.startPage + t.pageCount + t.pageCount →
          ∀ stack ∈ proc'.stackList, ¬ stack.Holds page) ∧
      (∀ stack ∈ proc'.stackList, stack.startPage + stack.pageCount ≤ userBreak >>> pageShift) ∧
      ∀ stack proc'', createStack proc' = (stack, proc'') → proc''.stackList.length < 2 ^ 21 →
        proc''.stackList[stack.index]? = some stack ∧
        (∀ old : Userstack, proc'.stackList[stack.index]? = some old →
          old.allocated = false) ∧
        stack.stackPtr = (stack.startPage + stack.pageCount) * pageSize := by
  have h : Slots proc'.stackList := Slots.run hempty hrun
  have hindex : ∀ (i : Nat) (stack : Userstack), proc'.stackList[i]? = some stack →
      stack.index = i := fun i stack hi => (h.inSlot i stack hi).index_eq
  refine ⟨hindex, fun stack hmem => ?_, fun i j s t hij hs ht => ?_, fun stack => h.below, ?_⟩
  · obtain ⟨i, hi⟩ := List.mem_iff_getElem?.mp hmem
    rw [hindex i stack hi]
    exact hi
  · exact ⟨h.apart hij hs ht, fun page hlow hhigh => h.guard ht hlow hhigh⟩
  · rintro stack proc'' heq hfew
    have hfew' : (createStack proc').2.stackList.length < 2 ^ 21 := by
      rw [heq]
      exact hfew
    have hcreated := h.created
    have hslots := h.create hfew'
    rw [heq] at hcreated hslots
    obtain ⟨hat, hfree⟩ := hcreated
    exact ⟨hat, hfree, (hslots.inSlot _ stack hat).stackPtr_eq (hslots.lt_of_getElem? hat)⟩

/-- The first of two stacks is deleted, and its slot is taken again. -/
theorem stack_slots_reused : ∃ proc',
    Run StackStep (Sbrk.heapProc, emptyMachine)
      [.create, .create, .delete 0, .create] (proc', emptyMachine) ∧
      ∀ (i : Nat) (stack : Userstack), proc'.stackList[i]? = some stack → stack.index = i := by
  let one : Proc := { Sbrk.heapProc with stackList := [newStack 0] }
  let two : Proc := { Sbrk.heapProc with stackList := [newStack 0, newStack 1] }
  let freed : Proc :=
    { Sbrk.heapProc with stackList := [{ newStack 0 with allocated := false }, newStack 1] }
  have hfirst : StackStep (Sbrk.heapProc, emptyMachine) .create (one, emptyMachine) :=
    .create (by decide)
  have hsecond : StackStep (one, emptyMachine) .create (two, emptyMachine) := .create (by decide)
  have hdelete : StackStep (two, emptyMachine) (.delete (newStack 0).index) (freed, emptyMachine) :=
    .delete (.head _) rfl rfl
  have hagain : StackStep (freed, emptyMachine) .create (two, emptyMachine) := .create (by decide)
  have hrun := Run.cons hfirst (.cons hsecond (.cons hdelete (.cons hagain .nil)))
  exact ⟨two, hrun, (stack_slots rfl hrun).1⟩

end UlmerOS
