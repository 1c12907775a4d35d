import UlmerOS.Util.LinkedListRefine

/-!
# A linked list as a queue

`list_pop_front` of `libutil/list.c` with `list_add`.  A payload is a `void*`, and so is what
`list_pop_front` returns, and that is the item and not its payload.  The item was freed before.

The list itself keeps the payloads that were added and not taken off again (`queue_law_iff`).
What a call returns is the payload only where the item stands at the address that the payload
is.
-/

namespace UlmerOS.LinkedList

open Transition

/-- `list_pop_front`. -/
def listPopFront (debug : Bool) (s : ListState Nat) : Outcome (Nat × ListState Nat) := do
  sanityCheck debug s.list
  if s.list.items = 0 then .ret (0, s)
  else do
    let item := s.list.first
    let s ← listRemove debug s 0
    .ret (item, s)

/-- What is done with the list. -/
inductive QueueCall where
  /-- `kmalloc` returned `item`, and `list_add` returned. -/
  | add (item payload : Nat)
  /-- `list_pop_front` returned `ret`. -/
  | popFront (ret : Nat)

/-- The calls that return.  `kmalloc` returns an address that is not in use. -/
inductive QueueStep (debug : Bool) : ListState Nat → QueueCall → ListState Nat → Prop where
  | add {s s' : ListState Nat} {item payload index : Nat} :
      item ≠ 0 → item < word → s.heap item = none →
      listAdd debug s item payload = .ret (index, s') → QueueStep debug s (.add item payload) s'
  | popFront {s s' : ListState Nat} {ret : Nat} :
      listPopFront debug s = .ret (ret, s') → QueueStep debug s (.popFront ret) s'

/-! ## The law of a queue -/

/-- What a call does to the payloads. -/
def queueNext (queue : List Nat) : QueueCall → List Nat
  | .add _ payload => queue ++ [payload]
  | .popFront _ => queue.tail

/-- What is returned is the payload at the front, and `NULL` exactly if there is none. -/
def QueueReturns (queue : List Nat) : QueueCall → Prop
  | .add _ _ => True
  | .popFront ret => ret = queue.headD 0 ∧ (ret = 0 ↔ queue = [])

/-- Every call of a sequence returns what the queue says. -/
def QueueLaw : List Nat → List QueueCall → Prop
  | _, [] => True
  | queue, call :: calls => QueueReturns queue call ∧ QueueLaw (queueNext queue call) calls

/-- The list is empty, or its first item stands at the address that its payload is. -/
def OwnPayload (s : ListState Nat) : QueueCall → Prop
  | .add _ _ => True
  | .popFront _ =>
      s.list.items = 0 ∨ ∃ it, s.heap s.list.first = some it ∧ it.payload = s.list.first

variable {debug : Bool} {s s' t : ListState Nat} {l : List (Node Nat)} {call : QueueCall}
  {calls : List QueueCall}

/-- A call that returns leaves one state behind. -/
theorem QueueStep.eq (h : QueueStep debug s call s') (h' : QueueStep debug s call t) : s' = t := by
  cases h with
  | add _ _ _ hret =>
      cases h' with
      | add _ _ _ hret' =>
          rw [hret] at hret'
          cases hret'
          rfl
  | popFront hret =>
      cases h' with
      | popFront hret' =>
          rw [hret] at hret'
          cases hret'
          rfl

/-- `list_pop_front` returns the address of the first item, and takes it off the list. -/
theorem Rep.popFront (h : Rep s l) :
    ∃ s', listPopFront debug s = .ret (headAddr 0 l, s') ∧ Rep s' l.tail := by
  rw [listPopFront, h.sanity, Outcome.ret_bind, h.items_eq, h.first_eq]
  cases l with
  | nil => exact ⟨s, rfl, h⟩
  | cons x l =>
      obtain ⟨s', hret, hrep⟩ : ∃ s', listRemove debug s 0 = .ret s' ∧ Rep s' l :=
        h.remove (Nat.succ_pos l.length)
      refine ⟨s', ?_, hrep⟩
      rw [List.length_cons, if_neg (Nat.succ_ne_zero l.length), hret]
      rfl

/-- An address without an item is that of no item of the list. -/
theorem Rep.notMem_of_none (h : Rep s l) {item : Nat} (hnone : s.heap item = none) :
    item ∉ addrs l := by
  intro hmem
  obtain ⟨it, hit⟩ := h.linked.isSome hmem
  rw [hnone] at hit
  cases hit

/-- The address of the first item is what a queue returns exactly if it is its payload. -/
theorem Rep.ownPayload_iff (h : Rep s l) :
    OwnPayload s (.popFront (headAddr 0 l)) ↔
      QueueReturns (l.map Prod.snd) (.popFront (headAddr 0 l)) := by
  rw [OwnPayload, QueueReturns, h.items_eq, h.first_eq]
  cases l with
  | nil => exact iff_of_true (.inl rfl) ⟨rfl, iff_of_true rfl rfl⟩
  | cons x l =>
      obtain ⟨a, v⟩ := x
      have hitem : s.heap a = some ⟨headAddr 0 l, 0, v⟩ := h.linked.1
      have ha0 : a ≠ 0 := (h.addr a (by simp)).1
      rw [headAddr_cons, hitem]
      constructor
      · intro hown
        rcases hown with hzero | ⟨it, hit, hpayload⟩
        · cases hzero
        · cases hit
          exact ⟨hpayload.symm, iff_of_false ha0 (List.cons_ne_nil _ _)⟩
      · intro hown
        exact .inr ⟨_, rfl, hown.1.symm⟩

/-- One call does to the payloads what it does to the queue, and returns what the queue says in
one case only. -/
theorem Rep.queueStep (h : Rep s l) (hstep : QueueStep debug s call s') :
    ∃ l', Rep s' l' ∧ l'.map Prod.snd = queueNext (l.map Prod.snd) call ∧
      (QueueReturns (l.map Prod.snd) call ↔ OwnPayload s call) := by
  cases hstep with
  | add h0 hlt hnone hret =>
      obtain ⟨t, hadd, hrep⟩ := h.add (h.notMem_of_none hnone) h0 hlt _
      rw [hret] at hadd
      cases hadd
      refine ⟨_, hrep, ?_, Iff.rfl⟩
      rw [List.map_append]
      rfl
  | popFront hret =>
      obtain ⟨t, hpop, hrep⟩ := h.popFront
      rw [hret] at hpop
      cases hpop
      exact ⟨_, hrep, List.map_tail, h.ownPayload_iff.symm⟩

/-- The same for a sequence of calls. -/
theorem Rep.queueRun (h : Rep s l) (hrun : Run (QueueStep debug) s calls s') :
    (∃ l', Rep s' l' ∧ l'.map Prod.snd = calls.foldl queueNext (l.map Prod.snd)) ∧
      (QueueLaw (l.map Prod.snd) calls ↔
        Run (Guarded (QueueStep debug) OwnPayload) s calls s') := by
  induction hrun generalizing l with
  | nil => exact ⟨⟨l, h, rfl⟩, iff_of_true trivial .nil⟩
  | @cons s t u call calls hstep hrest ih =>
      obtain ⟨l1, hrep, hnext, hreturns⟩ := h.queueStep hstep
      obtain ⟨hkeeps, hlaw⟩ := ih hrep
      rw [hnext] at hkeeps hlaw
      refine ⟨hkeeps, ?_⟩
      rw [QueueLaw, hreturns, hlaw]
      constructor
      · rintro ⟨hown, hguarded⟩
        exact .cons ⟨hstep, hown⟩ hguarded
      · intro hguarded
        cases hguarded with
        | cons hcall hguarded =>
            obtain rfl := hstep.eq hcall.1
            exact ⟨hcall.2, hguarded⟩

/-- Every call returns. -/
theorem Rep.queueReturns (h : Rep s l) :
    (∀ item payload, item ≠ 0 → item < word → s.heap item = none →
      ∃ s', QueueStep debug s (.add item payload) s') ∧
    ∃ ret s', QueueStep debug s (.popFront ret) s' := by
  refine ⟨fun item payload h0 hlt hnone => ?_, ?_⟩
  · obtain ⟨s', hadd, -⟩ : ∃ s', listAdd debug s item payload = .ret (l.length, s') ∧
        Rep s' (l ++ [(item, payload)]) := h.add (h.notMem_of_none hnone) h0 hlt payload
    exact ⟨s', .add h0 hlt hnone hadd⟩
  · obtain ⟨s', hpop, -⟩ := h.popFront
    exact ⟨_, s', .popFront hpop⟩

/-- After any sequence of calls on a new list, the list has the payloads that were added and not
taken off again, in the order in which they were added, and the next call returns.  What the calls
returned are these payloads exactly if every `list_pop_front` found the list empty, or an item at
the address that its payload is. -/
theorem queue_law_iff (debug : Bool) (s0 : ListState Nat) {calls : List QueueCall}
    {s : ListState Nat} (hrun : Run (QueueStep debug) (listInit s0) calls s) :
    (QueueLaw [] calls ↔ Run (Guarded (QueueStep debug) OwnPayload) (listInit s0) calls s) ∧
      (∃ l, Rep s l ∧ l.map Prod.snd = calls.foldl queueNext []) ∧
      (∀ item payload, item ≠ 0 → item < word → s.heap item = none →
        ∃ s', QueueStep debug s (.add item payload) s') ∧
      ∃ ret s', QueueStep debug s (.popFront ret) s' := by
  obtain ⟨⟨l, hrep, hkeeps⟩, hlaw⟩ := (rep_init s0).queueRun hrun
  exact ⟨hlaw, ⟨l, hrep, hkeeps⟩, hrep.queueReturns⟩

/-- The only item of a new list, taken off. -/
theorem run_add_popFront (debug : Bool) (item payload : Nat) (h0 : item ≠ 0)
    (hlt : item < word) :
    ∃ s, Run (QueueStep debug) (listInit ⟨fun _ => none, ⟨0, 0, 0, 0⟩⟩)
      [.add item payload, .popFront item] s := by
  obtain ⟨s1, hadd, hrep⟩ : ∃ s1, listAdd debug (listInit ⟨fun _ => none, ⟨0, 0, 0, 0⟩⟩) item
      payload = .ret (0, s1) ∧ Rep s1 [(item, payload)] :=
    (rep_init _).add List.not_mem_nil h0 hlt payload
  obtain ⟨s2, hpop, -⟩ := hrep.popFront
  exact ⟨s2, .cons (.add h0 hlt rfl hadd) (.cons (.popFront hpop) .nil)⟩

/-- An item that stands at the address that its payload is comes back as its payload. -/
theorem queue_law_iff_own : ∃ s, Run (QueueStep true) (listInit ⟨fun _ => none, ⟨0, 0, 0, 0⟩⟩)
    [.add 0x1000 0x1000, .popFront 0x1000] s ∧
    (QueueLaw [] [.add 0x1000 0x1000, .popFront 0x1000] ↔
      Run (Guarded (QueueStep true) OwnPayload) (listInit ⟨fun _ => none, ⟨0, 0, 0, 0⟩⟩)
        [.add 0x1000 0x1000, .popFront 0x1000] s) := by
  obtain ⟨s, hrun⟩ := run_add_popFront true 0x1000 0x1000 (by decide) (by decide)
  exact ⟨s, hrun, (queue_law_iff true ⟨fun _ => none, ⟨0, 0, 0, 0⟩⟩ hrun).1⟩

/-- The payload `0x42` is added and taken off, and `0x1000` comes back. -/
theorem popFront_returns_item : ∃ s calls,
    Run (QueueStep true) (listInit ⟨fun _ => none, ⟨0, 0, 0, 0⟩⟩) calls s ∧
      calls = [.add 0x1000 0x42, .popFront 0x1000] ∧ ¬ QueueLaw [] calls := by
  obtain ⟨s, hrun⟩ := run_add_popFront true 0x1000 0x42 (by decide) (by decide)
  refine ⟨s, _, hrun, rfl, fun hlaw => ?_⟩
  have hreturns : 0x1000 = [0x42].headD 0 := hlaw.2.1.1
  cases hreturns

end UlmerOS.LinkedList
