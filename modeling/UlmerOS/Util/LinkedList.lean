import UlmerOS.Base
import UlmerOS.Lib.Run
import Mathlib.Data.List.Nodup

/-!
# Linked lists

`libutil/list.c`.  An item has a payload and pointers to its neighbours, and a list has
pointers to its ends and a counter of its items.  Pointers are addresses, and that of
no item is zero.  An address without an item is that of freed memory or of something
else, and following a pointer to it is a fault.

`kmalloc` and `kfree` come from the heap.  What `kmalloc` returned is an argument of
`list_add`, and a freed item is one that is not there any more.  The assertions are
those of the debug build, so that the model is over `debug`.

`Rep` says what a well-formed list is, and which sequence of items it stands for.
-/

namespace UlmerOS.LinkedList

variable {V : Type}

/-- `list_item_t`. -/
structure ListItem (V : Type) where
  next : Nat
  prev : Nat
  payload : V
deriving DecidableEq, Repr

/-- `list_t`. -/
structure ListT where
  items : Nat
  magic : Nat
  first : Nat
  last : Nat
deriving DecidableEq, Repr

/-- The items in memory. -/
abbrev Items (V : Type) := Nat → Option (ListItem V)

/-- A list and the memory of its items. -/
structure ListState (V : Type) where
  heap : Items V
  list : ListT

/-- `LIST_MAGIC`. -/
def listMagic : Nat := 0xabffdeadbeefabff

/-- `SANITY_CHECK`, an assertion. -/
def sanityCheck (debug : Bool) (list : ListT) : Outcome Unit :=
  if debug ∧ list.magic ≠ listMagic then .panic "assert failed: list is invalid or corrupt"
  else .ret ()

/-- Follow a pointer to an item. -/
def deref (heap : Items V) (item : Nat) : Outcome (ListItem V) :=
  match heap item with
  | none => .fault
  | some it => .ret it

/-- `item->next = v`. -/
def setNext (heap : Items V) (item v : Nat) : Outcome (Items V) := do
  let it ← deref heap item
  .ret (Function.update heap item (some { it with next := v }))

/-- `item->prev = v`. -/
def setPrev (heap : Items V) (item v : Nat) : Outcome (Items V) := do
  let it ← deref heap item
  .ret (Function.update heap item (some { it with prev := v }))

/-- `if (item) item->next = v`. -/
def linkNext (heap : Items V) (item v : Nat) : Outcome (Items V) :=
  if item ≠ 0 then setNext heap item v else .ret heap

/-- `if (item) item->prev = v`. -/
def linkPrev (heap : Items V) (item v : Nat) : Outcome (Items V) :=
  if item ≠ 0 then setPrev heap item v else .ret heap

/-! ## The functions -/

/-- `list_init`. -/
def listInit (s : ListState V) : ListState V :=
  { s with list := { items := 0, magic := listMagic, first := 0, last := 0 } }

/-- `list_add`, with the item that `kmalloc` returned. -/
def listAdd (debug : Bool) (s : ListState V) (item : Nat) (payload : V) :
    Outcome (Nat × ListState V) := do
  sanityCheck debug s.list
  let heap := Function.update s.heap item
    (some { next := 0, prev := s.list.last, payload := payload })
  let (heap, list) ←
    if s.list.last ≠ 0 then do
      let heap ← setNext heap s.list.last item
      .ret (heap, s.list)
    else .ret (heap, { s.list with first := item })
  let list := { list with last := item, items := wrap64 (list.items + 1) }
  .ret (wrap64 (list.items + (word - 1)), { heap := heap, list := list })

/-- The loop of `list_get_index`. -/
def getIndexFrom (heap : Items V) (index : Nat) : Nat → Nat → Nat → Outcome Nat
  | 0, _, _ => .hang
  | fuel + 1, item, i =>
      if item = 0 then .ret 0
      else if i = index then .ret item
      else do
        let it ← deref heap item
        getIndexFrom heap index fuel it.next (wrap64 (i + 1))

/-- `list_get_index`.  There are no more items than addresses. -/
def listGetIndex (debug : Bool) (s : ListState V) (index : Nat) : Outcome Nat := do
  sanityCheck debug s.list
  getIndexFrom s.heap index word s.list.first 0

/-- `list_it_remove`. -/
def listItRemove (debug : Bool) (s : ListState V) (item : Nat) : Outcome (ListState V) := do
  sanityCheck debug s.list
  if debug ∧ item = 0 then .panic "assert failed: list iterator is null"
  else do
    let it ← deref s.heap item
    let heap ← linkNext s.heap it.prev it.next
    let it ← deref heap item
    let heap ← linkPrev heap it.next it.prev
    let it ← deref heap item
    let list := if s.list.first = item then { s.list with first := it.next } else s.list
    let list := if list.last = item then { list with last := it.prev } else list
    let list := { list with items := wrap64 (list.items + (word - 1)) }
    .ret { heap := Function.update heap item none, list := list }

/-- `list_remove`. -/
def listRemove (debug : Bool) (s : ListState V) (index : Nat) : Outcome (ListState V) := do
  sanityCheck debug s.list
  let item ← listGetIndex debug s index
  listItRemove debug s item

/-- The loop of `list_clear`. -/
def clearLoop (debug : Bool) : Nat → ListState V → Outcome (ListState V)
  | 0, _ => .hang
  | fuel + 1, s =>
      if s.list.items > 0 then do
        let s ← listRemove debug s 0
        clearLoop debug fuel s
      else .ret s

/-- `list_clear`. -/
def listClear (debug : Bool) (s : ListState V) : Outcome (ListState V) := do
  sanityCheck debug s.list
  clearLoop debug word s

/-- `list_get`. -/
def listGet (debug : Bool) (s : ListState V) (index : Nat) : Outcome (Option V) := do
  sanityCheck debug s.list
  let item ← listGetIndex debug s index
  if item = 0 then .ret none
  else do
    let it ← deref s.heap item
    .ret (some it.payload)

/-- `list_size`. -/
def listSize (debug : Bool) (s : ListState V) : Outcome Nat := do
  sanityCheck debug s.list
  .ret s.list.items

/-- `list_rotate`. -/
def listRotate (debug : Bool) (s : ListState V) : Outcome (ListState V) := do
  sanityCheck debug s.list
  if s.list.items < 2 then .ret s
  else do
    let item := s.list.first
    let it ← deref s.heap item
    let heap ← setPrev s.heap it.next 0
    let heap ← setPrev heap item s.list.last
    let it ← deref heap item
    let list := { s.list with first := it.next }
    let heap ← setNext heap item 0
    let heap ← setNext heap list.last item
    .ret { heap := heap, list := { list with last := item } }

/-- `list_it_get`. -/
def listItGet (s : ListState V) (it : Nat) : Outcome V := do
  let item ← deref s.heap it
  .ret item.payload

/-- `list_it_next`. -/
def listItNext (s : ListState V) (it : Nat) : Outcome Nat := do
  let item ← deref s.heap it
  .ret item.next

/-- `list_it_front`. -/
def listItFront (debug : Bool) (s : ListState V) : Outcome Nat := do
  sanityCheck debug s.list
  .ret s.list.first

/-- `list_it_back`. -/
def listItBack (debug : Bool) (s : ListState V) : Outcome Nat := do
  sanityCheck debug s.list
  .ret s.list.last

/-- The loop of `list_find`. -/
def findFrom [DecidableEq V] (heap : Items V) (payload : V) : Nat → Nat → Outcome Nat
  | 0, _ => .hang
  | fuel + 1, it =>
      if it = 0 then .ret 0
      else do
        let item ← deref heap it
        if item.payload = payload then .ret it else findFrom heap payload fuel item.next

/-- `list_find`. -/
def listFind [DecidableEq V] (debug : Bool) (s : ListState V) (payload : V) : Outcome Nat := do
  sanityCheck debug s.list
  findFrom s.heap payload word s.list.first

/-- `list_destroy`. -/
def listDestroy (debug : Bool) (s : ListState V) : Outcome (ListState V) := do
  sanityCheck debug s.list
  let s ← listClear debug s
  .ret { s with list := { s.list with magic := 0 } }

/-! ## Sequences of items -/

/-- An item and its payload. -/
abbrev Node (V : Type) := Nat × V

/-- The addresses of the items. -/
def addrs (l : List (Node V)) : List Nat := l.map Prod.fst

/-- The address of the first item, or `n` if there is none. -/
def headAddr (n : Nat) : List (Node V) → Nat
  | [] => n
  | x :: _ => x.1

/-- The address of the last item, or `p` if there is none. -/
def lastAddr (p : Nat) : List (Node V) → Nat
  | [] => p
  | x :: l => lastAddr x.1 l

@[simp] theorem addrs_nil : addrs ([] : List (Node V)) = [] := rfl
@[simp] theorem addrs_cons (x : Node V) (l : List (Node V)) : addrs (x :: l) = x.1 :: addrs l := rfl
@[simp] theorem addrs_append (l l' : List (Node V)) : addrs (l ++ l') = addrs l ++ addrs l' :=
  List.map_append

@[simp] theorem headAddr_nil (n : Nat) : headAddr n ([] : List (Node V)) = n := rfl
@[simp] theorem headAddr_cons (n : Nat) (x : Node V) (l : List (Node V)) :
    headAddr n (x :: l) = x.1 := rfl
@[simp] theorem lastAddr_nil (p : Nat) : lastAddr p ([] : List (Node V)) = p := rfl
@[simp] theorem lastAddr_cons (p : Nat) (x : Node V) (l : List (Node V)) :
    lastAddr p (x :: l) = lastAddr x.1 l := rfl

theorem headAddr_append (n : Nat) (l l' : List (Node V)) :
    headAddr n (l ++ l') = headAddr (headAddr n l') l := by
  cases l <;> rfl

@[simp] theorem lastAddr_append (p : Nat) (l l' : List (Node V)) :
    lastAddr p (l ++ l') = lastAddr (lastAddr p l) l' := by
  induction l generalizing p with
  | nil => rfl
  | cons x l ih => exact ih x.1

theorem headAddr_mem {n : Nat} {l : List (Node V)} (h : l ≠ []) : headAddr n l ∈ addrs l := by
  cases l with
  | nil => exact absurd rfl h
  | cons x l => exact List.mem_cons_self

theorem lastAddr_mem {p : Nat} {l : List (Node V)} (h : l ≠ []) : lastAddr p l ∈ addrs l := by
  induction l generalizing p with
  | nil => exact absurd rfl h
  | cons x l ih =>
      cases l with
      | nil => exact List.mem_cons_self
      | cons y l => exact List.mem_cons_of_mem _ (ih (p := x.1) (by simp))

/-! ## Chains -/

/-- The items are linked in both directions, from an item at `prev` to one at `next`. -/
def Linked (heap : Items V) : Nat → List (Node V) → Nat → Prop
  | _, [], _ => True
  | prev, (a, v) :: l, next =>
      heap a = some { next := headAddr next l, prev := prev, payload := v } ∧ Linked heap a l next

theorem linked_append {heap : Items V} {prev next : Nat} {l l' : List (Node V)} :
    Linked heap prev (l ++ l') next ↔
      Linked heap prev l (headAddr next l') ∧ Linked heap (lastAddr prev l) l' next := by
  induction l generalizing prev with
  | nil => exact ⟨fun h => ⟨trivial, h⟩, And.right⟩
  | cons x l ih =>
      obtain ⟨a, v⟩ := x
      simp only [List.cons_append, Linked, ih, headAddr_append, lastAddr_cons, and_assoc]

theorem Linked.congr {heap heap' : Items V} {prev next : Nat} {l : List (Node V)}
    (h : Linked heap prev l next) (hheap : ∀ a ∈ addrs l, heap' a = heap a) :
    Linked heap' prev l next := by
  induction l generalizing prev with
  | nil => trivial
  | cons x l ih =>
      obtain ⟨a, v⟩ := x
      refine ⟨?_, ih h.2 fun b hb => hheap b (List.mem_cons_of_mem a hb)⟩
      rw [hheap a List.mem_cons_self]
      exact h.1

theorem Linked.isSome {heap : Items V} {prev next : Nat} {l : List (Node V)}
    (h : Linked heap prev l next) {a : Nat} (ha : a ∈ addrs l) : ∃ it, heap a = some it := by
  induction l generalizing prev with
  | nil => cases ha
  | cons x l ih =>
      rcases List.mem_cons.mp ha with rfl | ha
      · exact ⟨_, h.1⟩
      · exact ih h.2 ha

/-- The last item of a chain, if there is one, is made to point to another one. -/
theorem Linked.relinkNext {heap : Items V} {next n : Nat} {l : List (Node V)}
    (h : Linked heap 0 l next) (hnodup : (addrs l).Nodup) (hpos : 0 ∉ addrs l) :
    ∃ heap', linkNext heap (lastAddr 0 l) n = .ret heap' ∧
      Linked heap' 0 l n ∧ ∀ a, a ∉ addrs l → heap' a = heap a := by
  rcases List.eq_nil_or_concat' l with rfl | ⟨xs, ⟨a, v⟩, rfl⟩
  · exact ⟨heap, if_neg (fun hne => hne rfl), trivial, fun _ _ => rfl⟩
  · obtain ⟨hxs, ha, -⟩ := linked_append.mp h
    rw [addrs_append, List.nodup_append] at hnodup
    have hnot : a ∉ addrs xs := fun hmem => hnodup.2.2 a hmem a (by simp) rfl
    have ha0 : a ≠ 0 := by
      rintro rfl
      exact hpos (by simp)
    refine ⟨Function.update heap a (some ⟨n, lastAddr 0 xs, v⟩), ?_, linked_append.mpr ⟨?_, ?_⟩, ?_⟩
    · rw [lastAddr_append, lastAddr_cons, lastAddr_nil, linkNext, if_pos ha0, setNext, deref, ha]
      rfl
    · refine hxs.congr fun b hb => Function.update_of_ne ?_ _ _
      rintro rfl
      exact hnot hb
    · exact ⟨Function.update_self _ _ _, trivial⟩
    · intro b hb
      refine Function.update_of_ne ?_ _ _
      rintro rfl
      exact hb (by simp)

/-- The first item of a chain, if there is one, is made to point back to another one. -/
theorem Linked.relinkPrev {heap : Items V} {prev p : Nat} {l : List (Node V)}
    (h : Linked heap prev l 0) (hnodup : (addrs l).Nodup) (hpos : 0 ∉ addrs l) :
    ∃ heap', linkPrev heap (headAddr 0 l) p = .ret heap' ∧
      Linked heap' p l 0 ∧ ∀ a, a ∉ addrs l → heap' a = heap a := by
  cases l with
  | nil => exact ⟨heap, if_neg (fun hne => hne rfl), trivial, fun _ _ => rfl⟩
  | cons x l =>
      obtain ⟨a, v⟩ := x
      obtain ⟨ha, hl⟩ := h
      obtain ⟨hnot, -⟩ := List.nodup_cons.mp hnodup
      have ha0 : a ≠ 0 := by
        rintro rfl
        exact hpos List.mem_cons_self
      refine ⟨Function.update heap a (some ⟨headAddr 0 l, p, v⟩), ?_, ⟨?_, ?_⟩, ?_⟩
      · rw [headAddr_cons, linkPrev, if_pos ha0, setPrev, deref, ha]
        rfl
      · exact Function.update_self _ _ _
      · refine hl.congr fun b hb => Function.update_of_ne ?_ _ _
        rintro rfl
        exact hnot hb
      · intro b hb
        refine Function.update_of_ne ?_ _ _
        rintro rfl
        exact hb List.mem_cons_self

/-- The list is well formed and stands for the items `l`: the ends are the first and the
last of them, neighbours point to each other, no item comes twice, and the counter is
their number. -/
structure Rep (s : ListState V) (l : List (Node V)) : Prop where
  magic_eq : s.list.magic = listMagic
  items_eq : s.list.items = l.length
  first_eq : s.list.first = headAddr 0 l
  last_eq : s.list.last = lastAddr 0 l
  nodup : (addrs l).Nodup
  addr : ∀ a ∈ addrs l, a ≠ 0 ∧ a < word
  linked : Linked s.heap 0 l 0

end UlmerOS.LinkedList
