import UlmerOS.Util.LinkedList
import Mathlib.Order.Interval.Finset.Nat

/-!
# A linked list is a sequence

One lemma for each function: on a list that is well formed and stands for a sequence of
items the function returns, and the list is well formed again and stands for what the
function does to the sequence.  The loops end because there are fewer items than
addresses.

`linked_list_refines` puts this together for every sequence of calls.
-/

namespace UlmerOS.LinkedList

open Transition

variable {V : Type} {debug : Bool} {s : ListState V} {l xs ys : List (Node V)}

/-- There are fewer items than addresses. -/
theorem length_lt_word (hnodup : (addrs l).Nodup) (haddr : ∀ a ∈ addrs l, a ≠ 0 ∧ a < word) :
    l.length < word := by
  have hsub : (addrs l).toFinset ⊆ Finset.Ioo 0 word := by
    intro a ha
    obtain ⟨h0, hlt⟩ := haddr a (List.mem_toFinset.mp ha)
    exact Finset.mem_Ioo.mpr ⟨Nat.pos_of_ne_zero h0, hlt⟩
  have hle := Finset.card_le_card hsub
  rw [List.toFinset_card_of_nodup hnodup, addrs, List.length_map, Nat.card_Ioo] at hle
  have hpos : 0 < word := by decide
  omega

namespace Rep

theorem zero_notMem (h : Rep s l) : 0 ∉ addrs l := fun hmem => (h.addr 0 hmem).1 rfl

theorem length_lt (h : Rep s l) : l.length < word := length_lt_word h.nodup h.addr

theorem sanity (h : Rep s l) : sanityCheck debug s.list = .ret () := by
  rw [sanityCheck, if_neg fun hc => hc.2 h.magic_eq]

/-- An item of the list with what is before and behind it. -/
theorem split {a : Nat} (ha : a ∈ addrs l) : ∃ xs v ys, l = xs ++ (a, v) :: ys := by
  obtain ⟨⟨b, v⟩, hmem, rfl⟩ := List.mem_map.mp ha
  obtain ⟨xs, ys, rfl⟩ := List.append_of_mem hmem
  exact ⟨xs, v, ys, rfl⟩

/-- The fields of an item. -/
theorem item {a : Nat} {v : V} (h : Rep s (xs ++ (a, v) :: ys)) :
    s.heap a = some { next := headAddr 0 ys, prev := lastAddr 0 xs, payload := v } :=
  (linked_append.mp h.linked).2.1

end Rep

/-! ## Making a list -/

theorem rep_init (s : ListState V) : Rep (listInit s) [] :=
  ⟨rfl, rfl, rfl, rfl, List.nodup_nil, nofun, trivial⟩

theorem wrap64_pred {n : Nat} (h0 : 0 < n) (h : n ≤ word) : wrap64 (n + (word - 1)) = n - 1 := by
  rw [wrap64, word] at *
  omega

/-- `list_add` appends an item and returns its index. -/
theorem Rep.add (h : Rep s l) {item : Nat} (hnot : item ∉ addrs l) (h0 : item ≠ 0)
    (hlt : item < word) (payload : V) :
    ∃ s', listAdd debug s item payload = .ret (l.length, s') ∧ Rep s' (l ++ [(item, payload)]) := by
  obtain ⟨heap0, hheap0⟩ : ∃ heap0, heap0 =
      Function.update s.heap item (some ⟨0, s.list.last, payload⟩) := ⟨_, rfl⟩
  have hkeep : ∀ a ∈ addrs l, heap0 a = s.heap a := by
    intro a ha
    rw [hheap0]
    refine Function.update_of_ne ?_ _ _
    rintro rfl
    exact hnot ha
  obtain ⟨heap, hset, hlinked, hframe⟩ :=
    (h.linked.congr hkeep).relinkNext (n := item) h.nodup h.zero_notMem
  rw [← h.last_eq] at hset
  have hitem : heap item = some ⟨0, lastAddr 0 l, payload⟩ := by
    rw [hframe item hnot, hheap0, Function.update_self, h.last_eq]
  have hnodup : (addrs (l ++ [(item, payload)])).Nodup := by
    rw [addrs_append, List.nodup_append]
    refine ⟨h.nodup, List.nodup_singleton item, fun a ha b hb => ?_⟩
    rintro rfl
    obtain rfl := List.mem_singleton.mp hb
    exact hnot ha
  have haddr : ∀ a ∈ addrs (l ++ [(item, payload)]), a ≠ 0 ∧ a < word := by
    intro a ha
    rw [addrs_append, List.mem_append] at ha
    rcases ha with ha | ha
    · exact h.addr a ha
    · obtain rfl := List.mem_singleton.mp ha
      exact ⟨h0, hlt⟩
  have hlen := length_lt_word hnodup haddr
  rw [List.length_append, List.length_singleton] at hlen
  have hitems : wrap64 (s.list.items + 1) = l.length + 1 := by
    rw [h.items_eq, wrap64_of_lt hlen]
  have hindex : wrap64 (l.length + 1 + (word - 1)) = l.length :=
    wrap64_pred (Nat.succ_pos _) (Nat.le_of_lt hlen)
  refine ⟨⟨heap, ⟨l.length + 1, s.list.magic, headAddr 0 (l ++ [(item, payload)]), item⟩⟩, ?_, ?_⟩
  · rw [listAdd, h.sanity, headAddr_append]
    simp only [Outcome.ret_bind, ← hheap0]
    -- the new item is the first one exactly if there is no last one
    by_cases hl : l = []
    · subst hl
      have hlast : s.list.last = 0 := h.last_eq
      rw [linkNext, if_neg (not_not.mpr hlast)] at hset
      rw [if_neg (not_not.mpr hlast)]
      rw [Outcome.ret.inj hset]
      simp only [hitems, hindex, headAddr_nil, headAddr_cons]
    · have hlast : s.list.last ≠ 0 := by
        rw [h.last_eq]
        exact (h.addr _ (lastAddr_mem hl)).1
      rw [linkNext, if_pos hlast] at hset
      rw [if_pos hlast]
      obtain ⟨x, l, rfl⟩ := List.exists_cons_of_ne_nil hl
      simp only [hset, Outcome.ret_bind, hitems, hindex, h.first_eq, headAddr_cons]
  · refine ⟨h.magic_eq, ?_, rfl, ?_, hnodup, haddr, linked_append.mpr ⟨hlinked, hitem, trivial⟩⟩
    · rw [List.length_append, List.length_singleton]
    · rw [lastAddr_append, lastAddr_cons, lastAddr_nil]

/-! ## Removing an item -/

/-- The items before and behind one that comes once. -/
theorem nodup_middle {a : Nat} {v : V} (h : (addrs (xs ++ (a, v) :: ys)).Nodup) :
    a ∉ addrs xs ∧ a ∉ addrs ys ∧ (addrs xs ++ addrs ys).Nodup := by
  rw [addrs_append, addrs_cons] at h
  obtain ⟨hnot, hnodup⟩ := List.nodup_cons.mp (List.perm_middle.nodup_iff.mp h)
  rw [List.mem_append, not_or] at hnot
  exact ⟨hnot.1, hnot.2, hnodup⟩

/-- The first item after one is taken off. -/
theorem headAddr_middle {a : Nat} {v : V} (hnot : a ∉ addrs xs) :
    (if headAddr 0 (xs ++ (a, v) :: ys) = a then headAddr 0 ys
      else headAddr 0 (xs ++ (a, v) :: ys)) = headAddr 0 (xs ++ ys) := by
  cases xs with
  | nil => simp
  | cons x xs =>
      have hne : x.1 ≠ a := by
        rintro rfl
        exact hnot List.mem_cons_self
      simp [hne]

/-- The last item after one is taken off. -/
theorem lastAddr_middle {a : Nat} {v : V} (hnot : a ∉ addrs ys) :
    (if lastAddr 0 (xs ++ (a, v) :: ys) = a then lastAddr 0 xs
      else lastAddr 0 (xs ++ (a, v) :: ys)) = lastAddr 0 (xs ++ ys) := by
  cases ys with
  | nil => simp
  | cons y ys =>
      have hne : lastAddr y.1 ys ≠ a := by
        rintro rfl
        exact hnot (lastAddr_mem (p := 0) (List.cons_ne_nil y ys))
      simp [hne]

/-- The neighbours of an item are linked to each other. -/
theorem Linked.unlink {heap : Items V} {a : Nat} {v : V}
    (h : Linked heap 0 (xs ++ (a, v) :: ys) 0) (hnodup : (addrs (xs ++ (a, v) :: ys)).Nodup)
    (hzero : 0 ∉ addrs (xs ++ (a, v) :: ys)) :
    ∃ heap1 heap2, linkNext heap (lastAddr 0 xs) (headAddr 0 ys) = .ret heap1 ∧
      heap1 a = heap a ∧ linkPrev heap1 (headAddr 0 ys) (lastAddr 0 xs) = .ret heap2 ∧
      heap2 a = heap a ∧ Linked (Function.update heap2 a none) 0 (xs ++ ys) 0 := by
  obtain ⟨hxs, -, hys⟩ := linked_append.mp h
  obtain ⟨hnotx, hnoty, hnodup⟩ := nodup_middle hnodup
  obtain ⟨hxnodup, hynodup, hdisj⟩ := List.nodup_append.mp hnodup
  rw [addrs_append, addrs_cons, List.mem_append, List.mem_cons, not_or, not_or] at hzero
  obtain ⟨hxzero, -, hyzero⟩ := hzero
  -- the item before it
  obtain ⟨heap1, hset1, hxs1, hframe1⟩ := hxs.relinkNext (n := headAddr 0 ys) hxnodup hxzero
  have ha1 : heap1 a = heap a := hframe1 a hnotx
  have hys1 : Linked heap1 a ys 0 :=
    hys.congr fun b hb => hframe1 b fun hbx => hdisj b hbx b hb rfl
  -- the item behind it
  obtain ⟨heap2, hset2, hys2, hframe2⟩ := hys1.relinkPrev (p := lastAddr 0 xs) hynodup hyzero
  have ha2 : heap2 a = heap a := (hframe2 a hnoty).trans ha1
  have hxs2 : Linked heap2 0 xs (headAddr 0 ys) :=
    hxs1.congr fun b hb => hframe2 b fun hby => hdisj b hb b hby rfl
  have hkeep : ∀ b, b ≠ a → Function.update heap2 a none b = heap2 b :=
    fun b hb => Function.update_of_ne hb _ _
  refine ⟨heap1, heap2, hset1, ha1, hset2, ha2,
    linked_append.mpr ⟨hxs2.congr fun b hb => hkeep b ?_, hys2.congr fun b hb => hkeep b ?_⟩⟩
  · rintro rfl
    exact hnotx hb
  · rintro rfl
    exact hnoty hb

/-- `list_it_remove` takes an item off the list. -/
theorem Rep.itRemove {a : Nat} {v : V} (h : Rep s (xs ++ (a, v) :: ys)) :
    ∃ s', listItRemove debug s a = .ret s' ∧ Rep s' (xs ++ ys) := by
  obtain ⟨heap1, heap2, hset1, ha1, hset2, ha2, hlinked⟩ := h.linked.unlink h.nodup h.zero_notMem
  obtain ⟨hnotx, hnoty, hnodup⟩ := nodup_middle h.nodup
  have ha := h.item
  have ha0 : a ≠ 0 := (h.addr a (by simp)).1
  have hlen := h.length_lt
  rw [List.length_append, List.length_cons] at hlen
  have hitems : wrap64 (s.list.items + (word - 1)) = (xs ++ ys).length := by
    rw [h.items_eq, List.length_append, List.length_append, List.length_cons,
      wrap64_pred (by omega) (by omega)]
    omega
  have hfirst : (if s.list.first = a then headAddr 0 ys else s.list.first) =
      headAddr 0 (xs ++ ys) := by
    rw [h.first_eq]
    exact headAddr_middle hnotx
  have hlast : (if s.list.last = a then lastAddr 0 xs else s.list.last) =
      lastAddr 0 (xs ++ ys) := by
    rw [h.last_eq]
    exact lastAddr_middle hnoty
  refine ⟨⟨Function.update heap2 a none, ⟨(xs ++ ys).length, s.list.magic, headAddr 0 (xs ++ ys),
    lastAddr 0 (xs ++ ys)⟩⟩, ?_, h.magic_eq, rfl, rfl, rfl, ?_, ?_, hlinked⟩
  · rw [listItRemove, h.sanity, Outcome.ret_bind, if_neg (fun hc => ha0 hc.2)]
    simp only [deref, ha, Outcome.ret_bind, hset1, ha1, hset2, ha2]
    rw [← hitems, ← hfirst, ← hlast]
    by_cases hf : s.list.first = a
    · by_cases hl : s.list.last = a
      · simp only [if_pos hf, if_pos hl]
      · simp only [if_pos hf, if_neg hl]
    · by_cases hl : s.list.last = a
      · simp only [if_neg hf, if_pos hl]
      · simp only [if_neg hf, if_neg hl]
  · rw [addrs_append]
    exact hnodup
  · intro b hb
    refine h.addr b ?_
    rw [addrs_append, List.mem_append] at hb
    rw [addrs_append, List.mem_append, addrs_cons, List.mem_cons]
    exact hb.imp id .inr

/-- The loop of `list_get_index` finds the item at an index. -/
theorem getIndexFrom_eq {heap : Items V} {prev index fuel i : Nat} (h : Linked heap prev l 0)
    (hzero : 0 ∉ addrs l) (hfuel : l.length < fuel) (hi : i ≤ index) (hlen : i + l.length < word) :
    getIndexFrom heap index fuel (headAddr 0 l) i = .ret (headAddr 0 (l.drop (index - i))) := by
  induction l generalizing prev fuel i with
  | nil =>
      obtain ⟨fuel, rfl⟩ : ∃ f, fuel = f + 1 := ⟨fuel - 1, by simp at hfuel; omega⟩
      rw [getIndexFrom, headAddr_nil, if_pos rfl, List.drop_nil]
      rfl
  | cons x l ih =>
      obtain ⟨a, v⟩ := x
      obtain ⟨ha, hl⟩ := h
      rw [List.length_cons] at hfuel hlen
      rw [addrs_cons, List.mem_cons, not_or] at hzero
      obtain ⟨fuel, rfl⟩ : ∃ f, fuel = f + 1 := ⟨fuel - 1, by omega⟩
      rw [getIndexFrom, headAddr_cons, if_neg fun he => hzero.1 he.symm]
      by_cases hii : i = index
      · rw [if_pos hii, hii, Nat.sub_self]
        rfl
      · rw [if_neg hii, deref, ha, Outcome.ret_bind, wrap64_of_lt (by omega),
          ih hl hzero.2 (by omega) (by omega) (by omega)]
        rw [show index - i = index - (i + 1) + 1 by omega, List.drop_succ_cons]

theorem Rep.getIndex (h : Rep s l) (index : Nat) :
    listGetIndex debug s index = .ret (headAddr 0 (l.drop index)) := by
  rw [listGetIndex, h.sanity, Outcome.ret_bind, h.first_eq,
    getIndexFrom_eq h.linked h.zero_notMem h.length_lt (Nat.zero_le index)
      (by rw [Nat.zero_add]; exact h.length_lt), Nat.sub_zero]

/-- `list_remove` deletes what is at an index. -/
theorem Rep.remove (h : Rep s l) {index : Nat} (hindex : index < l.length) :
    ∃ s', listRemove debug s index = .ret s' ∧ Rep s' (l.eraseIdx index) := by
  have hsplit : l = l.take index ++ (l[index].1, l[index].2) :: l.drop (index + 1) := by
    rw [← List.drop_eq_getElem_cons hindex, List.take_append_drop]
  have hhead : headAddr 0 (l.drop index) = l[index].1 := by
    rw [List.drop_eq_getElem_cons hindex, headAddr_cons]
  obtain ⟨s', hret, hrep⟩ : ∃ s', listItRemove debug s l[index].1 = .ret s' ∧
      Rep s' (l.take index ++ l.drop (index + 1)) := Rep.itRemove (hsplit ▸ h)
  refine ⟨s', ?_, ?_⟩
  · rw [listRemove, h.sanity, Outcome.ret_bind, h.getIndex, Outcome.ret_bind, hhead]
    exact hret
  · rw [List.eraseIdx_eq_take_drop_succ]
    exact hrep

/-- `list_clear` ends with the empty list. -/
theorem Rep.clear (h : Rep s l) : ∃ s', listClear debug s = .ret s' ∧ Rep s' [] := by
  have hloop : ∀ (l : List (Node V)) (s : ListState V) (fuel : Nat), Rep s l → l.length < fuel →
      ∃ s', clearLoop debug fuel s = .ret s' ∧ Rep s' [] := by
    intro l
    induction l with
    | nil =>
        intro s fuel h hfuel
        obtain ⟨fuel, rfl⟩ : ∃ f, fuel = f + 1 := ⟨fuel - 1, by simp at hfuel; omega⟩
        refine ⟨s, ?_, h⟩
        rw [clearLoop, if_neg]
        rw [h.items_eq]
        exact Nat.lt_irrefl 0
    | cons x l ih =>
        intro s fuel h hfuel
        rw [List.length_cons] at hfuel
        obtain ⟨fuel, rfl⟩ : ∃ f, fuel = f + 1 := ⟨fuel - 1, by omega⟩
        obtain ⟨s1, hret, hrep⟩ : ∃ s1, listRemove debug s 0 = .ret s1 ∧ Rep s1 l :=
          h.remove (Nat.succ_pos l.length)
        obtain ⟨s2, hret2, hrep2⟩ := ih s1 fuel hrep (by omega)
        refine ⟨s2, ?_, hrep2⟩
        rw [clearLoop, if_pos, hret, Outcome.ret_bind, hret2]
        rw [h.items_eq]
        exact Nat.succ_pos l.length
  obtain ⟨s', hret, hrep⟩ := hloop l s word h h.length_lt
  exact ⟨s', by rw [listClear, h.sanity, Outcome.ret_bind, hret], hrep⟩

/-- `list_destroy` leaves a list that no function accepts any more. -/
theorem Rep.destroy (h : Rep s l) :
    ∃ s', listDestroy debug s = .ret s' ∧ s'.list.items = 0 ∧
      sanityCheck true s'.list = .panic "assert failed: list is invalid or corrupt" := by
  obtain ⟨s1, hret, hrep⟩ : ∃ s1, listClear debug s = .ret s1 ∧ Rep s1 [] := h.clear
  refine ⟨{ s1 with list := { s1.list with magic := 0 } }, ?_, hrep.items_eq, ?_⟩
  · rw [listDestroy, h.sanity, Outcome.ret_bind, hret, Outcome.ret_bind]
  · exact if_pos ⟨rfl, show (0 : Nat) ≠ listMagic by decide⟩

/-! ## Rotating -/

/-- The first item goes to the end. -/
def rotate : List (Node V) → List (Node V)
  | [] => []
  | x :: l => l ++ [x]

/-- `list_rotate` on a list of two items or more. -/
theorem Rep.rotate_two {x y : Node V} (h : Rep s (x :: y :: l)) :
    ∃ s', listRotate debug s = .ret s' ∧ Rep s' (y :: l ++ [x]) := by
  obtain ⟨a, v⟩ := x
  obtain ⟨ha, hl⟩ := h.linked
  have hnodup := h.nodup
  rw [addrs_cons, List.nodup_cons] at hnodup
  obtain ⟨hnot, hnodup⟩ := hnodup
  have hzero := h.zero_notMem
  rw [addrs_cons, List.mem_cons, not_or] at hzero
  have hhead : headAddr 0 (y :: l) ≠ 0 := by
    intro he
    exact hzero.2 (he ▸ headAddr_mem (List.cons_ne_nil y l))
  have hlastmem : lastAddr 0 (y :: l) ∈ addrs (y :: l) := lastAddr_mem (List.cons_ne_nil y l)
  have hlast : lastAddr 0 (y :: l) ≠ 0 := by
    intro he
    exact hzero.2 (he ▸ hlastmem)
  -- the second item is the first one now
  obtain ⟨heap1, hset1, hl1, hframe1⟩ := hl.relinkPrev (p := 0) hnodup hzero.2
  rw [linkPrev, if_pos hhead] at hset1
  have ha1 : heap1 a = some ⟨headAddr 0 (y :: l), 0, v⟩ := (hframe1 a hnot).trans ha
  have hlast_eq : s.list.last = lastAddr 0 (y :: l) := h.last_eq
  -- the old first item is not linked to it any more
  obtain ⟨heap2, hheap2⟩ : ∃ heap2, heap2 =
      Function.update heap1 a (some ⟨headAddr 0 (y :: l), lastAddr 0 (y :: l), v⟩) := ⟨_, rfl⟩
  obtain ⟨heap3, hheap3⟩ : ∃ heap3, heap3 =
      Function.update heap2 a (some ⟨0, lastAddr 0 (y :: l), v⟩) := ⟨_, rfl⟩
  have ha2 : heap2 a = some ⟨headAddr 0 (y :: l), lastAddr 0 (y :: l), v⟩ := by
    rw [hheap2, Function.update_self]
  have ha3 : heap3 a = some ⟨0, lastAddr 0 (y :: l), v⟩ := by rw [hheap3, Function.update_self]
  have hl3 : Linked heap3 0 (y :: l) 0 := by
    refine hl1.congr fun b hb => ?_
    have hne : b ≠ a := by
      rintro rfl
      exact hnot hb
    rw [hheap3, Function.update_of_ne hne, hheap2, Function.update_of_ne hne]
  -- the old last item is linked to it
  obtain ⟨heap4, hset4, hl4, hframe4⟩ := hl3.relinkNext (n := a) hnodup hzero.2
  rw [linkNext, if_pos hlast] at hset4
  have ha4 : heap4 a = some ⟨0, lastAddr 0 (y :: l), v⟩ := (hframe4 a hnot).trans ha3
  have hset2 : setPrev heap1 a (lastAddr 0 (y :: l)) = .ret heap2 := by
    rw [setPrev, deref, ha1, hheap2]
    rfl
  have hset3 : setNext heap2 a 0 = .ret heap3 := by
    rw [setNext, deref, ha2, hheap3]
    rfl
  have hperm : (y :: l ++ [(a, v)]).Perm ((a, v) :: y :: l) := List.perm_append_singleton _ _
  refine ⟨⟨heap4, ⟨s.list.items, s.list.magic, headAddr 0 (y :: l), a⟩⟩, ?_,
    h.magic_eq, ?_, ?_, ?_, ?_, ?_, linked_append.mpr ⟨hl4, ha4, trivial⟩⟩
  · have hitems : ¬ s.list.items < 2 := by
      rw [h.items_eq, List.length_cons, List.length_cons]
      omega
    have hfirst : s.list.first = a := h.first_eq
    rw [listRotate, h.sanity, Outcome.ret_bind, if_neg hitems]
    simp only [hfirst, hlast_eq, deref, ha, Outcome.ret_bind, hset1, hset2, ha2, hset3, hset4]
  · rw [h.items_eq]
    exact hperm.length_eq.symm
  · rw [headAddr_append]
    rfl
  · rw [lastAddr_append]
    rfl
  · exact (hperm.map Prod.fst).nodup_iff.mpr h.nodup
  · exact fun b hb => h.addr b ((hperm.map Prod.fst).mem_iff.mp hb)

/-- `list_rotate`, which does nothing on a list of less than two items. -/
theorem Rep.rotate (h : Rep s l) : ∃ s', listRotate debug s = .ret s' ∧ Rep s' (rotate l) := by
  match l, h with
  | [], h =>
      refine ⟨s, ?_, h⟩
      rw [listRotate, h.sanity, Outcome.ret_bind, if_pos]
      rw [h.items_eq]
      exact Nat.zero_lt_two
  | [x], h =>
      refine ⟨s, ?_, h⟩
      rw [listRotate, h.sanity, Outcome.ret_bind, if_pos]
      rw [h.items_eq]
      exact Nat.lt_succ_self 1
  | x :: y :: l, h => exact h.rotate_two

/-! ## Reading a list -/

/-- `list_get` reads the payload at an index. -/
theorem Rep.get (h : Rep s l) (index : Nat) :
    listGet debug s index = .ret (l[index]?.map Prod.snd) := by
  rw [listGet, h.sanity, Outcome.ret_bind, h.getIndex, Outcome.ret_bind]
  by_cases hindex : index < l.length
  · have hsplit : l = l.take index ++ (l[index].1, l[index].2) :: l.drop (index + 1) := by
      rw [← List.drop_eq_getElem_cons hindex, List.take_append_drop]
    have hitem := Rep.item (hsplit ▸ h)
    have h0 : l[index].1 ≠ 0 := (h.addr _ (List.mem_map_of_mem (List.getElem_mem hindex))).1
    rw [List.drop_eq_getElem_cons hindex, headAddr_cons, if_neg h0, deref, hitem,
      List.getElem?_eq_getElem hindex]
    rfl
  · rw [List.drop_eq_nil_of_le (by omega), headAddr_nil, if_pos rfl,
      List.getElem?_eq_none (by omega)]
    rfl

/-- The items from the first one with a payload on. -/
def fromPayload [DecidableEq V] (payload : V) : List (Node V) → List (Node V)
  | [] => []
  | x :: l => if x.2 = payload then x :: l else fromPayload payload l

/-- They begin with that item, and no item before it has the payload. -/
theorem fromPayload_split [DecidableEq V] {payload : V} (h : payload ∈ l.map Prod.snd) :
    ∃ xs a ys, l = xs ++ (a, payload) :: ys ∧ payload ∉ xs.map Prod.snd ∧
      fromPayload payload l = (a, payload) :: ys := by
  induction l with
  | nil => cases h
  | cons x l ih =>
      obtain ⟨a, v⟩ := x
      by_cases hv : v = payload
      · subst hv
        exact ⟨[], a, l, rfl, List.not_mem_nil, by rw [fromPayload, if_pos rfl]⟩
      · obtain ⟨xs, b, ys, rfl, hnot, hfrom⟩ :=
          ih ((List.mem_cons.mp h).resolve_left fun he => hv he.symm)
        refine ⟨(a, v) :: xs, b, ys, rfl, ?_, by rw [fromPayload, if_neg hv, hfrom]⟩
        rw [List.map_cons, List.mem_cons, not_or]
        exact ⟨fun he => hv he.symm, hnot⟩

/-- The loop of `list_find` finds the first item with a payload. -/
theorem findFrom_eq [DecidableEq V] {heap : Items V} {prev fuel : Nat} (payload : V)
    (h : Linked heap prev l 0) (hzero : 0 ∉ addrs l) (hfuel : l.length < fuel) :
    findFrom heap payload fuel (headAddr 0 l) = .ret (headAddr 0 (fromPayload payload l)) := by
  induction l generalizing prev fuel with
  | nil =>
      obtain ⟨fuel, rfl⟩ : ∃ f, fuel = f + 1 := ⟨fuel - 1, by simp at hfuel; omega⟩
      rw [findFrom, headAddr_nil, if_pos rfl]
      rfl
  | cons x l ih =>
      obtain ⟨a, v⟩ := x
      obtain ⟨ha, hl⟩ := h
      rw [List.length_cons] at hfuel
      rw [addrs_cons, List.mem_cons, not_or] at hzero
      obtain ⟨fuel, rfl⟩ : ∃ f, fuel = f + 1 := ⟨fuel - 1, by omega⟩
      rw [findFrom, headAddr_cons, if_neg fun he => hzero.1 he.symm, deref, ha, Outcome.ret_bind,
        fromPayload]
      by_cases hv : v = payload
      · rw [if_pos hv, if_pos hv, headAddr_cons]
      · rw [if_neg hv, if_neg hv, ih hl hzero.2 (by omega)]

theorem Rep.find [DecidableEq V] (h : Rep s l) (payload : V) :
    listFind debug s payload = .ret (headAddr 0 (fromPayload payload l)) := by
  rw [listFind, h.sanity, Outcome.ret_bind, h.first_eq,
    findFrom_eq payload h.linked h.zero_notMem h.length_lt]

/-- Iterating from the front goes through the items in order and ends with `NULL`. -/
theorem Rep.iterate (h : Rep s l) {index : Nat} (hindex : index < l.length) :
    listItGet s l[index].1 = .ret l[index].2 ∧
      listItNext s l[index].1 = .ret (headAddr 0 (l.drop (index + 1))) := by
  have hsplit : l = l.take index ++ (l[index].1, l[index].2) :: l.drop (index + 1) := by
    rw [← List.drop_eq_getElem_cons hindex, List.take_append_drop]
  have hitem := Rep.item (hsplit ▸ h)
  rw [listItGet, listItNext, deref, hitem]
  exact ⟨rfl, rfl⟩

/-! ## Calls -/

/-- The calls that change a list. -/
inductive ListCall (V : Type) where
  | init
  /-- `kmalloc` returned `item`, and `list_add` returned `index`. -/
  | add (item : Nat) (payload : V) (index : Nat)
  | remove (index : Nat)
  | itRemove (item : Nat)
  | rotate
  | clear

/-- What the calls do to the sequence of items.  An index is in range, an iterator is that
of an item of the list, and `kmalloc` returns an address that is not in use. -/
inductive SeqStep : List (Node V) → ListCall V → List (Node V) → Prop where
  | init {l : List (Node V)} : SeqStep l .init []
  | add {l : List (Node V)} {item : Nat} {payload : V} : item ≠ 0 → item < word → item ∉ addrs l →
      SeqStep l (.add item payload l.length) (l ++ [(item, payload)])
  | remove {l : List (Node V)} {index : Nat} : index < l.length →
      SeqStep l (.remove index) (l.eraseIdx index)
  | itRemove {xs ys : List (Node V)} {item : Nat} {payload : V} :
      SeqStep (xs ++ (item, payload) :: ys) (.itRemove item) (xs ++ ys)
  | rotate {l : List (Node V)} : SeqStep l .rotate (LinkedList.rotate l)
  | clear {l : List (Node V)} : SeqStep l .clear []

/-- The calls that return. -/
inductive ListStep (debug : Bool) : ListState V → ListCall V → ListState V → Prop where
  | init {s : ListState V} : ListStep debug s .init (listInit s)
  | add {s s' : ListState V} {item : Nat} {payload : V} {index : Nat} :
      listAdd debug s item payload = .ret (index, s') →
      ListStep debug s (.add item payload index) s'
  | remove {s s' : ListState V} {index : Nat} :
      listRemove debug s index = .ret s' → ListStep debug s (.remove index) s'
  | itRemove {s s' : ListState V} {item : Nat} :
      listItRemove debug s item = .ret s' → ListStep debug s (.itRemove item) s'
  | rotate {s s' : ListState V} : listRotate debug s = .ret s' → ListStep debug s .rotate s'
  | clear {s s' : ListState V} : listClear debug s = .ret s' → ListStep debug s .clear s'

/-- One call returns and does to the list what it does to the sequence. -/
theorem Rep.step {l' : List (Node V)} {call : ListCall V} (h : Rep s l)
    (hstep : SeqStep l call l') :
    ∃ s', ListStep debug s call s' ∧ Rep s' l' := by
  cases hstep with
  | init => exact ⟨_, .init, rep_init s⟩
  | add h0 hlt hnot =>
      obtain ⟨s', hret, hrep⟩ := h.add hnot h0 hlt _
      exact ⟨s', .add hret, hrep⟩
  | remove hindex =>
      obtain ⟨s', hret, hrep⟩ := h.remove hindex
      exact ⟨s', .remove hret, hrep⟩
  | itRemove =>
      obtain ⟨s', hret, hrep⟩ := h.itRemove
      exact ⟨s', .itRemove hret, hrep⟩
  | rotate =>
      obtain ⟨s', hret, hrep⟩ := h.rotate
      exact ⟨s', .rotate hret, hrep⟩
  | clear =>
      obtain ⟨s', hret, hrep⟩ := h.clear
      exact ⟨s', .clear hret, hrep⟩

theorem Rep.run {l' : List (Node V)} {calls : List (ListCall V)} (h : Rep s l)
    (hrun : Run SeqStep l calls l') : ∃ s', Run (ListStep debug) s calls s' ∧ Rep s' l' := by
  induction hrun generalizing s with
  | nil => exact ⟨s, .nil, h⟩
  | cons hstep _ ih =>
      obtain ⟨s1, hstep1, hrep1⟩ := h.step hstep
      obtain ⟨s2, hrun2, hrep2⟩ := ih hrep1
      exact ⟨s2, .cons hstep1 hrun2, hrep2⟩

/-- What the reading functions return for a sequence of items. -/
structure Reads [DecidableEq V] (debug : Bool) (s : ListState V) (l : List (Node V)) : Prop where
  size : listSize debug s = .ret l.length
  get : ∀ index, listGet debug s index = .ret (l[index]?.map Prod.snd)
  find : ∀ payload, listFind debug s payload = .ret (headAddr 0 (fromPayload payload l))
  front : listItFront debug s = .ret (headAddr 0 l)
  back : listItBack debug s = .ret (lastAddr 0 l)
  payload : ∀ index (h : index < l.length), listItGet s l[index].1 = .ret l[index].2
  next : ∀ index (h : index < l.length),
    listItNext s l[index].1 = .ret (headAddr 0 (l.drop (index + 1)))

theorem Rep.reads [DecidableEq V] (h : Rep s l) : Reads debug s l where
  size := by rw [listSize, h.sanity, Outcome.ret_bind, h.items_eq]
  get := h.get
  find := h.find
  front := by rw [listItFront, h.sanity, Outcome.ret_bind, h.first_eq]
  back := by rw [listItBack, h.sanity, Outcome.ret_bind, h.last_eq]
  payload := fun _ hindex => (h.iterate hindex).1
  next := fun _ hindex => (h.iterate hindex).2

/-- **A linked list refines a sequence.**  Every sequence of calls that begins with
`list_init` returns, whatever the memory was before.  The list is then well formed, the
sequence of its items is the one that the calls make, and reading it, searching it and
iterating over it agree with that sequence. -/
theorem linked_list_refines [DecidableEq V] (debug : Bool) (s : ListState V)
    {l : List (Node V)} {calls : List (ListCall V)} (hrun : Run SeqStep [] calls l) :
    ∃ s', Run (ListStep debug) s (.init :: calls) s' ∧ Rep s' l ∧ Reads debug s' l := by
  obtain ⟨s', hrun', hrep⟩ := (rep_init s).run hrun
  exact ⟨s', .cons .init hrun', hrep, hrep.reads⟩

/-- Three items are added, the list is rotated, and the one in the middle is removed. -/
theorem linked_list_refines_three_items : ∃ s' : ListState Nat,
    Run (ListStep true) ⟨fun _ => none, ⟨7, 7, 7, 7⟩⟩
      [.init, .add 0x10 1 0, .add 0x20 2 1, .add 0x30 3 2, .rotate, .itRemove 0x30] s' ∧
      Rep s' [(0x20, 2), (0x10, 1)] := by
  have hrun : Run SeqStep []
      [.add 0x10 1 0, .add 0x20 2 1, .add 0x30 3 2, .rotate, .itRemove 0x30]
      [(0x20, 2), (0x10, 1)] := by
    refine .cons (.add (by decide) (by decide) (by decide))
      (.cons (.add (by decide) (by decide) (by decide))
      (.cons (.add (by decide) (by decide) (by decide)) (.cons .rotate (.cons ?_ .nil))))
    have hmiddle : SeqStep ([(0x20, 2)] ++ (0x30, 3) :: [(0x10, 1)]) (.itRemove 0x30)
        ([(0x20, 2)] ++ [(0x10, 1)]) := .itRemove
    exact hmiddle
  obtain ⟨s', hrun', hrep, -⟩ := linked_list_refines true ⟨fun _ => none, ⟨7, 7, 7, 7⟩⟩ hrun
  exact ⟨s', hrun', hrep⟩

end UlmerOS.LinkedList
