import UlmerOS.Mm.HeapRun

/-!
# The heap is given back

`crop` leaves an available block in front of one that is not, because the block it cuts
has no available neighbour and is not the last.  `kfree` merges what it frees with both
neighbours and gives the end of the heap back.  So no two neighbours are available after
any run, nor is the last block (`Coalesced`), and a heap without a live block has no
block at all: when everything was freed, in whatever order, the break is where it was.

A size that wraps around with the header is the exception, as `_kmalloc` does not check
for it.
-/

namespace UlmerOS

open ByteMem Tiling Transition

variable {debug : Bool} {kernel : Vspace} {s : HeapState} {bs : List Block}

/-- What the headers say of a heap without available neighbours. -/
theorem Coalesced.headers {h : Heap} (hco : Coalesced bs) (hr : Rep debug h bs) :
    (∀ a b, At Block.size kheapStart bs a b → h.available a ≠ 0 →
      h.next a ≠ 0 ∧ h.available (h.next a) = 0) ∧
    (h.last ≠ 0 → h.available h.last = 0) := by
  have hzero : ∀ b : Block, b.live.isSome = true → b.available = 0 := fun b hb => if_pos hb
  constructor
  · rintro a b ⟨xs, ys, rfl, rfl⟩ hav
    obtain ⟨-, hb, hys⟩ := chain_append.mp hr.chain
    have hdead : b.live.isSome ≠ true := by
      intro hlive
      exact hav (hb.available.trans (hzero b hlive))
    rw [show h.next (kheapStart + total Block.size xs) = _ from hb.next_eq]
    cases ys with
    | nil => exact absurd (hco.last_live b (by simp)) hdead
    | cons c ys =>
        have hs := (separate_split.mp hco.separate).2
        have hc : c.live.isSome = true := (List.isChain_cons_cons.mp hs).1.resolve_left hdead
        rw [headAddr_cons, Nat.add_assoc]
        refine ⟨kheapStart_pos _, ?_⟩
        rw [← Nat.add_assoc]
        exact hys.1.available.trans (hzero c hc)
  · intro hlast
    rcases List.eq_nil_or_concat' bs with rfl | ⟨xs, b, rfl⟩
    · exact absurd hr.last_eq hlast
    · rw [hr.last_eq, lastAddr_concat]
      exact hr.chain.header.available.trans (hzero b (hco.last_live b (by simp)))

/-- Without a live block there is no block. -/
theorem HeapInv.eq_nil (hinv : HeapInv debug s bs) (hco : Coalesced bs)
    (hlive : ∀ p, s.live p = none) : bs = [] := by
  rcases List.eq_nil_or_concat' bs with hnil | ⟨xs, b, rfl⟩
  · exact hnil
  · have hb := hco.last_live b (by simp)
    obtain ⟨r, hr⟩ := Option.isSome_iff_exists.mp hb
    have hlast : LiveAt kheapStart (xs ++ [b]) (kheapStart + total Block.size xs) b :=
      ⟨at_block xs b [], hb⟩
    have hsome := (hinv.live_iff _ r).mpr ⟨_, b, hlast, hr, rfl⟩
    rw [hlive] at hsome
    cases hsome

/-- `kfree` of a live pointer. -/
theorem HeapInv.free (kernel : Vspace) (hinv : HeapInv debug s bs) (hco : Coalesced bs) {p : Nat}
    (hp : s.live p ≠ none) :
    ∃ h bs', s.heap.kfree debug kernel p = .ret h ∧
      HeapInv debug ⟨h, Function.update s.live p none⟩ bs' ∧ Coalesced bs' := by
  obtain ⟨-, h, bs', -, hret, -, hinv', hco'⟩ := hinv.kfree_live kernel hp
  exact ⟨h, bs', hret, hinv', hco' hco.separate⟩

/-- `kfree` of live pointers, one after the other. -/
theorem HeapInv.free_all (kernel : Vspace) {order : List Nat} (hinv : HeapInv debug s bs)
    (hco : Coalesced bs) (hnodup : order.Nodup) (hlive : ∀ p ∈ order, s.live p ≠ none) :
    ∃ h live bs', order.foldlM (Heap.kfree debug kernel) s.heap = .ret h ∧
      HeapInv debug ⟨h, live⟩ bs' ∧ Coalesced bs' ∧
      ∀ p, live p = if p ∈ order then none else s.live p := by
  induction order generalizing s bs with
  | nil => exact ⟨s.heap, s.live, bs, rfl, hinv, hco, fun p => by simp⟩
  | cons q order ih =>
      obtain ⟨hq, hnodup⟩ := List.nodup_cons.mp hnodup
      obtain ⟨h1, bs1, hret, hinv1, hco1⟩ := hinv.free kernel hco (hlive q List.mem_cons_self)
      have hrest : ∀ p ∈ order, Function.update s.live q none p ≠ none := by
        intro p hp
        have hpq : p ≠ q := by
          rintro rfl
          exact hq hp
        rw [Function.update_of_ne hpq]
        exact hlive p (List.mem_cons_of_mem q hp)
      obtain ⟨h, live, bs', hall, hinv', hco', hnone⟩ := ih hinv1 hco1 hnodup hrest
      refine ⟨h, live, bs', ?_, hinv', hco', fun p => ?_⟩
      · rw [List.foldlM_cons, hret, Outcome.ret_bind]
        exact hall
      · rw [hnone p]
        by_cases hpq : p = q
        · simp [hpq]
        · simp [hpq]

/-- **The heap is coalesced and given back.**  After every run no available block has an
available block behind it, and the last block is not available.  Freeing all that is
live, in any order, leaves the heap empty and the break at `KHEAP_START`. -/
theorem kheap_coalesced {mem : Mem} {phys : PhysMem} {calls : List HeapCall}
    (hrun : Run (HeapStep debug kernel) (HeapState.empty mem phys) calls s) :
    ∃ bs, Rep debug s.heap bs ∧
      (∀ a b, At Block.size kheapStart bs a b → s.heap.available a ≠ 0 →
        s.heap.next a ≠ 0 ∧ s.heap.available (s.heap.next a) = 0) ∧
      (s.heap.last ≠ 0 → s.heap.available s.heap.last = 0) ∧
      ∀ order : List Nat, order.Nodup → (∀ p, p ∈ order ↔ s.live p ≠ none) →
        ∃ h, order.foldlM (Heap.kfree debug kernel) s.heap = .ret h ∧
          h.start = 0 ∧ h.last = 0 ∧ h.brk = kheapStart := by
  obtain ⟨bs, hinv, hco⟩ := heapRun_inv hrun
  obtain ⟨hnext, hlast⟩ := hco.headers hinv.rep
  refine ⟨bs, hinv.rep, hnext, hlast, fun order hnodup hall => ?_⟩
  obtain ⟨h, live, bs', hret, hinv', hco', hlive⟩ :=
    hinv.free_all kernel hco hnodup (fun p hp => (hall p).mp hp)
  have hnone : ∀ p, live p = none := by
    intro p
    rw [hlive p]
    split
    · rfl
    · rename_i hp
      by_contra hne
      exact hp ((hall p).mpr hne)
  obtain rfl := hinv'.eq_nil hco' hnone
  exact ⟨h, hret, hinv'.rep.start_eq, hinv'.rep.last_eq, hinv'.rep.brk_eq⟩

/-- Two blocks of the debug build, and the first one freed first. -/
theorem kheap_coalesced_two_blocks : ∃ (s : HeapState) (h : Heap),
    s.live (kheapStart + 44) = some 72 ∧ s.live (kheapStart + 160) = some 100 ∧
      [kheapStart + 44, kheapStart + 160].foldlM (Heap.kfree true ⟨0⟩) s.heap = .ret h ∧
      h.start = 0 ∧ h.last = 0 ∧ h.brk = kheapStart := by
  obtain ⟨h2, hrun⟩ := two_blocks_run
  obtain ⟨-, -, -, -, hfree⟩ := kheap_coalesced hrun
  obtain ⟨h, hret, hstart, hlast, hbrk⟩ := hfree [kheapStart + 44, kheapStart + 160] (by decide) (by
    intro p
    by_cases hp : p = kheapStart + 160
    · simp [hp]
    · by_cases hp' : p = kheapStart + 44
      · simp [hp']
      · simp [hp, hp'])
  exact ⟨_, h, by simp, by simp, hret, hstart, hlast, hbrk⟩

/-- A size that is zero with the header of the release build: the next block is put at
the same address, and freeing it panics. -/
theorem wrapped_size_breaks_heap : ∃ (h1 h2 : Heap) (p : Nat),
    (HeapState.empty (fun _ => 0) emptyMachine).heap.kmalloc false ⟨0⟩ (word - 32) 1 1 =
      .ret (p, h1) ∧
    h1.kmalloc false ⟨0⟩ 100 1 2 = .ret (p, h2) ∧
    h2.kfree false ⟨0⟩ p = .panic heapCorruption := by
  obtain ⟨h0, hh0⟩ : ∃ h0, h0 = (HeapState.empty (fun _ => 0) emptyMachine).heap := ⟨_, rfl⟩
  have hcompute : (do
      let placed1 ← h0.kmalloc false ⟨0⟩ (word - 32) 1 1
      let placed2 ← placed1.2.kmalloc false ⟨0⟩ 100 1 2
      .ret (placed1.1, placed2.1, (placed2.2.kfree false ⟨0⟩ placed1.1).panicText)) =
        Outcome.ret (kheapStart + 32, kheapStart + 32, some heapCorruption) := by
    rw [hh0]
    decide +kernel
  rw [← hh0]
  obtain ⟨⟨p, h1⟩, hm1, hrest⟩ := Outcome.bind_eq_ret.mp hcompute
  obtain ⟨⟨q, h2⟩, hm2, hrest⟩ := Outcome.bind_eq_ret.mp hrest
  simp only [Outcome.ret.injEq, Prod.mk.injEq] at hrest
  obtain ⟨rfl, rfl, hpanic⟩ := hrest
  exact ⟨h1, h2, _, hm1, hm2, Outcome.panicText_eq_some.mp hpanic⟩

end UlmerOS
