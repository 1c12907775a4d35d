import UlmerOS.Mm.HeapRun

/-!
# A pointer is freed once

`kfree` knows a live pointer by the header in front of it.  What is left of that header
when the pointer was freed depends on what became of its block (`Freed`).  A block that
is available says so.  A block that was merged has no magic number, as `merge_blocks`
clears it and nothing but `_kmalloc` writes to available blocks.  A block that was given
back is above the break, where the last block is not.

A later `kfree` may take a block from one of the three cases to another, so that they
are one invariant.
-/

namespace UlmerOS

open ByteMem Tiling Transition

variable {debug : Bool} {kernel : Vspace} {s s' : HeapState} {bs : List Block}

/-- `kfree` of a pointer that was freed ends at one of its checks. -/
theorem Freed.kfree_panics {h : Heap} {a : Nat} (hf : Freed debug h bs a) (hr : Rep debug h bs)
    (ha : a + headerSize debug < word) :
    h.kfree debug kernel (a + headerSize debug) = .panic heapCorruption := by
  have hH := headerSize_bounds debug
  have htofree : wrap64 (a + headerSize debug + (word - headerSize debug)) = a := by
    rw [wrap64_sub (by omega) ha]
    omega
  rw [Heap.kfree, if_neg (by omega), htofree]
  split
  · rfl
  · rename_i hrange
    simp only [not_or] at hrange
    obtain ⟨hlast, -, -, hle⟩ := hrange
    cases hf with
    | available hb hfree =>
        obtain ⟨xs, ys, rfl, rfl⟩ := hb
        have hav : h.available (kheapStart + total Block.size xs) = 1 :=
          hr.chain.header.available.trans (by rw [Block.available, hfree]; rfl)
        rw [if_pos (.inr (by rw [hav]; decide))]
    | merged _ _ _ _ hmagic => rw [if_pos (.inl (by rw [hmagic]; decide))]
    | released hbrk =>
        -- the last block would have to reach over the break
        refine absurd ?_ hle
        rcases List.eq_nil_or_concat' bs with rfl | ⟨zs, z, rfl⟩
        · exact absurd hr.last_eq hlast
        · have hz := at_block zs z []
          have hge := hr.chain.size_ge z hz.mem
          have hend := hr.le_brk hz
          have hword := (hr.last_bounds hz).2
          rw [hr.last_eq, lastAddr_concat] at hword ⊢
          rw [wrap64_of_lt hword]
          omega

/-- Writing to live payloads leaves what was freed alone. -/
theorem Freed.use {a : Nat} (hf : Freed debug s.heap bs a) (hinv : HeapInv debug s bs) {mem : Mem}
    {phys : PhysMem} (hmem : ∀ x, ¬ s.Owned x → mem x = s.heap.mem x) :
    Freed debug { s.heap with mem := mem, phys := phys } bs a := by
  have hH := headerSize_bounds debug
  cases hf with
  | available hb hfree => exact .available hb hfree
  | @merged c b hb hfree hge hle hmagic =>
      refine .merged hb hfree hge hle ((load_congr fun x h1 h2 => hmem x ?_).trans hmagic)
      rintro ⟨p, r, hp, h3, h4⟩
      have hout := (hinv.inPayload hp h3 h4).not_in_free hb hfree
      omega
  | released hbrk => exact .released hbrk

/-- One call that hands out no block leaves a freed block freed. -/
theorem freed_step {a : Nat} {call : HeapCall} (hinv : HeapInv debug s bs)
    (hf : Freed debug s.heap bs a) (hno : ∀ size ptr, call ≠ .kmalloc size ptr)
    (h : HeapStep debug kernel s call s') :
    ∃ bs', HeapInv debug s' bs' ∧ Freed debug s'.heap bs' a := by
  cases h with
  | kmalloc => exact absurd rfl (hno _ _)
  | kfree hlive hret =>
      obtain ⟨c, h1, bs', rfl, hret', hfrees, hinv', -⟩ := hinv.kfree_live kernel hlive
      rw [hret'] at hret
      cases hret
      exact ⟨bs', hinv', hfrees.keeps_freed a hf⟩
  | use hmem => exact ⟨bs, hinv.use hmem, hf.use hinv hmem⟩

theorem freed_run {a : Nat} {calls : List HeapCall} (hinv : HeapInv debug s bs)
    (hf : Freed debug s.heap bs a) (hno : ∀ call ∈ calls, ∀ size ptr, call ≠ .kmalloc size ptr)
    (hrun : Run (HeapStep debug kernel) s calls s') :
    ∃ bs', HeapInv debug s' bs' ∧ Freed debug s'.heap bs' a := by
  induction hrun generalizing bs with
  | nil => exact ⟨bs, hinv, hf⟩
  | cons hst _ ih =>
      obtain ⟨bs1, hinv1, hf1⟩ := freed_step hinv hf (hno _ List.mem_cons_self) hst
      exact ih hinv1 hf1 fun call hcall => hno call (List.mem_cons_of_mem _ hcall)

/-- **`kfree` accepts the live pointers, and no pointer twice.**  After every run `kfree`
of a live pointer returns.  When it did, `kfree` of that pointer ends in a panic after
any further calls of `kfree`, until `_kmalloc` is called. -/
theorem kfree_accepts_live {mem : Mem} {phys : PhysMem} {calls : List HeapCall}
    (hrun : Run (HeapStep debug kernel) (HeapState.empty mem phys) calls s) :
    (∀ p, s.live p ≠ none → ∃ h, s.heap.kfree debug kernel p = .ret h) ∧
      ∀ p s1 later s', HeapStep debug kernel s (.kfree p) s1 →
        (∀ call ∈ later, ∀ size ptr, call ≠ .kmalloc size ptr) →
        Run (HeapStep debug kernel) s1 later s' →
        s'.heap.kfree debug kernel p = .panic heapCorruption := by
  obtain ⟨bs, hinv, -⟩ := heapRun_inv hrun
  refine ⟨fun p hp => ?_, fun p s1 later s' hfree hno hlater => ?_⟩
  · obtain ⟨-, h, -, -, hret, -⟩ := hinv.kfree_live kernel hp
    exact ⟨h, hret⟩
  · cases hfree with
    | kfree hlive hret =>
        obtain ⟨a, b, rfl, hl⟩ := hinv.liveAt hlive
        obtain ⟨c, h1, bs1, hc, hret', hfrees, hinv1, -⟩ := hinv.kfree_live kernel hlive
        obtain rfl : c = a := by omega
        rw [hret'] at hret
        cases hret
        have hge := hinv.rep.chain.size_ge b hl.1.mem
        have haddr := hinv.rep.addr_lt hl.1
        obtain ⟨bs', hinv', hf'⟩ := freed_run hinv1 hfrees.freed hno hlater
        exact hf'.kfree_panics hinv'.rep (by omega)

/-- Two blocks of the debug build.  The first is freed and stays, and is merged with the second
and given back when that one is freed. -/
theorem kfree_accepts_live_two_blocks : ∃ s : HeapState,
    Run (HeapStep true ⟨0⟩) (HeapState.empty (fun _ => 0) emptyMachine)
      [.kmalloc 72 (kheapStart + 44), .kmalloc 100 (kheapStart + 160), .kfree (kheapStart + 44),
        .kfree (kheapStart + 160)] s ∧
      s.heap.kfree true ⟨0⟩ (kheapStart + 44) = .panic heapCorruption := by
  obtain ⟨h2, hrun⟩ := two_blocks_run
  obtain ⟨bs, hinv, -⟩ := heapRun_inv hrun
  obtain ⟨-, h3, bs3, -, hret3, -, hinv3, -⟩ := hinv.kfree_live ⟨0⟩ (p := kheapStart + 44) (by simp)
  obtain ⟨-, h4, -, -, hret4, -⟩ := hinv3.kfree_live ⟨0⟩ (p := kheapStart + 160) (by simp)
  have hfirst := HeapStep.kfree (by simp) hret3
  have hsecond := Run.cons (HeapStep.kfree (by simp) hret4) .nil
  obtain ⟨-, htwice⟩ := kfree_accepts_live hrun
  exact ⟨_, hrun.append (.cons hfirst hsecond), htwice _ _ _ _ hfirst (by simp) hsecond⟩

/-- A size that is zero with the header of the debug build: the pointer is live, and it is
refused. -/
theorem wrapped_size_refuses_live : ∃ (h1 h2 : Heap) (p : Nat),
    (HeapState.empty (fun _ => 0) emptyMachine).heap.kmalloc true ⟨0⟩ (word - 44) 1 1 =
      .ret (p, h1) ∧
    h1.kmalloc true ⟨0⟩ 8 1 2 = .ret (p, h2) ∧
    h2.kfree true ⟨0⟩ p = .panic heapCorruption := by
  obtain ⟨h0, hh0⟩ : ∃ h0, h0 = (HeapState.empty (fun _ => 0) emptyMachine).heap := ⟨_, rfl⟩
  have hcompute : (do
      let placed1 ← h0.kmalloc true ⟨0⟩ (word - 44) 1 1
      let placed2 ← placed1.2.kmalloc true ⟨0⟩ 8 1 2
      .ret (placed1.1, placed2.1, (placed2.2.kfree true ⟨0⟩ placed1.1).panicText)) =
        Outcome.ret (kheapStart + 44, kheapStart + 44, some heapCorruption) := by
    rw [hh0]
    decide +kernel
  rw [← hh0]
  obtain ⟨⟨p, h1⟩, hm1, hrest⟩ := Outcome.bind_eq_ret.mp hcompute
  obtain ⟨⟨q, h2⟩, hm2, hrest⟩ := Outcome.bind_eq_ret.mp hrest
  simp only [Outcome.ret.injEq, Prod.mk.injEq] at hrest
  obtain ⟨rfl, rfl, hpanic⟩ := hrest
  exact ⟨h1, h2, _, hm1, hm2, Outcome.panicText_eq_some.mp hpanic⟩

end UlmerOS
