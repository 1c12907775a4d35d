import UlmerOS.Mm.HeapPages

/-!
# What a new block holds

Neither `_kmalloc` nor `kfree` clears a payload.  A block that is taken from the list holds
what its last owner left in it (`kmalloc_reuse`).  One that is added at the break holds zeros
where its page is new, and otherwise what was there when the break was lowered
(`kmalloc_append`).

`ZeroFrom` says from where on the memory behind the break has not been in the heap since its
page was mapped.
-/

namespace UlmerOS

open ByteMem Tiling

variable {debug : Bool} {kernel : Vspace} {h h' : Heap} {bs : List Block} {m0 : PhysMem}
  {top high : Nat}

/-! ## New pages -/

/-- The loop of `kbrk` that maps pages clears those that were not mapped, and nothing else. -/
theorem Accounted.mapPages_mem {page n : Nat} (ha : Accounted m0 kernel h.phys)
    (hpages : ∀ w, page ≤ w → w < page + n → HeapPage w)
    (hret : Heap.mapPages kernel page n h = .ret h') (x : Nat) :
    h'.mem x = if (page ≤ x / pageSize ∧ x / pageSize < page + n) ∧
      translation h.phys kernel (x / pageSize) = none then 0 else h.mem x := by
  induction n generalizing page h with
  | zero =>
      cases hret
      rw [if_neg (fun hc => by omega)]
  | succ n ih =>
      obtain ⟨⟨ppn, m1⟩, halloc, hret⟩ := Outcome.bind_eq_ret.mp hret
      obtain ⟨m2, hmap, hret⟩ := Outcome.bind_eq_ret.mp hret
      have hfresh := mapFresh_of_map ha.tables.separated ha.tables.used halloc hmap
      have hpage := hpages page (Nat.le_refl page) (by omega)
      obtain ⟨p, htook⟩ := hfresh.took ha.tables.used
      have hsame := (allocPage_ret halloc).tablesKept.translation_eq ha.tables.used page
      rw [ih (ha.take hpage htook (hfresh.kernelTables ha.tables))
        (fun w h1 h2 => hpages w (by omega) (by omega)) hret]
      simp only [hsame]
      by_cases hx : x / pageSize = page
      · rw [if_neg (fun hc => by omega), hx]
        by_cases hnone : translation h.phys kernel page = none
        · rw [if_pos hnone, if_pos ⟨⟨Nat.le_refl page, by omega⟩, hnone⟩]
          refine fill_of_mem ?_ ?_
          · rw [← hx]
            exact Nat.mul_div_le x pageSize
          · rw [← hx, Nat.mul_comm]
            exact Nat.lt_div_mul_add (by decide)
        · rw [if_neg hnone, if_neg (fun hc => hnone hc.2)]
      · have hout : x < pageSize * page ∨ pageSize * page + pageSize ≤ x := by
          simp only [pageSize] at *
          omega
        have hmem : (if translation h.phys kernel page = none then
            fill h.mem (pageSize * page) pageSize 0 else h.mem) x = h.mem x := by
          split
          · exact fill_of_not_mem hout
          · rfl
        by_cases hw : page ≤ x / pageSize ∧ x / pageSize < page + (n + 1)
        · have hiff := htook.mapped_iff hpage (hpages _ hw.1 hw.2)
          rw [or_iff_left hx, not_iff_not] at hiff
          rw [hmem]
          simp only [hiff]
          exact if_congr (and_congr ⟨fun _ => hw, fun _ => by omega⟩ Iff.rfl) rfl rfl
        · rw [hmem, if_neg (fun hc => hw ⟨by omega, by omega⟩), if_neg (fun hc => hw hc.1)]

/-- The memory from `high` on is zero where it is mapped. -/
def ZeroFrom (kernel : Vspace) (h : Heap) (high : Nat) : Prop :=
  ∀ x, high ≤ x → HeapPage (x / pageSize) →
    translation h.phys kernel (x / pageSize) ≠ none → h.mem x = 0

/-- Raising the break leaves what is mapped, and clears what it maps. -/
theorem ZeroFrom.raise (hz : ZeroFrom kernel h high) (hm : HeapBacked m0 kernel h top)
    {increment o : Nat} (hret : h.kbrk kernel increment = .ret (o, h')) (hge : h.brk ≤ h'.brk) :
    ZeroFrom kernel h' high ∧ ∀ x, x < pageSize * firstPage h.brk → h'.mem x = h.mem x := by
  obtain ⟨hword, hmap⟩ := kbrk_up hret hge
  have hpages := heapPage_of_range hm.ge hword
  have hmem := Accounted.mapPages_mem (h := { h with brk := h'.brk }) hm.accounted hpages hmap
  obtain ⟨-, ht, -⟩ :=
    Accounted.mapPages (h := { h with brk := h'.brk }) hm.accounted hpages hmap
  refine ⟨fun x hx hw hne => ?_, fun x hx => (mapPages_ret hmap).2.2.2 x hx⟩
  rw [hmem x]
  split
  · rfl
  next hc =>
    rcases (ht _ hw).mp hne with hold | hnew
    · exact hz x hx hw hold
    · exact hz x hx hw fun hnone => hc ⟨hnew, hnone⟩

/-! ## Pages that are given back -/

/-- No header is behind the break. -/
theorem Rep.not_inHeader_behind (hr : Rep debug h bs) {x : Nat} (hx : h.brk ≤ x) :
    ¬ InHeader debug bs x := by
  rintro ⟨c, d, hd, -, h2⟩
  have hend := hr.le_brk hd
  have hge := hr.chain.size_ge d hd.mem
  omega

/-- `kfree` maps no page, and a break that it lowers leaves none that begins behind it. -/
theorem HeapBacked.kfree (hm : HeapBacked m0 kernel h top) (hr : Rep debug h bs) {a : Nat}
    {b : Block} (hlive : LiveAt kheapStart bs a b)
    (hret : h.kfree debug kernel (a + headerSize debug) = .ret h') :
    ∃ top', HeapBacked m0 kernel h' top' ∧ top' ≤ top ∧
      (h'.brk < h.brk → top' = firstPage h'.brk) := by
  obtain ⟨h1, bs1, hfree, hrel, -, hphys, hbrk, -⟩ := kfree_merged kernel hr hlive
  have hstart : ∃ top', HeapBacked m0 kernel h1 top' ∧ top' ≤ top ∧
      (h1.brk < h.brk → top' = firstPage h1.brk) :=
    ⟨top, hm.congr hphys hbrk, Nat.le_refl top, fun hlt => absurd hlt (by omega)⟩
  refine releaseTail_invariant (P := fun g => ∃ top', HeapBacked m0 kernel g top' ∧ top' ≤ top ∧
    (g.brk < h.brk → top' = firstPage g.brk)) ?_ hrel.rep hrel.rep.length_lt
    (hfree.symm.trans hret) hstart
  rintro g g' ⟨g0, increment, hbrk0, hphys0, hkbrk, hlt⟩ hge ⟨top', hg, hle, -⟩
  refine ⟨_, (hg.congr hphys0 hbrk0).lower hkbrk (by rw [hbrk0]; exact hlt) hge, ?_, fun _ => rfl⟩
  exact ((firstPage_mono hlt.le).trans hg.top_bounds.1).trans hle

/-- What `kfree` leaves mapped behind the break is what was there. -/
theorem ZeroFrom.kfree (hz : ZeroFrom kernel h high) (hm : HeapBacked m0 kernel h top)
    (hr : Rep debug h bs) {bs' : List Block} (htrims : Trims debug h bs h' bs')
    (hlow : h.brk ≤ high) (hhigh : high ≤ pageSize * firstPage h.brk) {top' : Nat}
    (hm' : HeapBacked m0 kernel h' top') (hle : top' ≤ top)
    (hlower : h'.brk < h.brk → top' = firstPage h'.brk) :
    ZeroFrom kernel h' (min high (pageSize * firstPage h'.brk)) := by
  intro x hx hw hne
  have hpage := (hm'.mapped_iff _ hw).mp hne
  have hbrk := htrims.brk_le
  have hxhigh : high ≤ x := by
    by_contra hlt
    rcases Nat.lt_or_ge h'.brk h.brk with hc | hc
    · rw [hlower hc] at hpage
      simp only [pageSize] at *
      omega
    · rw [Nat.le_antisymm hbrk hc] at hx
      omega
  rcases htrims.clears x (hr.not_inHeader_behind (by omega)) with h1 | h1
  · rw [h1]
    exact hz x hxhigh hw ((hm.mapped_iff _ hw).mpr (by omega))
  · exact h1

/-! ## New blocks -/

/-- `_kmalloc` that finds no block adds one at the break.  The bytes outside the headers are
those that `kbrk` left. -/
theorem kmalloc_append (hr : Rep debug h bs) {size function line ptr : Nat}
    (hsize : headerSize debug + size < word)
    (hret : h.kmalloc debug kernel size function line = .ret (ptr, h')) (hbrk : h.brk ≤ h'.brk)
    (hnone : h.findFit debug (headerSize debug + size) word h.start = .ret none) :
    ptr = h.brk + headerSize debug ∧ h'.brk = h.brk + (headerSize debug + size) ∧
      Allocates debug h bs size ptr h' (bs ++ [⟨headerSize debug + size, some size⟩]) ∧
      ∃ h1, h.kbrk kernel (headerSize debug + size) = .ret (h.brk, h1) ∧ h'.phys = h1.phys ∧
        h'.brk = h1.brk ∧ ∀ x, ¬ InHeader debug bs x → x < h.brk ∨ h.brk + headerSize debug ≤ x →
          h'.mem x = h1.mem x := by
  have hH := headerSize_bounds debug
  rw [Heap.kmalloc, wrap64_of_lt hsize, hnone, Outcome.ret_bind] at hret
  obtain ⟨⟨blk, h1⟩, hkbrk, hret⟩ := Outcome.bind_eq_ret.mp hret
  obtain ⟨rfl, hbroken⟩ := kbrk_ret hkbrk
  have hlt : h.brk + (headerSize debug + size) < word := by
    refine add_lt_of_le_wrap64 hr.brk_lt hsize ?_
    rw [← hbroken.brk_eq]
    simp only at hret
    split at hret <;> cases hret
    · exact hbrk
    · rw [appendBlock_brk] at hbrk
      exact hbrk
  rw [wrap64_of_lt hlt] at hbroken
  have hblk : h.brk ≠ minusOne := by
    rw [minusOne]
    omega
  simp only [if_neg hblk, wrap64_of_lt (show h.brk + headerSize debug < word by omega)] at hret
  cases hret
  refine ⟨rfl, (appendBlock_brk _ _ _ _).trans hbroken.brk_eq,
    hr.allocate_append hbroken hlt function line, h1, hkbrk,
    appendBlock_phys _ _ _ _, appendBlock_brk _ _ _ _, fun x hx hout => ?_⟩
  have hlast : h1.last = lastAddr Block.size kheapStart 0 bs := hbroken.last_eq.trans hr.last_eq
  rcases List.eq_nil_or_concat' bs with rfl | ⟨zs, z, rfl⟩
  · obtain ⟨h2, -, -, -, -, hkeep, heq⟩ := appendBlock_header (h := h1) h.brk function line size
      (by rw [hlast]; decide) (show headerSize debug ≤ headerSize debug + size by omega) hsize
    rw [heq, hlast, lastAddr_nil, if_neg (fun hc => hc rfl)]
    exact hkeep x hout
  · rw [lastAddr_concat] at hlast
    have hin := not_inHeader_split zs z [] hx
    have hz := hr.chain.size_ge z (by simp)
    have hbrkeq := hr.brk_eq
    rw [total_append, total_cons, total_nil] at hbrkeq
    obtain ⟨h2, -, -, -, -, hkeep, heq⟩ := appendBlock_header (h := h1) h.brk function line size
      (by rw [hlast]; omega) (show headerSize debug ≤ headerSize debug + size by omega) hsize
    rw [heq, hlast, if_pos (kheapStart_pos _)]
    refine (store_of_not_mem ?_).trans (hkeep x hout)
    omega

/-- `_kmalloc` that finds a block hands it out with what is in its payload. -/
theorem kmalloc_reuse (hr : Rep debug h bs) {size function line ptr entry : Nat}
    (hsize : headerSize debug + size < word)
    (hret : h.kmalloc debug kernel size function line = .ret (ptr, h'))
    (hsome : h.findFit debug (headerSize debug + size) word h.start = .ret (some entry)) :
    ptr = entry + headerSize debug ∧
      (∃ b, At Block.size kheapStart bs entry b ∧ b.live = none ∧
        headerSize debug + size ≤ b.size) ∧
      ∀ x, ptr ≤ x → x < ptr + size → h'.mem x = h.mem x := by
  obtain ⟨r, hfind, hfound, -⟩ := findFit_ret (headerSize debug + size) hr.chain
    (by decide) hr.length_lt
  rw [← hr.start_eq, hsome] at hfind
  cases hfind
  obtain ⟨xs, b, ys, rfl, hfree, hfit, rfl⟩ := hfound entry rfl
  have haddr := hr.addr_lt (at_block xs b ys)
  rw [Heap.kmalloc, wrap64_of_lt hsize, hsome, Outcome.ret_bind] at hret
  simp only [wrap64_of_lt (show kheapStart + total Block.size xs + headerSize debug < word by
    omega)] at hret
  cases hret
  refine ⟨rfl, ⟨b, at_block xs b ys, hfree, hfit⟩, fun x h1 h2 => ?_⟩
  have horigin := (hr.setAvailable (some size) (v := 0) rfl).rep.setOrigin function line
  have hmem : ((h.setAvailable (kheapStart + total Block.size xs) 0).setOrigin debug
      (kheapStart + total Block.size xs) function line).mem x = h.mem x := by
    have hH := headerSize_bounds debug
    exact (setOrigin_mem (.inr h1)).trans (store_of_not_mem (.inr (by omega)))
  rw [← hmem]
  have hsz : ((h.setAvailable (kheapStart + total Block.size xs) 0).setOrigin debug
      (kheapStart + total Block.size xs) function line).size debug
        (kheapStart + total Block.size xs) = b.size := horigin.rep.chain.header.size_eq
  by_cases hsmall : b.size - (headerSize debug + size) ≤ headerSize debug
  · rw [crop_small (by rw [hsz]; exact hsmall) (by rw [hsz]; exact hfit) (by rw [hsz]; omega)]
  · have hcrop := horigin.rep.crop (headerSize debug + size) (by omega) (by simp only; omega)
    refine hcrop.keeps x ?_ ?_
    · exact ⟨_, _, ⟨at_block xs _ ys, rfl⟩, h1, by simp only; omega⟩
    · exact ⟨_, _, ⟨at_block xs _ _, rfl⟩, h1, by simp only; omega⟩

end UlmerOS
