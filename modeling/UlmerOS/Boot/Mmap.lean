import UlmerOS.Boot.Paging
import UlmerOS.Mm.PageBitmap

/-!
# The bitmap of the boot stage

`create_mmap` and `create_pagemap` of `boot32/mmap.c`.  The entries of the memory map have
addresses of 64 bits, and a page number is a `size_t` of 32.  The first whole page of a region
is rounded up and the last one is rounded down, less one.

There are three ways in which this goes wrong.  From `2^44` bytes on, the number of pages does
not fit.  A region that ends in the first page has a last page of `2^32 - 1`, and the loop goes
past the end of the bitmap and does not end.  A region that begins in the last page below
`2^44` has a first page of zero.
-/

namespace UlmerOS.Boot

open ByteMem

/-! ## The memory map -/

/-- `multiboot_mmape_t`. -/
structure MmapEntry where
  baseAddr : Nat
  size : Nat
  type : Nat

/-- `region_t`. -/
structure Region where
  addr : Nat
  size : Nat
  available : Bool

/-- The region of an entry. -/
def MmapEntry.region (e : MmapEntry) : Region := ⟨e.baseAddr, e.size, e.type == 1⟩

/-- One round of `create_mmap`, on the regions and `phys_ram_size`. -/
def createMmapEntry (s : List Region × Nat) (e : MmapEntry) : List Region × Nat :=
  (s.1 ++ [e.region],
    if e.type = 1 ∧ s.2 < wrap64 (e.baseAddr + e.size) then wrap64 (e.baseAddr + e.size) else s.2)

/-- `create_mmap`. -/
def createMmap (mmap : List MmapEntry) : List Region × Nat := mmap.foldl createMmapEntry ([], 0)

/-! ## The bitmap -/

theorem byteBit_full {j : Nat} (hj : j < 8) : byteBit 0xff j = true := by
  have hall : ∀ j : Fin 8, byteBit 0xff j = true := by decide
  exact hall ⟨j, hj⟩

/-- `bitmap_init` with `0xff`. -/
def pagemapInit (size : Nat) : PageBitmap where
  bmp := ⟨size, List.replicate (bitmapByteSize size) 0xff⟩
  length_eq := List.length_replicate
  padded := fun i _ hb => by
    rw [bitmapGet, List.getD_eq_getElem?_getD, List.getElem?_replicate,
      if_pos (by rwa [List.length_replicate] at hb)]
    exact byteBit_full (Nat.mod_lt i (by decide))

namespace Region

/-- `start_page`. -/
def startPage (r : Region) : Nat :=
  let page := wrap32 (r.addr >>> pageShift)
  if r.addr % pageSize ≠ 0 then wrap32 (page + 1) else page

/-- `end_page`. -/
def endPage (r : Region) : Nat :=
  wrap32 (wrap64 (wrap64 (r.addr + r.size) >>> pageShift + word - 1))

/-- The pages for which the loop calls `bitmap_clr`, up to the point where `page` wraps. -/
def pages (r : Region) : List Nat := List.range' r.startPage (r.endPage + 1 - r.startPage)

end Region

/-- `bitmap_clr`.  A page behind the end of the bitmap fails an assertion in the debug build.
Otherwise a byte behind the bitmap is written, which is left out. -/
def clearPage (debug : Bool) (pb : PageBitmap) (page : Nat) : Outcome PageBitmap :=
  if h : page < pb.size then .ret (pb.clr page h)
  else if debug then .panic "assert failed: bitmap_clr(): out of bounds"
  else .ret pb

/-- One round of `create_pagemap`.  No `page` is above the last one, and so the inner loop does
not end for that one. -/
def clearRegion (debug : Bool) (pb : PageBitmap) (r : Region) : Outcome PageBitmap :=
  if r.available then do
    let pb ← r.pages.foldlM (clearPage debug) pb
    if r.endPage = 2 ^ 32 - 1 then .hang else .ret pb
  else .ret pb

/-- `total_pages`, of `phys_ram_size`. -/
def totalPages (physRamSize : Nat) : Nat := wrap32 (physRamSize >>> pageShift)

/-- `create_pagemap`.  The size of the bitmap is `total_pages`. -/
def createPagemap (debug : Bool) (s : List Region × Nat) : Outcome PageBitmap :=
  s.1.foldlM (clearRegion debug) (pagemapInit (totalPages s.2))

/-! ## What it is for -/

/-- The end of an entry. -/
def MmapEntry.stop (e : MmapEntry) : Nat := e.baseAddr + e.size

/-- The highest available address. -/
def highestAvailable : List MmapEntry → Nat
  | [] => 0
  | e :: es => if e.type = 1 then max e.stop (highestAvailable es) else highestAvailable es

/-- The whole page lies in an available region. -/
def MmapEntry.Covers (e : MmapEntry) (p : Nat) : Prop :=
  e.type = 1 ∧ e.baseAddr ≤ p * pageSize ∧ (p + 1) * pageSize ≤ e.stop

/-- No page behind the end is cleared, the size is the number of whole pages below the highest
available address, and the pages that are free are those that lie in an available region. -/
structure PagemapRight (debug : Bool) (mmap : List MmapEntry) : Prop where
  clears : ∀ r ∈ (createMmap mmap).1, r.available → ∀ page ∈ r.pages,
    page < totalPages (createMmap mmap).2
  bits : ∃ pb, createPagemap debug (createMmap mmap) = .ret pb ∧
    pb.size = highestAvailable mmap / pageSize ∧ ∀ p, pb.Free p ↔ ∃ e ∈ mmap, e.Covers p

/-- All page numbers have 32 bits, no available region ends in the first page, and none begins
in the last one, unless all pages are in an available region. -/
structure PagemapFits (mmap : List MmapEntry) : Prop where
  below : highestAvailable mmap < 2 ^ 44
  ends : ∀ e ∈ mmap, e.type = 1 → pageSize ≤ e.stop
  begins : (∀ e ∈ mmap, e.type = 1 → e.baseAddr ≤ 2 ^ 44 - pageSize) ∨
    ∀ p < 2 ^ 32 - 1, ∃ e ∈ mmap, e.Covers p

/-! ## What the loops leave -/

/-- All bits are set at first. -/
theorem not_free_pagemapInit (size p : Nat) : ¬ (pagemapInit size).Free p := by
  rintro ⟨hp, hfree⟩
  have hbyte : p / 8 < bitmapByteSize size := bitmapByteSize_lt hp
  rw [pagemapInit, bitmapGet, List.getD_eq_getElem?_getD, List.getElem?_replicate, if_pos hbyte,
    Option.getD_some, byteBit_full (Nat.mod_lt p (by decide))] at hfree
  cases hfree

/-- Pages of the bitmap are cleared. -/
theorem clearPages_ret (debug : Bool) {pages : List Nat} {pb : PageBitmap}
    (h : ∀ page ∈ pages, page < pb.size) :
    ∃ pb', pages.foldlM (clearPage debug) pb = .ret pb' ∧ pb'.size = pb.size ∧
      ∀ p, pb'.Free p ↔ pb.Free p ∨ p ∈ pages := by
  induction pages generalizing pb with
  | nil => exact ⟨pb, rfl, rfl, fun p => by simp⟩
  | cons page pages ih =>
      have hpage : page < pb.size := h page List.mem_cons_self
      have hrest : ∀ q ∈ pages, q < (pb.clr page hpage).size :=
        fun q hq => h q (List.mem_cons_of_mem _ hq)
      obtain ⟨pb', hret, hsize, hfree⟩ := ih hrest
      refine ⟨pb', ?_, hsize, fun p => ?_⟩
      · rw [List.foldlM_cons, clearPage, dif_pos hpage]
        exact hret
      · rw [hfree, PageBitmap.free_clr, List.mem_cons, or_assoc]

/-- A region clears its pages. -/
theorem clearRegions_ret (debug : Bool) {regions : List Region} (pb : PageBitmap)
    (hclears : ∀ r ∈ regions, r.available → ∀ page ∈ r.pages, page < pb.size)
    (hends : ∀ r ∈ regions, r.available → r.endPage ≠ 2 ^ 32 - 1) :
    ∃ pb', regions.foldlM (clearRegion debug) pb = .ret pb' ∧ pb'.size = pb.size ∧
      ∀ p, pb'.Free p ↔ pb.Free p ∨ ∃ r ∈ regions, r.available ∧ p ∈ r.pages := by
  induction regions generalizing pb with
  | nil => exact ⟨pb, rfl, rfl, fun p => by simp⟩
  | cons r regions ih =>
      have hround : ∃ pb1, clearRegion debug pb r = .ret pb1 ∧ pb1.size = pb.size ∧
          ∀ p, pb1.Free p ↔ pb.Free p ∨ (r.available ∧ p ∈ r.pages) := by
        by_cases havailable : r.available = true
        · obtain ⟨pb1, hret, hsize, hfree⟩ := clearPages_ret debug
            (hclears r List.mem_cons_self havailable)
          refine ⟨pb1, ?_, hsize, fun p => by rw [hfree, and_iff_right havailable]⟩
          rw [clearRegion, if_pos havailable, hret, Outcome.ret_bind,
            if_neg (hends r List.mem_cons_self havailable)]
        · exact ⟨pb, if_neg havailable, rfl, fun p => by simp [havailable]⟩
      obtain ⟨pb1, hret1, hsize1, hfree1⟩ := hround
      obtain ⟨pb', hret, hsize, hfree⟩ := ih pb1
        (fun q hq => hsize1 ▸ hclears q (List.mem_cons_of_mem _ hq))
        (fun q hq => hends q (List.mem_cons_of_mem _ hq))
      refine ⟨pb', ?_, hsize.trans hsize1, fun p => ?_⟩
      · rw [List.foldlM_cons, hret1, Outcome.ret_bind, hret]
      · rw [hfree, hfree1, or_assoc]
        simp only [List.exists_mem_cons_iff]

/-! ## Regions -/

theorem createMmap_fold {mmap : List MmapEntry} (hstop : ∀ e ∈ mmap, e.stop < word)
    (regions : List Region) (top : Nat) :
    mmap.foldl createMmapEntry (regions, top) =
      (regions ++ mmap.map MmapEntry.region, max top (highestAvailable mmap)) := by
  induction mmap generalizing regions top with
  | nil => simp [highestAvailable]
  | cons e mmap ih =>
      have hwrap : wrap64 (e.baseAddr + e.size) = e.stop :=
        wrap64_of_lt (hstop e List.mem_cons_self)
      rw [List.foldl_cons, createMmapEntry, hwrap,
        ih (fun x hx => hstop x (List.mem_cons_of_mem _ hx)), highestAvailable, List.map_cons,
        List.append_assoc, List.singleton_append]
      by_cases htype : e.type = 1
      · rw [if_pos htype, ← max_assoc]
        congr 2
        split
        next h => exact (max_eq_right h.2.le).symm
        next h => exact (max_eq_left (Nat.not_lt.mp fun hlt => h ⟨htype, hlt⟩)).symm
      · rw [if_neg htype, if_neg (fun h => htype h.1)]

/-- `create_mmap` has a region for each entry, and finds the highest available address. -/
theorem createMmap_eq {mmap : List MmapEntry} (hstop : ∀ e ∈ mmap, e.stop < word) :
    createMmap mmap = (mmap.map MmapEntry.region, highestAvailable mmap) := by
  rw [createMmap, createMmap_fold hstop, List.nil_append, Nat.zero_max]

theorem stop_le_highest {mmap : List MmapEntry} {e : MmapEntry} (he : e ∈ mmap)
    (htype : e.type = 1) : e.stop ≤ highestAvailable mmap := by
  induction mmap with
  | nil => cases he
  | cons x mmap ih =>
      rw [highestAvailable]
      rcases List.mem_cons.mp he with rfl | hrest
      · rw [if_pos htype]
        exact le_max_left _ _
      · split
        next => exact (ih hrest).trans (le_max_right _ _)
        next => exact ih hrest

theorem totalPages_eq_div (top : Nat) : totalPages top = top / pageSize % 2 ^ 32 := by
  rw [totalPages, Nat.shiftRight_eq_div_pow]
  rfl

theorem Region.mem_pages {r : Region} {p : Nat} :
    p ∈ r.pages ↔ r.startPage ≤ p ∧ p ≤ r.endPage := by
  rw [Region.pages, List.mem_range'_1]
  omega

theorem Region.startPage_lt (r : Region) : r.startPage < 2 ^ 32 := by
  simp only [startPage, wrap32]
  split <;> omega

/-- A loop that does not end goes past the end of every bitmap. -/
theorem endPage_ne {r : Region} {top : Nat} (hclears : ∀ page ∈ r.pages, page < totalPages top) :
    r.endPage ≠ 2 ^ 32 - 1 := by
  intro hend
  have hstart := r.startPage_lt
  have htotal : totalPages top < 2 ^ 32 := Nat.mod_lt _ (by decide)
  have hmem : max r.startPage (totalPages top) ∈ r.pages :=
    Region.mem_pages.mpr ⟨le_max_left _ _, by omega⟩
  exact absurd (hclears _ hmem) (Nat.not_lt.mpr (le_max_right _ _))

section

variable {e : MmapEntry}

/-- A region that ends in the first page. -/
theorem endPage_of_lt (h : e.stop < pageSize) : e.region.endPage = 2 ^ 32 - 1 := by
  simp only [Region.endPage, MmapEntry.region, MmapEntry.stop, pageSize, pageShift, wrap32, wrap64,
    word, Nat.shiftRight_eq_div_pow] at *
  omega

/-- The last whole page. -/
theorem endPage_of_le (hle : pageSize ≤ e.stop) (hlt : e.stop < 2 ^ 44) :
    e.region.endPage + 1 = e.stop / pageSize := by
  simp only [Region.endPage, MmapEntry.region, MmapEntry.stop, pageSize, pageShift, wrap32, wrap64,
    word, Nat.shiftRight_eq_div_pow] at *
  omega

/-- The first whole page. -/
theorem startPage_of_le (hle : e.baseAddr ≤ 2 ^ 44 - pageSize) :
    e.region.startPage = (e.baseAddr + (pageSize - 1)) / pageSize := by
  simp only [Region.startPage, MmapEntry.region, pageSize, pageShift, wrap32,
    Nat.shiftRight_eq_div_pow] at *
  split <;> omega

/-- A region that begins in the last page. -/
theorem startPage_of_lt (hlt : 2 ^ 44 - pageSize < e.baseAddr) (hbelow : e.baseAddr < 2 ^ 44) :
    e.region.startPage = 0 := by
  simp only [Region.startPage, MmapEntry.region, pageSize, pageShift, wrap32,
    Nat.shiftRight_eq_div_pow] at *
  split <;> omega

/-- The pages that are cleared for a region are those that lie in it. -/
theorem mem_pages_iff_covers (htype : e.type = 1) (hend : pageSize ≤ e.stop)
    (hbelow : e.stop < 2 ^ 44) (hbegin : e.baseAddr ≤ 2 ^ 44 - pageSize) {p : Nat} :
    p ∈ e.region.pages ↔ e.Covers p := by
  have hlast := endPage_of_le hend hbelow
  rw [Region.mem_pages, startPage_of_le hbegin, MmapEntry.Covers, and_iff_right htype]
  simp only [pageSize] at *
  omega

end

/-! ## The bitmap is right -/

section

variable {mmap : List MmapEntry}

/-- Where no page behind the end is cleared, `create_pagemap` returns and the pages of the
available regions are free. -/
theorem createPagemap_ret (debug : Bool) (hstop : ∀ e ∈ mmap, e.stop < word)
    (hclears : ∀ r ∈ (createMmap mmap).1, r.available → ∀ page ∈ r.pages,
      page < totalPages (createMmap mmap).2) :
    ∃ pb, createPagemap debug (createMmap mmap) = .ret pb ∧
      pb.size = totalPages (highestAvailable mmap) ∧
      ∀ p, pb.Free p ↔ ∃ e ∈ mmap, e.type = 1 ∧ p ∈ e.region.pages := by
  obtain ⟨pb, hret, hsize, hfree⟩ := clearRegions_ret debug
    (pagemapInit (totalPages (createMmap mmap).2)) hclears
    (fun r hr havailable => endPage_ne (hclears r hr havailable))
  rw [createMmap_eq hstop] at hret hsize hfree ⊢
  refine ⟨pb, hret, hsize, fun p => ?_⟩
  rw [hfree]
  simp only [not_free_pagemapInit, false_or, List.mem_map, exists_exists_and_eq_and,
    MmapEntry.region, beq_iff_eq]

theorem clears_iff (hstop : ∀ e ∈ mmap, e.stop < word) :
    (∀ r ∈ (createMmap mmap).1, r.available → ∀ page ∈ r.pages,
      page < totalPages (createMmap mmap).2) ↔
      ∀ e ∈ mmap, e.type = 1 → ∀ page ∈ e.region.pages,
        page < totalPages (highestAvailable mmap) := by
  rw [createMmap_eq hstop]
  simp only [List.forall_mem_map, MmapEntry.region, beq_iff_eq]

/-- The bitmap is right only if the regions fit. -/
theorem PagemapRight.fits {debug : Bool} (h : PagemapRight debug mmap)
    (hstop : ∀ e ∈ mmap, e.stop < word) : PagemapFits mmap := by
  obtain ⟨pb, hret, hsize, hfree⟩ := createPagemap_ret debug hstop h.clears
  obtain ⟨pb', hret', hsize', hfree'⟩ := h.bits
  cases hret.symm.trans hret'
  have hclears := (clears_iff hstop).mp h.clears
  have hbelow : highestAvailable mmap < 2 ^ 44 := by
    have hdiv := hsize.symm.trans hsize'
    rw [totalPages_eq_div] at hdiv
    simp only [pageSize] at hdiv
    omega
  refine ⟨hbelow, fun e he htype => ?_, or_iff_not_imp_left.mpr fun hbegins p hp => ?_⟩
  · by_contra hend
    exact endPage_ne (hclears e he htype) (endPage_of_lt (Nat.not_le.mp hend))
  · push Not at hbegins
    obtain ⟨e, he, htype, hbegin⟩ := hbegins
    have hle := (stop_le_highest he htype).trans_lt hbelow
    have hbase : e.baseAddr ≤ e.stop := Nat.le_add_right _ _
    have hfirst := startPage_of_lt hbegin (hbase.trans_lt hle)
    have hlast := endPage_of_le (e := e) (by simp only [pageSize] at *; omega) hle
    -- The loop goes over all pages of the bitmap.
    refine (hfree' p).mp ((hfree p).mpr ⟨e, he, htype, Region.mem_pages.mpr ⟨?_, ?_⟩⟩)
    · rw [hfirst]
      exact Nat.zero_le p
    · simp only [pageSize] at *
      omega

/-- The bitmap is right if the regions fit. -/
theorem PagemapFits.right (h : PagemapFits mmap) (hstop : ∀ e ∈ mmap, e.stop < word)
    (debug : Bool) : PagemapRight debug mmap := by
  have htotal : totalPages (highestAvailable mmap) = highestAvailable mmap / pageSize := by
    have hbelow := h.below
    rw [totalPages_eq_div]
    simp only [pageSize] at *
    omega
  have hlast : ∀ e ∈ mmap, e.type = 1 → ∀ p ∈ e.region.pages, p < e.stop / pageSize := by
    intro e he htype p hp
    have hend := endPage_of_le (h.ends e he htype) ((stop_le_highest he htype).trans_lt h.below)
    exact hend ▸ Nat.lt_succ_of_le (Region.mem_pages.mp hp).2
  have hclears := (clears_iff hstop).mpr fun e he htype p hp =>
    htotal ▸ (hlast e he htype p hp).trans_le
      (Nat.div_le_div_right (stop_le_highest he htype))
  obtain ⟨pb, hret, hsize, hfree⟩ := createPagemap_ret debug hstop hclears
  refine ⟨hclears, pb, hret, hsize.trans htotal, fun p => (hfree p).trans ⟨?_, ?_⟩⟩
  · rintro ⟨e, he, htype, hp⟩
    have hbelow := (stop_le_highest he htype).trans_lt h.below
    rcases Nat.lt_or_ge (2 ^ 44 - pageSize) e.baseAddr with hbegin | hbegin
    · refine (h.begins.resolve_left fun hall => ?_) p ?_
      · exact absurd (hall e he htype) (Nat.not_le.mpr hbegin)
      · have hlt := hlast e he htype p hp
        simp only [pageSize] at *
        omega
    · exact ⟨e, he, (mem_pages_iff_covers htype (h.ends e he htype) hbelow hbegin).mp hp⟩
  · rintro ⟨e, he, hcovers⟩
    have htype := hcovers.1
    have hbelow := (stop_le_highest he htype).trans_lt h.below
    have hbegin : e.baseAddr ≤ 2 ^ 44 - pageSize := by
      obtain ⟨-, hfirst, hend⟩ := hcovers
      simp only [pageSize] at *
      omega
    exact ⟨e, he, htype, (mem_pages_iff_covers htype (h.ends e he htype) hbelow hbegin).mpr hcovers⟩

end

/-- **The bitmap of the boot stage.**  For every memory map whose entries do not wrap, the
number of pages is right, no page behind the end is cleared and the free pages are those that
lie in an available region, exactly if the highest available address is below `2^44`, no
available region ends in the first page, and none begins in the last page below `2^44` unless
all pages are available anyway. -/
theorem pagemap_right_iff (debug : Bool) {mmap : List MmapEntry}
    (hstop : ∀ e ∈ mmap, e.stop < word) : PagemapRight debug mmap ↔ PagemapFits mmap :=
  ⟨fun h => h.fits hstop, fun h => h.right hstop debug⟩

/-- A map of 8 MiB with a hole. -/
theorem pagemap_right_hole :
    PagemapRight true [⟨0, 0x9fc00, 1⟩, ⟨0x9fc00, 0x60400, 2⟩, ⟨0x100000, 0x700000, 1⟩] :=
  (pagemap_right_iff true (by decide)).mpr ⟨by decide, by decide, .inl (by decide)⟩

/-- For a region of half a page at zero, pages are cleared without end. -/
theorem half_page_clears_all : ¬ ∀ (debug : Bool) (mmap : List MmapEntry),
    (∀ e ∈ mmap, e.stop < word) → PagemapRight debug mmap := by
  intro h
  have hfits := (h true [⟨0, 0x800, 1⟩] (by decide)).fits (by decide)
  exact absurd (hfits.ends ⟨0, 0x800, 1⟩ (List.mem_singleton_self _) rfl) (by decide)

end UlmerOS.Boot
