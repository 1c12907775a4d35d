import Mathlib.Data.Set.Basic
import Mathlib.Data.Set.Insert
import UlmerOS.Base
import UlmerOS.Lib.Run
import UlmerOS.Util.Bitmap

/-!
# The bitmap of page frames

`kernel/mm/page.c`, without the contents of the frames.  A set bit of `free_pages` is a
frame in use.  The boot stage fills the bitmap with `0xff` before it clears the usable
pages, and `copy_page_bitmap` copies whole bytes, so the bits behind the last frame are
set.  `PageBitmap` carries that.

`page_bitmap_refines` says that the calls do to the bitmap what they do to a set of used
frames, and that no frame is handed out to two owners at a time.
-/

namespace UlmerOS

open Transition

/-- `PAGE_SIZE`. -/
def pageSize : Nat := 4096

/-- `PAGE_SHIFT`. -/
def pageShift : Nat := 12

/-- The bitmap `free_pages`: a set bit is a frame in use. -/
structure PageBitmap where
  bmp : Bitmap
  length_eq : bmp.bytes.length = bitmapByteSize bmp.size
  padded : ∀ i, bmp.size ≤ i → i / 8 < bmp.bytes.length → bitmapGet bmp i = true

theorem bitmapByteSize_lt {b i : Nat} (h : i < b) : i / 8 < bitmapByteSize b := by
  rw [bitmapByteSize, Nat.shiftRight_eq_div_pow]
  split <;> omega

namespace PageBitmap

/-- The frames there are. -/
def size (pb : PageBitmap) : Nat := pb.bmp.size

/-- The frame can be handed out. -/
def Free (pb : PageBitmap) (f : Nat) : Prop := f < pb.size ∧ bitmapGet pb.bmp f = false

/-- The frames that are marked used. -/
def used (pb : PageBitmap) : Set Nat := {f | f < pb.size ∧ bitmapGet pb.bmp f = true}

theorem byte_lt (pb : PageBitmap) {f : Nat} (h : f < pb.size) :
    f / 8 < pb.bmp.bytes.length := by
  rw [pb.length_eq]
  exact bitmapByteSize_lt h

/-- `bitmap_set(&free_pages, ppn)`. -/
def set (pb : PageBitmap) (ppn : Nat) (h : ppn < pb.size) : PageBitmap where
  bmp := bitmapSet pb.bmp ppn
  length_eq := by
    rw [bitmapSet, List.length_modify]
    exact pb.length_eq
  padded := by
    intro i hi hb
    rw [bitmapSet, List.length_modify] at hb
    rw [bitmapGet_set (pb.byte_lt h), pb.padded i hi hb, Bool.true_or]

/-- `bitmap_clr(&free_pages, page)`. -/
def clr (pb : PageBitmap) (page : Nat) (h : page < pb.size) : PageBitmap where
  bmp := bitmapClr pb.bmp page
  length_eq := by
    rw [bitmapClr, List.length_modify]
    exact pb.length_eq
  padded := by
    intro i hi hb
    rw [bitmapClr, List.length_modify] at hb
    have hne : i ≠ page := fun he => absurd h (by rw [← he]; exact Nat.not_lt.mpr hi)
    rw [bitmapGet_clr (pb.byte_lt h), pb.padded i hi hb]
    simp [hne]

@[simp] theorem set_size (pb : PageBitmap) {p : Nat} (h : p < pb.size) :
    (pb.set p h).size = pb.size := rfl
@[simp] theorem clr_size (pb : PageBitmap) {p : Nat} (h : p < pb.size) :
    (pb.clr p h).size = pb.size := rfl

theorem free_set (pb : PageBitmap) {p f : Nat} (h : p < pb.size) :
    (pb.set p h).Free f ↔ pb.Free f ∧ f ≠ p := by
  simp only [Free, set_size]
  rw [show (pb.set p h).bmp = bitmapSet pb.bmp p from rfl, bitmapGet_set (pb.byte_lt h)]
  simp [and_assoc]

theorem free_clr (pb : PageBitmap) {p f : Nat} (h : p < pb.size) :
    (pb.clr p h).Free f ↔ pb.Free f ∨ f = p := by
  simp only [Free, clr_size]
  rw [show (pb.clr p h).bmp = bitmapClr pb.bmp p from rfl, bitmapGet_clr (pb.byte_lt h)]
  by_cases hf : f = p
  · simp [hf, h]
  · simp [hf]

/-- A frame is used exactly if it is one and not free. -/
theorem mem_used (pb : PageBitmap) {f : Nat} : f ∈ pb.used ↔ f < pb.size ∧ ¬ pb.Free f := by
  constructor
  · rintro ⟨h1, h2⟩
    exact ⟨h1, fun h => absurd (h2.symm.trans h.2) (by simp)⟩
  · rintro ⟨h1, h2⟩
    refine ⟨h1, ?_⟩
    cases hb : bitmapGet pb.bmp f with
    | true => rfl
    | false => exact absurd ⟨h1, hb⟩ h2

/-- A bit that is clear is that of a frame. -/
theorem free_of_clear (pb : PageBitmap) {f : Nat} (hb : f / 8 < pb.bmp.bytes.length)
    (hclear : bitmapGet pb.bmp f = false) : pb.Free f := by
  refine ⟨?_, hclear⟩
  by_contra hge
  rw [pb.padded f (Nat.not_lt.mp hge) hb] at hclear
  cases hclear

/-- What the search of the bitmap finds is a free frame. -/
theorem find_free (pb : PageBitmap) {p : Nat} (h : bitmapFindFree pb.bmp = some p) :
    pb.Free p := by
  obtain ⟨hb, hclear⟩ := bitmapFindFree_clear h
  exact pb.free_of_clear hb hclear

theorem find_n_free (pb : PageBitmap) {n b : Nat}
    (h : Found pb.bmp n (8 * bitmapByteSize pb.bmp.size) b) :
    ∀ f, b ≤ f → f < b + n → pb.Free f := by
  intro f h1 h2
  have hle := h.le
  refine pb.free_of_clear ?_ (h.clear f h1 h2)
  rw [pb.length_eq]
  omega

end PageBitmap

/-! ## The calls -/

/-- The pages of a region for DMA, 64 KiB. -/
def dmaPages : Nat := 16

/-- The last page below 4 GiB. -/
def maxPage : Nat := 1048576 - 1

namespace PageBitmap

/-- The loop of `alloc_dma_region` that marks `n` pages used. -/
def setRange : (n : Nat) → (pb : PageBitmap) → (page : Nat) → page + n ≤ pb.size → PageBitmap
  | 0, pb, _, _ => pb
  | n + 1, pb, page, h =>
      setRange n (pb.set page (by omega)) (page + 1) (by rw [set_size]; omega)

theorem setRange_size {n : Nat} {pb : PageBitmap} {page : Nat} (h : page + n ≤ pb.size) :
    (pb.setRange n page h).size = pb.size := by
  induction n generalizing pb page with
  | zero => rfl
  | succ n ih => rw [setRange, ih, set_size]

theorem free_setRange {n : Nat} {pb : PageBitmap} {page f : Nat} (h : page + n ≤ pb.size) :
    (pb.setRange n page h).Free f ↔ pb.Free f ∧ ¬ (page ≤ f ∧ f < page + n) := by
  induction n generalizing pb page with
  | zero =>
      simp only [setRange]
      exact ⟨fun hf => ⟨hf, by omega⟩, And.left⟩
  | succ n ih =>
      rw [setRange, ih, free_set, and_assoc]
      refine and_congr Iff.rfl ⟨fun hf => by omega, fun hf => by omega⟩

/-- `alloc_page`, as far as the bitmap goes. -/
def allocPage (pb : PageBitmap) : Outcome (Nat × PageBitmap) :=
  match h : bitmapFindFree pb.bmp with
  | none => .panic "alloc_page() out of memory"
  | some ppn => .ret (ppn, pb.set ppn (pb.find_free h).1)

theorem dma_le (pb : PageBitmap) {ppnStart : Nat}
    (h : bitmapFindNFree pb.bmp dmaPages = some ppnStart) : ppnStart + dmaPages ≤ pb.size := by
  rcases bitmapFindNFree_spec pb.bmp (n := dmaPages) (by decide) with ⟨b, hb, hfound⟩ | ⟨hnone, -⟩
  · obtain rfl := Option.some.inj (h.symm.trans hb)
    have hlast := (pb.find_n_free hfound (ppnStart + 15) (by omega) (by rw [dmaPages]; omega)).1
    rw [dmaPages]
    omega
  · rw [hnone] at h
    cases h

/-- `alloc_dma_region`.  The address of the region is returned. -/
def allocDmaRegion (pb : PageBitmap) : Outcome (Nat × PageBitmap) :=
  match h : bitmapFindNFree pb.bmp dmaPages with
  | none => .panic "No DMA region could be allocated!"
  | some ppnStart =>
      if ppnStart + dmaPages > maxPage then .panic "No DMA region could be allocated!"
      else .ret (ppnStart <<< pageShift, pb.setRange dmaPages ppnStart (pb.dma_le h))

/-- `free_page`. -/
def freePage (pb : PageBitmap) (page : Nat) : PageBitmap :=
  if h : page < pb.size then pb.clr page h else pb

/-! ## What the calls do -/

/-- `alloc_page` returns the least frame that is free, or none is left. -/
theorem allocPage_cases (pb : PageBitmap) :
    (∃ p pb', pb.allocPage = .ret (p, pb') ∧ pb.Free p ∧ (∀ q, q < p → ¬ pb.Free q) ∧
      pb'.size = pb.size ∧ ∀ f, pb'.Free f ↔ pb.Free f ∧ f ≠ p) ∨
    (pb.allocPage = .panic "alloc_page() out of memory" ∧ ∀ f, ¬ pb.Free f) := by
  rw [allocPage]
  split
  · rename_i hfind
    refine .inr ⟨rfl, fun f hf => ?_⟩
    have hset := bitmapFindFree_none hfind (pb.byte_lt hf.1) (bitmapByteSize_lt hf.1)
    exact absurd (hset.symm.trans hf.2) (by simp)
  · rename_i p hfind
    have hfree := pb.find_free hfind
    refine .inl ⟨p, _, rfl, hfree, fun q hq hf => ?_, rfl, fun f => pb.free_set hfree.1⟩
    exact absurd ((bitmapFindFree_least hfind hq).symm.trans hf.2) (by simp)

/-- `alloc_dma_region` returns the first run of 16 frames that is free and aligned, or
there is none that ends below the last page below 4 GiB. -/
theorem allocDmaRegion_cases (pb : PageBitmap) :
    (∃ b pb', pb.allocDmaRegion = .ret (b <<< pageShift, pb') ∧ b % 16 = 0 ∧
      b + 16 ≤ maxPage ∧ (∀ f, b ≤ f → f < b + 16 → pb.Free f) ∧ pb'.size = pb.size ∧
      ∀ f, pb'.Free f ↔ pb.Free f ∧ ¬ (b ≤ f ∧ f < b + 16)) ∨
    (pb.allocDmaRegion = .panic "No DMA region could be allocated!" ∧
      ∀ c, c % 16 = 0 → c + 16 ≤ maxPage → ∃ f, c ≤ f ∧ f < c + 16 ∧ ¬ pb.Free f) := by
  have hfree : ∀ {f}, bitmapGet pb.bmp f = true → ¬ pb.Free f := fun hset hf =>
    absurd (hset.symm.trans hf.2) (by simp)
  have hspec := bitmapFindNFree_spec pb.bmp (n := dmaPages) (by decide)
  rw [allocDmaRegion]
  split
  · rename_i hfind
    rcases hspec with ⟨b, hb, -⟩ | ⟨-, hnone⟩
    · rw [hfind] at hb
      cases hb
    · refine .inr ⟨rfl, fun c hc hle => ?_⟩
      by_cases hlast : c + 16 ≤ pb.size
      · have hbytes := bitmapByteSize_lt (b := pb.bmp.size) (i := c + 15) (by
          rw [PageBitmap.size] at hlast
          omega)
        obtain ⟨j, h1, h2, hset⟩ := hnone c hc (by rw [dmaPages]; omega)
        exact ⟨j, h1, h2, hfree hset⟩
      · exact ⟨c + 15, by omega, by omega, fun hf => by have := hf.1; omega⟩
  · rename_i b hfind
    rcases hspec with ⟨b', hb', hfound⟩ | ⟨hnone, -⟩
    · obtain rfl := Option.some.inj (hfind.symm.trans hb')
      split
      · rename_i hgt
        refine .inr ⟨rfl, fun c hc hle => ?_⟩
        rw [dmaPages] at hgt
        obtain ⟨j, h1, h2, hset⟩ := hfound.least c hc (by omega)
        exact ⟨j, h1, h2, hfree hset⟩
      · rename_i hle
        exact .inl ⟨b, _, rfl, hfound.aligned, Nat.not_lt.mp hle, pb.find_n_free hfound,
          setRange_size _, fun f => free_setRange _⟩
    · rw [hnone] at hfind
      cases hfind

theorem freePage_size (pb : PageBitmap) (page : Nat) : (pb.freePage page).size = pb.size := by
  rw [freePage]
  split <;> rfl

theorem free_freePage (pb : PageBitmap) {page f : Nat} (h : page < pb.size) :
    (pb.freePage page).Free f ↔ pb.Free f ∨ f = page := by
  rw [freePage, dif_pos h]
  exact pb.free_clr h

end PageBitmap

/-! ## Runs -/

/-- What happens to the bitmap. -/
inductive FrameCall where
  /-- `alloc_page()` returned the frame. -/
  | alloc (ppn : Nat)
  /-- `alloc_dma_region()` returned the address. -/
  | dma (addr : Nat)
  /-- `free_page(page)` returned. -/
  | free (page : Nat)

/-- The bitmap, and the frames that were handed out and not freed since. -/
structure FrameState where
  bitmap : PageBitmap
  live : List Nat

/-- The calls.  A frame that is freed was handed out and not freed since. -/
inductive FrameStep : FrameState → FrameCall → FrameState → Prop where
  | alloc {s : FrameState} {ppn : Nat} {pb : PageBitmap} :
      s.bitmap.allocPage = .ret (ppn, pb) → FrameStep s (.alloc ppn) ⟨pb, ppn :: s.live⟩
  | dma {s : FrameState} {addr : Nat} {pb : PageBitmap} :
      s.bitmap.allocDmaRegion = .ret (addr, pb) →
      FrameStep s (.dma addr) ⟨pb, List.range' (addr >>> pageShift) dmaPages ++ s.live⟩
  | free {s : FrameState} {page : Nat} :
      page ∈ s.live → FrameStep s (.free page) ⟨s.bitmap.freePage page, s.live.erase page⟩

/-- The frames of the 64 KiB from an address on. -/
def dmaFrames (addr : Nat) : Set Nat := {f | addr / 4096 ≤ f ∧ f < addr / 4096 + 16}

/-- What the calls do to a set of used frames, of `size` frames. -/
inductive UsedStep (size : Nat) : Set Nat → FrameCall → Set Nat → Prop where
  | alloc {u : Set Nat} {ppn : Nat} : ppn < size → ppn ∉ u → (∀ q, q < ppn → q ∈ u) →
      UsedStep size u (.alloc ppn) (insert ppn u)
  | dma {u : Set Nat} {addr : Nat} : addr % 0x10000 = 0 → addr + 0x10000 ≤ 2 ^ 32 →
      (∀ f ∈ dmaFrames addr, f < size ∧ f ∉ u) →
      UsedStep size u (.dma addr) (u ∪ dmaFrames addr)
  | free {u : Set Nat} {page : Nat} : page ∈ u → UsedStep size u (.free page) (u \ {page})

namespace PageBitmap

/-- The frames `S` are free no more. -/
theorem used_eq_union {pb pb' : PageBitmap} {S : Set Nat} (hsize : pb'.size = pb.size)
    (hS : ∀ f ∈ S, f < pb.size) (h : ∀ f, pb'.Free f ↔ pb.Free f ∧ f ∉ S) :
    pb'.used = pb.used ∪ S := by
  ext f
  rw [Set.mem_union, mem_used, mem_used, hsize, h f]
  constructor
  · rintro ⟨hlt, hfree⟩
    by_cases hf : f ∈ S
    · exact .inr hf
    · exact .inl ⟨hlt, fun hp => hfree ⟨hp, hf⟩⟩
  · rintro (⟨hlt, hfree⟩ | hf)
    · exact ⟨hlt, fun hp => hfree hp.1⟩
    · exact ⟨hS f hf, fun hp => hp.2 hf⟩

theorem used_freePage (pb : PageBitmap) {page : Nat} (h : page < pb.size) :
    (pb.freePage page).used = pb.used \ {page} := by
  ext f
  rw [Set.mem_sdiff, Set.mem_singleton_iff, mem_used, mem_used, freePage_size,
    pb.free_freePage h, not_or, and_assoc]

end PageBitmap

/-- What the calls keep: the frames that are used and were not at the start are those
that are live, each of them once. -/
structure FrameInv (pb : PageBitmap) (s : FrameState) : Prop where
  size_eq : s.bitmap.size = pb.size
  nodup : s.live.Nodup
  fresh : ∀ f ∈ s.live, f ∉ pb.used
  used_eq : s.bitmap.used = pb.used ∪ {f | f ∈ s.live}

namespace FrameInv

variable {pb pb' : PageBitmap} {s : FrameState}

/-- A free frame has no owner. -/
theorem not_used (h : FrameInv pb s) {f : Nat} (hf : s.bitmap.Free f) :
    f ∉ s.live ∧ f ∉ pb.used := by
  have hnot : f ∉ s.bitmap.used := fun hu => (s.bitmap.mem_used.mp hu).2 hf
  rw [h.used_eq, Set.mem_union, not_or] at hnot
  exact ⟨hnot.2, hnot.1⟩

theorem init (pb : PageBitmap) : FrameInv pb ⟨pb, []⟩ := by
  refine ⟨rfl, List.nodup_nil, by simp, ?_⟩
  simp

/-- Frames that were free were handed out. -/
theorem take (h : FrameInv pb s) {fs : List Nat} (hnodup : fs.Nodup)
    (hfree : ∀ f ∈ fs, s.bitmap.Free f) (hsize : pb'.size = s.bitmap.size)
    (hiff : ∀ f, pb'.Free f ↔ s.bitmap.Free f ∧ f ∉ fs) : FrameInv pb ⟨pb', fs ++ s.live⟩ := by
  refine ⟨hsize.trans h.size_eq, List.nodup_append.mpr ⟨hnodup, h.nodup, ?_⟩, ?_, ?_⟩
  · rintro f hf g hg rfl
    exact (h.not_used (hfree f hf)).1 hg
  · intro f hf
    rcases List.mem_append.mp hf with hf | hf
    · exact (h.not_used (hfree f hf)).2
    · exact h.fresh f hf
  · rw [PageBitmap.used_eq_union (S := {f | f ∈ fs}) hsize (fun f hf => (hfree f hf).1) hiff,
      h.used_eq]
    ext f
    simp only [Set.mem_union, Set.mem_ofPred_eq, List.mem_append]
    rw [or_assoc, or_comm (a := f ∈ s.live)]

theorem free (h : FrameInv pb s) {page : Nat} (hp : page ∈ s.live) :
    page ∈ s.bitmap.used ∧ FrameInv pb ⟨s.bitmap.freePage page, s.live.erase page⟩ := by
  have hused : page ∈ s.bitmap.used := by
    rw [h.used_eq]
    exact .inr hp
  refine ⟨hused, (s.bitmap.freePage_size page).trans h.size_eq, h.nodup.erase page, ?_, ?_⟩
  · exact fun f hf => h.fresh f (List.mem_of_mem_erase hf)
  · rw [s.bitmap.used_freePage hused.1, h.used_eq]
    ext f
    simp only [Set.mem_sdiff, Set.mem_union, Set.mem_ofPred_eq, Set.mem_singleton_iff,
      h.nodup.mem_erase_iff]
    constructor
    · rintro ⟨hf | hf, hne⟩
      · exact .inl hf
      · exact .inr ⟨hne, hf⟩
    · rintro (hf | ⟨hne, hf⟩)
      · refine ⟨.inl hf, ?_⟩
        rintro rfl
        exact h.fresh f hp hf
      · exact ⟨.inr hf, hne⟩

/-- One call keeps the invariant and does to the used frames what it should. -/
theorem step {t : FrameState} {call : FrameCall} (h : FrameInv pb s) (hst : FrameStep s call t) :
    FrameInv pb t ∧ UsedStep pb.size s.bitmap.used call t.bitmap.used := by
  cases hst with
  | @alloc ppn pb' hret =>
      rcases s.bitmap.allocPage_cases with
        ⟨p, pb1, hret1, hfree, hleast, hsize, hiff⟩ | ⟨hpanic, -⟩
      · rw [hret] at hret1
        cases hret1
        have hinv : FrameInv pb ⟨pb', [ppn] ++ s.live⟩ :=
          h.take (by simp) (by simp [hfree]) hsize (by simp [hiff])
        refine ⟨hinv, ?_⟩
        rw [PageBitmap.used_eq_union (S := {ppn}) hsize (by simp [hfree.1]) (by simp [hiff]),
          Set.union_comm, ← Set.insert_eq]
        refine .alloc (h.size_eq ▸ hfree.1) (fun hu => (s.bitmap.mem_used.mp hu).2 hfree) ?_
        exact fun q hq => s.bitmap.mem_used.mpr ⟨hq.trans hfree.1, hleast q hq⟩
      · rw [hret] at hpanic
        cases hpanic
  | @dma addr pb' hret =>
      rcases s.bitmap.allocDmaRegion_cases with
        ⟨b, pb1, hret1, halign, hle, hfree, hsize, hiff⟩ | ⟨hpanic, -⟩
      · rw [hret] at hret1
        cases hret1
        have hpage : b <<< pageShift >>> pageShift = b := by
          rw [pageShift, Nat.shiftLeft_eq, Nat.shiftRight_eq_div_pow]
          omega
        have haddr : b <<< pageShift = 4096 * b := by
          rw [pageShift, Nat.shiftLeft_eq]
          omega
        have hframes : dmaFrames (b <<< pageShift) = {f | b ≤ f ∧ f < b + 16} := by
          rw [dmaFrames, haddr, Nat.mul_div_cancel_left b (by decide)]
        rw [hpage]
        refine ⟨h.take (List.nodup_range' ..) ?_ hsize ?_, ?_⟩
        · intro f hf
          obtain ⟨h1, h2⟩ := List.mem_range'_1.mp hf
          exact hfree f h1 h2
        · intro f
          rw [hiff f, List.mem_range'_1]
          rfl
        · have hlt : ∀ f ∈ dmaFrames (b <<< pageShift), s.bitmap.Free f := by
            rw [hframes]
            exact fun f hf => hfree f hf.1 hf.2
          rw [PageBitmap.used_eq_union hsize (fun f hf => (hlt f hf).1)
            (by rw [hframes]; exact hiff)]
          rw [maxPage] at hle
          refine .dma (by omega) (by omega) fun f hf => ⟨h.size_eq ▸ (hlt f hf).1, ?_⟩
          exact fun hu => (s.bitmap.mem_used.mp hu).2 (hlt f hf)
      · rw [hret] at hpanic
        cases hpanic
  | free hp =>
      obtain ⟨hused, hinv⟩ := h.free hp
      refine ⟨hinv, ?_⟩
      rw [s.bitmap.used_freePage hused.1]
      exact .free hused

end FrameInv

/-- **The page bitmap refines a set of used frames.**  After every sequence of calls the
bitmap is what the calls make of the set: `alloc_page` takes the least unused frame and
`alloc_dma_region` an unused and aligned run of 16 below 4 GiB, and no frame changes but
those that are taken or freed.  The live frames are the ones that are used and were not
at the start, each with one owner.  A further `alloc_page` panics only if no frame is
left, and `alloc_dma_region` only if no run is free below the last one. -/
theorem page_bitmap_refines {pb : PageBitmap} {calls : List FrameCall} {s : FrameState}
    (hrun : Run FrameStep ⟨pb, []⟩ calls s) :
    Run (UsedStep pb.size) pb.used calls s.bitmap.used ∧
    s.live.Nodup ∧ (∀ f ∈ s.live, f ∉ pb.used) ∧
    s.bitmap.used = pb.used ∪ {f | f ∈ s.live} ∧
    ((∃ r, s.bitmap.allocPage = .ret r) ∨
      (s.bitmap.allocPage = .panic "alloc_page() out of memory" ∧
        ∀ f, f < pb.size → f ∈ s.bitmap.used)) ∧
    ((∃ r, s.bitmap.allocDmaRegion = .ret r) ∨
      (s.bitmap.allocDmaRegion = .panic "No DMA region could be allocated!" ∧
        ∀ addr, addr % 0x10000 = 0 → addr + 0x10000 < 2 ^ 32 →
          ∃ f ∈ dmaFrames addr, f < pb.size → f ∈ s.bitmap.used)) := by
  obtain ⟨hinv, hsim⟩ := hrun.simulates (fun s => s.bitmap.used)
    (fun _ _ _ hP hst => FrameInv.step hP hst) (FrameInv.init pb)
  have hused : ∀ f, f < pb.size → ¬ s.bitmap.Free f → f ∈ s.bitmap.used := fun f hlt hfree =>
    s.bitmap.mem_used.mpr ⟨hinv.size_eq ▸ hlt, hfree⟩
  refine ⟨hsim, hinv.nodup, hinv.fresh, hinv.used_eq, ?_, ?_⟩
  · rcases s.bitmap.allocPage_cases with ⟨p, pb', hret, -⟩ | ⟨hpanic, hnone⟩
    · exact .inl ⟨_, hret⟩
    · exact .inr ⟨hpanic, fun f hlt => hused f hlt (hnone f)⟩
  · rcases s.bitmap.allocDmaRegion_cases with ⟨b, pb', hret, -⟩ | ⟨hpanic, hnone⟩
    · exact .inl ⟨_, hret⟩
    · refine .inr ⟨hpanic, fun addr halign hlt => ?_⟩
      obtain ⟨f, h1, h2, hfree⟩ := hnone (addr / 4096) (by omega) (by rw [maxPage]; omega)
      exact ⟨f, ⟨h1, h2⟩, fun hf => hused f hf hfree⟩

/-- The bitmap of 40 frames that are all free. -/
def freeFrames : PageBitmap where
  bmp := ⟨40, [0, 0, 0, 0, 0]⟩
  length_eq := rfl
  padded := fun i hi hb => by
    simp only [List.length_cons, List.length_nil] at hi hb
    omega

/-- A page, a region for DMA behind it, and the page given back. -/
theorem page_bitmap_refines_page_and_region : ∃ s : FrameState,
    Run FrameStep ⟨freeFrames, []⟩ [.alloc 0, .dma 0x10000, .free 0] s ∧
      Run (UsedStep 40) freeFrames.used [.alloc 0, .dma 0x10000, .free 0] s.bitmap.used := by
  have hcompute : (do
      let taken ← freeFrames.allocPage
      let region ← taken.2.allocDmaRegion
      .ret (taken.1, region.1)) = Outcome.ret (0, 0x10000) := by decide +kernel
  obtain ⟨⟨p, pb1⟩, halloc, hrest⟩ := Outcome.bind_eq_ret.mp hcompute
  obtain ⟨⟨addr, pb2⟩, hdma, hvals⟩ := Outcome.bind_eq_ret.mp hrest
  cases hvals
  have hrun : Run FrameStep ⟨freeFrames, []⟩ [.alloc 0, .dma 0x10000, .free 0] _ :=
    .cons (.alloc halloc) (.cons (.dma hdma) (.cons (.free (by simp)) .nil))
  exact ⟨_, hrun, (page_bitmap_refines hrun).1⟩

end UlmerOS
