import UlmerOS.Boot.Mmap
import UlmerOS.Boot.Reserve

/-!
# From the memory map to the kernel's page frames

`boot32_main`, `amd64_main` of `x86_64/main.c` and `delete_init_stack`, as far as they concern
the bitmap of page frames.  The boot stage clears the bits of the available pages, marks what it
occupies and takes frames for the page tables.  The kernel goes on with that bitmap, copies it
to its own heap, and frees the boot image and the boot heap.  The first task frees the stack
they ran on.

A `Startup` is a boot up to the call of `kmain`.  `kernel_frames` says which frames
`alloc_page` can return from then on: RAM, and nothing that is still in use.
-/

namespace UlmerOS.Boot

open Transition (Run)

/-! ## Freeing what the boot stage has left -/

/-- `free_pages` of `x86_64/main.c`. -/
def freePages (pb : PageBitmap) (start : Nat) : Nat → PageBitmap
  | 0 => pb
  | count + 1 => freePages (pb.freePage start) (start + 1) count

/-- `copy_page_bitmap`. -/
def copyPageBitmap (pb : PageBitmap) : PageBitmap where
  bmp := ⟨pb.bmp.size, pb.bmp.bytes.take (bitmapByteSize pb.bmp.size)⟩
  length_eq := by rw [← pb.length_eq, List.take_length]
  padded := by
    rw [← pb.length_eq, List.take_length]
    exact pb.padded

/-- The whole bitmap is copied. -/
theorem copyPageBitmap_eq (pb : PageBitmap) : copyPageBitmap pb = pb := by
  obtain ⟨⟨size, bytes⟩, hlength, hpadded⟩ := pb
  have hlength' : bytes.length = bitmapByteSize size := hlength
  simp only [copyPageBitmap, ← hlength', List.take_length]

theorem freePages_size (pb : PageBitmap) (start count : Nat) :
    (freePages pb start count).size = pb.size := by
  induction count generalizing pb start with
  | zero => rfl
  | succ count ih => rw [freePages, ih, PageBitmap.freePage_size]

theorem free_freePages {pb : PageBitmap} {start count : Nat} (h : start + count ≤ pb.size)
    (f : Nat) :
    (freePages pb start count).Free f ↔ pb.Free f ∨ start ≤ f ∧ f < start + count := by
  induction count generalizing pb start with
  | zero =>
      rw [freePages]
      exact (or_iff_left (by omega)).symm
  | succ count ih =>
      rw [freePages, ih (by rw [PageBitmap.freePage_size]; omega), pb.free_freePage (by omega),
        or_assoc]
      exact or_congr_right ⟨fun hf => by omega, fun hf => by omega⟩

/-- Frames that were in use at the start are freed, and nobody has got them since. -/
theorem frameInv_freePages {pb : PageBitmap} {s : FrameState} {start count : Nat}
    (h : FrameInv pb s) (hused : ∀ f, start ≤ f → f < start + count → f ∈ pb.used) :
    FrameInv (freePages pb start count) ⟨freePages s.bitmap start count, s.live⟩ := by
  cases count with
  | zero => exact h
  | succ count =>
      have hle : start + (count + 1) ≤ pb.size :=
        (hused (start + count) (Nat.le_add_right _ _) (Nat.lt_succ_self _)).1
      have hle' : start + (count + 1) ≤ s.bitmap.size := h.size_eq ▸ hle
      refine ⟨?_, h.nodup, fun f hf hin => ?_, ?_⟩
      · rw [freePages_size, freePages_size, h.size_eq]
      · rw [PageBitmap.mem_used, free_freePages hle, freePages_size] at hin
        exact h.fresh f hf (pb.mem_used.mpr ⟨hin.1, fun hfree => hin.2 (Or.inl hfree)⟩)
      · ext f
        have hf : f < pb.size ∧ ¬ s.bitmap.Free f ↔ f < pb.size ∧ ¬ pb.Free f ∨ f ∈ s.live := by
          rw [← h.size_eq, ← PageBitmap.mem_used, h.size_eq, ← PageBitmap.mem_used, h.used_eq]
          rfl
        have hlive : f ∈ s.live → ¬ (start ≤ f ∧ f < start + (count + 1)) := fun hmem hrange =>
          h.fresh f hmem (hused f hrange.1 hrange.2)
        rw [Set.mem_union, PageBitmap.mem_used, PageBitmap.mem_used, free_freePages hle,
          free_freePages hle', freePages_size, freePages_size, h.size_eq, Set.mem_ofPred_eq]
        tauto

/-! ## The startup -/

/-- `heap_pages`, with `kheap_start_` where it always is. -/
def heapPages (kheapBreak : Nat) : Nat :=
  kheapBreak >>> pageShift + 1 - earlyHeapStart >>> pageShift

/-- `stack_start_page`. -/
def stackStartPage : Nat := boot32StackLoc >>> pageShift - boot32StackPages

/-- A boot, up to the call of `kmain`. -/
structure Startup (debug : Bool) (mmap : List MmapEntry) (layout : BootLayout) where
  /-- What `create_mmap` and `create_pagemap` leave, and where the heap ends then. -/
  pagemap : PageBitmap
  pagemap_eq : createPagemap debug (createMmap mmap) = .ret pagemap
  heapEnd : Nat
  /-- What `get_multiboot_info` and `alloc_boot32_pages` leave. -/
  increments : List Nat
  reserved : PageBitmap
  kheapBreak : Nat
  reserved_eq :
    boot32Reserve debug layout pagemap heapEnd increments = .ret (reserved, kheapBreak)
  /-- The frames that `paging_init` takes, the first of which it throws away. -/
  skipped : Nat
  tables : List Nat
  taken : FrameState
  paging : Run FrameStep ⟨reserved, []⟩ (.alloc skipped :: tables.map .alloc) taken
  /-- What the kernel takes and frees until it copies the bitmap, and after that. -/
  early : FrameState
  earlyCalls : List FrameCall
  early_run : Run FrameStep ⟨taken.bitmap, []⟩ earlyCalls early
  late : FrameState
  lateCalls : List FrameCall
  late_run : Run FrameStep ⟨copyPageBitmap early.bitmap, early.live⟩ lateCalls late

variable {debug : Bool} {mmap : List MmapEntry} {layout : BootLayout}

/-- The frames of the kernel when `kmain` is called. -/
def Startup.frames (st : Startup debug mmap layout) : FrameState where
  bitmap :=
    freePages (freePages st.late.bitmap (bootStart >>> pageShift) layout.bootPageCount)
      (earlyHeapStart >>> pageShift) (heapPages st.kheapBreak)
  live := st.late.live

/-- The kernel's frames, and whether the stack of the startup is still there. -/
structure KernelFrames where
  frames : FrameState
  initStack : Bool

/-- The calls of the kernel, and `delete_init_stack`, once. -/
inductive KernelStep : KernelFrames → Option FrameCall → KernelFrames → Prop where
  | call {s : KernelFrames} {t : FrameState} {c : FrameCall} :
      FrameStep s.frames c t → KernelStep s (some c) { s with frames := t }
  | deleteInitStack {s : KernelFrames} : s.initStack = true →
      KernelStep s none
        { frames := ⟨freePages s.frames.bitmap stackStartPage boot32StackPages, s.frames.live⟩
          initStack := false }

/-- The pages that the startup frees are RAM, and the boot image ends before the stack. -/
structure InRam (mmap : List MmapEntry) (layout : BootLayout) (kheapBreak : Nat) : Prop where
  image : ∀ f, bootStart >>> pageShift ≤ f → f < bootStart >>> pageShift + layout.bootPageCount →
    ∃ e ∈ mmap, e.Covers f
  heap : ∀ f, earlyHeapStart >>> pageShift ≤ f →
    f < earlyHeapStart >>> pageShift + heapPages kheapBreak → ∃ e ∈ mmap, e.Covers f
  stack : ∀ f, stackStartPage ≤ f → f < stackStartPage + boot32StackPages → ∃ e ∈ mmap, e.Covers f
  below : layout.bootEnd < boot32StackLoc - boot32StackPages * pageSize
  kernel : kernelLoadAddr + layout.kernelMemSize ≤ earlyHeapStart

/-! ## What each stage leaves -/

theorem bootStart_page : bootStart >>> pageShift = 0x100 := rfl
theorem earlyHeapStart_page : earlyHeapStart >>> pageShift = 0x2000 := rfl
theorem stackStartPage_eq : stackStartPage = 0xff8 := rfl
theorem stack_end_page : stackStartPage + boot32StackPages = 0x1000 := rfl

theorem markPagesUsed_size {pb pb' : PageBitmap} {startPage count : Nat}
    (h : markPagesUsed debug pb startPage count = .ret pb') : pb'.size = pb.size := by
  induction count generalizing pb startPage with
  | zero =>
      cases h
      rfl
  | succ count ih =>
      rw [markPagesUsed] at h
      split at h
      next hlt => rw [ih h, PageBitmap.set_size]
      next =>
        split at h
        next => cases h
        next => exact ih h

theorem allocBoot32Pages_size {pb pb' : PageBitmap} {kheapBreak : Nat}
    (h : allocBoot32Pages debug layout (pb, kheapBreak) = .ret pb') : pb'.size = pb.size := by
  obtain ⟨pb1, h1, h⟩ := Outcome.bind_eq_ret.mp h
  obtain ⟨pb2, h2, h⟩ := Outcome.bind_eq_ret.mp h
  obtain ⟨pb3, h3, h4⟩ := Outcome.bind_eq_ret.mp h
  rw [markPagesUsed_size h4, markPagesUsed_size h3, markPagesUsed_size h2, markPagesUsed_size h1]

/-- Growing the heap marks pages, and frees none. -/
theorem kbrks_le {pb pb' : PageBitmap} {kheapBreak kheapBreak' : Nat} {increments : List Nat}
    (h : increments.foldlM (kbrk debug) (pb, kheapBreak) = .ret (pb', kheapBreak')) :
    pb'.size = pb.size ∧ ∀ f, pb'.Free f → pb.Free f := by
  induction increments generalizing pb kheapBreak with
  | nil =>
      cases h
      exact ⟨rfl, fun _ => id⟩
  | cons increment increments ih =>
      rw [List.foldlM_cons] at h
      obtain ⟨⟨pb1, kheapBreak1⟩, hfirst, hrest⟩ := Outcome.bind_eq_ret.mp h
      obtain ⟨pb2, hmark, hret⟩ := Outcome.bind_eq_ret.mp hfirst
      cases hret
      obtain ⟨hsize, hfree⟩ := ih hrest
      exact ⟨hsize.trans (markPagesUsed_size hmark),
        fun f hf => ((markPagesUsed_ret hmark f).mp (hfree f hf)).1⟩

/-- A run keeps what is known of the frames. -/
theorem frameInv_run {pb : PageBitmap} {s t : FrameState} {calls : List FrameCall}
    (h : FrameInv pb s) (hrun : Run FrameStep s calls t) : FrameInv pb t :=
  Run.invariant (P := FrameInv pb) (fun _ _ _ hinv hst => (hinv.step hst).1) h hrun

/-- What `alloc_page` returns in a row stays with the caller. -/
theorem mem_live_of_alloc {s t : FrameState} {ps : List Nat}
    (hrun : Run FrameStep s (ps.map .alloc) t) {f : Nat} (hf : f ∈ ps ∨ f ∈ s.live) :
    f ∈ t.live := by
  induction ps generalizing s with
  | nil =>
      cases hrun
      exact hf.resolve_left List.not_mem_nil
  | cons p ps ih =>
      cases hrun with
      | cons hst hrest =>
          cases hst with
          | alloc _ =>
              refine ih hrest ?_
              rcases hf with hf | hf
              · cases List.mem_cons.mp hf with
                | inl heq => exact Or.inr (heq ▸ List.mem_cons_self)
                | inr hf => exact Or.inl hf
              · exact Or.inr (List.mem_cons_of_mem _ hf)

namespace Startup

variable (st : Startup debug mmap layout)

/-- A frame that is free after the reservation is RAM, and the boot stage is not in it. -/
theorem reserved_free (hstop : ∀ e ∈ mmap, e.stop < word) (hfits : PagemapFits mmap)
    (hkernel : layout.KernelFits) {f : Nat} (hf : st.reserved.Free f) :
    (∃ e ∈ mmap, e.Covers f) ∧ ¬ layout.Occupied st.kheapBreak f := by
  obtain ⟨pb, hpb, -, hcovers⟩ := (hfits.right hstop debug).bits
  cases hpb.symm.trans st.pagemap_eq
  obtain ⟨⟨pb1, kheapBreak⟩, hheap, h⟩ := Outcome.bind_eq_ret.mp st.reserved_eq
  obtain ⟨pb2, hpages, hret⟩ := Outcome.bind_eq_ret.mp h
  cases hret
  have hbefore := ((allocBoot32Pages_ret hpages f).mp hf).1
  exact ⟨(hcovers f).mp ((kbrks_le hheap).2 f hbefore), not_occupied_of_free hpages hkernel hf⟩

/-- The pages that the boot stage has marked. -/
theorem marked (hstop : ∀ e ∈ mmap, e.stop < word) (hfits : PagemapFits mmap) {f : Nat}
    (hram : ∃ e ∈ mmap, e.Covers f)
    (hf : 0x100 ≤ f ∧ f < 0x100 + layout.bootPageCount ∨ 0xff8 ≤ f ∧ f < 0x1000 ∨
      0x2000 ≤ f ∧ f < st.kheapBreak >>> pageShift + 1) : f ∈ st.reserved.used := by
  obtain ⟨pb, hpb, -, hcovers⟩ := (hfits.right hstop debug).bits
  cases hpb.symm.trans st.pagemap_eq
  obtain ⟨⟨pb1, kheapBreak⟩, hheap, h⟩ := Outcome.bind_eq_ret.mp st.reserved_eq
  obtain ⟨pb2, hpages, hret⟩ := Outcome.bind_eq_ret.mp h
  have hret' := Prod.mk.inj (Outcome.ret.inj hret)
  have hsize : st.reserved.size = st.pagemap.size := by
    rw [← hret'.1, allocBoot32Pages_size hpages, (kbrks_le hheap).1]
  refine st.reserved.mem_used.mpr ⟨hsize ▸ ((hcovers f).mpr hram).1, fun hfree => ?_⟩
  rw [← hret'.1] at hfree
  rw [← hret'.2] at hf
  have hnot := (allocBoot32Pages_ret hpages f).mp hfree
  tauto

theorem tables_live {f : Nat} (hf : f ∈ st.skipped :: st.tables) : f ∈ st.taken.live := by
  have hrun : Run FrameStep ⟨st.reserved, []⟩ ((st.skipped :: st.tables).map .alloc) st.taken :=
    st.paging
  exact mem_live_of_alloc hrun (Or.inl hf)

/-- The page tables are in none of the pages that were marked. -/
theorem tables_not_marked {f : Nat} (hf : f ∈ st.reserved.used) : f ∉ st.skipped :: st.tables :=
  fun ht => (frameInv_run (FrameInv.init st.reserved) st.paging).fresh f (st.tables_live ht) hf

/-- The frames that are free when the page tables are there. -/
theorem taken_free {f : Nat} (hf : st.taken.bitmap.Free f) :
    st.reserved.Free f ∧ f ∉ st.skipped :: st.tables := by
  have hinv := frameInv_run (FrameInv.init st.reserved) st.paging
  obtain ⟨hlive, hused⟩ := hinv.not_used hf
  refine ⟨?_, fun ht => hlive (st.tables_live ht)⟩
  by_contra hnot
  exact hused (st.reserved.mem_used.mpr ⟨hinv.size_eq ▸ hf.1, hnot⟩)

/-- `paging_init` throws away frame 0, if it is free. -/
theorem skipped_eq_zero (h : st.reserved.Free 0) : st.skipped = 0 := by
  cases st.paging with
  | cons hst _ =>
      cases hst with
      | alloc hret =>
          rcases st.reserved.allocPage_cases with ⟨p, pb, hret', -, hleast, -⟩ | ⟨-, hnone⟩
          · cases hret.symm.trans hret'
            by_contra hne
            exact hleast 0 (Nat.pos_of_ne_zero hne) h
          · exact absurd h (hnone 0)

/-- The bitmap without the frames that the kernel has taken, when `kmain` is called. -/
def base : PageBitmap :=
  freePages (freePages st.taken.bitmap (bootStart >>> pageShift) layout.bootPageCount)
    (earlyHeapStart >>> pageShift) (heapPages st.kheapBreak)

/-- A frame that is marked and none of those that were freed. -/
theorem used_freePages {pb : PageBitmap} {start count f : Nat}
    (hused : ∀ f, start ≤ f → f < start + count → f ∈ pb.used) (hf : f ∈ pb.used)
    (hout : ¬ (start ≤ f ∧ f < start + count)) : f ∈ (freePages pb start count).used := by
  cases count with
  | zero => exact hf
  | succ count =>
      have hle : start + (count + 1) ≤ pb.size :=
        (hused (start + count) (Nat.le_add_right _ _) (Nat.lt_succ_self _)).1
      rw [PageBitmap.mem_used, free_freePages hle, freePages_size, not_or]
      exact ⟨hf.1, (pb.mem_used.mp hf).2, hout⟩

/-- A frame that is freed, or that was free before. -/
theorem free_of_freePages {pb : PageBitmap} {start count f : Nat}
    (hused : ∀ f, start ≤ f → f < start + count → f ∈ pb.used)
    (hf : (freePages pb start count).Free f) :
    pb.Free f ∨ start ≤ f ∧ f < start + count := by
  cases count with
  | zero => exact Or.inl hf
  | succ count =>
      have hle : start + (count + 1) ≤ pb.size :=
        (hused (start + count) (Nat.le_add_right _ _) (Nat.lt_succ_self _)).1
      exact (free_freePages hle f).mp hf

/-- The boot image ends before the stack. -/
theorem image_lt {kheapBreak f : Nat} (hram : InRam mmap layout kheapBreak)
    (h : f < bootStart >>> pageShift + layout.bootPageCount) : f < 0xff8 := by
  have hbelow := hram.below
  simp only [BootLayout.bootPageCount, bootStart, boot32StackLoc, boot32StackPages, pageShift,
    pageSize, Nat.shiftRight_eq_div_pow] at h hbelow
  omega

section

variable {st} (hstop : ∀ e ∈ mmap, e.stop < word) (hfits : PagemapFits mmap)
  (hram : InRam mmap layout st.kheapBreak)

/-- What is marked stays marked while the page tables are built. -/
theorem taken_used {f : Nat} (hf : f ∈ st.reserved.used) : f ∈ st.taken.bitmap.used := by
  rw [(frameInv_run (FrameInv.init st.reserved) st.paging).used_eq]
  exact Or.inl hf

include hstop hfits hram

theorem image_used (f : Nat) (h1 : bootStart >>> pageShift ≤ f)
    (h2 : f < bootStart >>> pageShift + layout.bootPageCount) : f ∈ st.taken.bitmap.used := by
  have hin := hram.image f h1 h2
  rw [bootStart_page] at h1 h2
  exact taken_used (st.marked hstop hfits hin (Or.inl ⟨h1, h2⟩))

theorem heap_used (f : Nat) (h1 : earlyHeapStart >>> pageShift ≤ f)
    (h2 : f < earlyHeapStart >>> pageShift + heapPages st.kheapBreak) :
    f ∈ (freePages st.taken.bitmap (bootStart >>> pageShift) layout.bootPageCount).used := by
  have hin := hram.heap f h1 h2
  rw [heapPages, earlyHeapStart_page] at h2
  rw [earlyHeapStart_page] at h1
  have hmarked := st.marked hstop hfits hin (Or.inr (Or.inr ⟨h1, by omega⟩))
  refine used_freePages (image_used hstop hfits hram) (taken_used hmarked) fun himage => ?_
  have hlt := image_lt hram himage.2
  omega

theorem stack_used (f : Nat) (h1 : stackStartPage ≤ f)
    (h2 : f < stackStartPage + boot32StackPages) : f ∈ st.base.used := by
  have hin := hram.stack f h1 h2
  rw [stackStartPage_eq] at h1
  rw [stack_end_page] at h2
  have hmarked := st.marked hstop hfits hin (Or.inr (Or.inl ⟨h1, h2⟩))
  refine used_freePages (heap_used hstop hfits hram) ?_ fun hheap => ?_
  · refine used_freePages (image_used hstop hfits hram) (taken_used hmarked) fun himage => ?_
    have hlt := image_lt hram himage.2
    omega
  · have hstart := hheap.1
    rw [earlyHeapStart_page] at hstart
    omega

/-- When `kmain` is called, the frames of the kernel are those that it has taken. -/
theorem frames_inv : FrameInv st.base st.frames := by
  have hearly := frameInv_run (FrameInv.init st.taken.bitmap) st.early_run
  have hlate : FrameInv st.taken.bitmap st.late := by
    have hrun := st.late_run
    rw [copyPageBitmap_eq] at hrun
    exact frameInv_run hearly hrun
  have himage := frameInv_freePages hlate (image_used hstop hfits hram)
  have hheap := frameInv_freePages himage (heap_used hstop hfits hram)
  exact hheap

end

end Startup

/-! ## The frames of the kernel -/

/-- What is known of the frames of the kernel, with the stack and without it. -/
structure KernelInv (base : PageBitmap) (s : KernelFrames) : Prop where
  withStack : s.initStack = true → FrameInv base s.frames
  without : s.initStack = false →
    FrameInv (freePages base stackStartPage boot32StackPages) s.frames

theorem KernelInv.step {base : PageBitmap} {s t : KernelFrames} {c : Option FrameCall}
    (hstack : ∀ f, stackStartPage ≤ f → f < stackStartPage + boot32StackPages → f ∈ base.used)
    (h : KernelInv base s) (hst : KernelStep s c t) : KernelInv base t := by
  cases hst with
  | call hcall =>
      exact ⟨fun hinit => ((h.withStack hinit).step hcall).1,
        fun hinit => ((h.without hinit).step hcall).1⟩
  | deleteInitStack hinit =>
      have hinv := frameInv_freePages (h.withStack hinit) hstack
      exact ⟨nofun, fun _ => hinv⟩

theorem KernelInv.nodup {base : PageBitmap} {s : KernelFrames} (h : KernelInv base s) :
    s.frames.live.Nodup := by
  cases hinit : s.initStack with
  | true => exact (h.withStack hinit).nodup
  | false => exact (h.without hinit).nodup

/-- A frame that the kernel has taken was free at the startup, or it was in the stack. -/
theorem KernelInv.free {base : PageBitmap} {s : KernelFrames}
    (hstack : ∀ f, stackStartPage ≤ f → f < stackStartPage + boot32StackPages → f ∈ base.used)
    (h : KernelInv base s) {f : Nat} (hf : f ∈ s.frames.live) :
    base.Free f ∨ s.initStack = false ∧ stackStartPage ≤ f ∧
      f < stackStartPage + boot32StackPages := by
  have hfree : ∀ {pb : PageBitmap}, FrameInv pb s.frames → pb.Free f := by
    intro pb hinv
    have hused : f ∈ s.frames.bitmap.used := by
      rw [hinv.used_eq]
      exact Or.inr hf
    by_contra hnot
    exact hinv.fresh f hf (pb.mem_used.mpr ⟨hinv.size_eq ▸ hused.1, hnot⟩)
  cases hinit : s.initStack with
  | true => exact Or.inl (hfree (h.withStack hinit))
  | false =>
      have hfreed := hfree (h.without hinit)
      exact (Startup.free_of_freePages hstack hfreed).imp_right fun hrange => ⟨rfl, hrange⟩

/-- RAM that the kernel can use as it likes. -/
structure Startup.Spare (st : Startup debug mmap layout) (f : Nat) : Prop where
  ram : ∃ e ∈ mmap, e.Covers f
  nonzero : f ≠ 0
  kernel : ¬ layout.InKernel f
  tables : f ∉ st.skipped :: st.tables

/-- A frame below the kernel or above it. -/
theorem not_inKernel {f : Nat} (hbelow : kernelLoadAddr + layout.kernelMemSize ≤ earlyHeapStart)
    (hf : f < 0x1000 ∨ 0x2000 ≤ f) : ¬ layout.InKernel f := by
  rintro ⟨hstop, hstart⟩
  simp only [kernelLoadAddr, earlyHeapStart, pageSize] at hstop hstart hbelow
  omega

namespace Startup

variable {st : Startup debug mmap layout} {f : Nat} (hstop : ∀ e ∈ mmap, e.stop < word)
  (hfits : PagemapFits mmap)

include hstop hfits

/-- A frame that is free when the page tables are there. -/
theorem spare_of_taken (hkernel : layout.KernelFits) (hf : st.taken.bitmap.Free f) :
    st.Spare f ∧ ¬ (stackStartPage ≤ f ∧ f < stackStartPage + boot32StackPages) := by
  obtain ⟨hfree, htables⟩ := st.taken_free hf
  obtain ⟨hram, hocc⟩ := st.reserved_free hstop hfits hkernel hfree
  simp only [BootLayout.Occupied, not_or] at hocc
  obtain ⟨-, hstack, -, hin⟩ := hocc
  have hzero : f ≠ 0 := by
    rintro rfl
    exact htables (st.skipped_eq_zero hfree ▸ List.mem_cons_self)
  refine ⟨⟨hram, hzero, hin, htables⟩, fun hrange => hstack ?_⟩
  rw [stack_end_page, stackStartPage_eq] at hrange
  simp only [Overlaps, boot32StackLoc, boot32StackPages, pageSize]
  omega

variable (hram : InRam mmap layout st.kheapBreak)

include hram

theorem spare_image (h1 : bootStart >>> pageShift ≤ f)
    (h2 : f < bootStart >>> pageShift + layout.bootPageCount) :
    st.Spare f ∧ ¬ (stackStartPage ≤ f ∧ f < stackStartPage + boot32StackPages) := by
  have hin := hram.image f h1 h2
  have hlt := image_lt hram h2
  rw [bootStart_page] at h1 h2
  have hmarked := st.marked hstop hfits hin (Or.inl ⟨h1, h2⟩)
  refine ⟨⟨hin, by omega, not_inKernel hram.kernel (by omega), st.tables_not_marked hmarked⟩, ?_⟩
  rw [stackStartPage_eq]
  omega

theorem spare_heap (h1 : earlyHeapStart >>> pageShift ≤ f)
    (h2 : f < earlyHeapStart >>> pageShift + heapPages st.kheapBreak) :
    st.Spare f ∧ ¬ (stackStartPage ≤ f ∧ f < stackStartPage + boot32StackPages) := by
  have hin := hram.heap f h1 h2
  rw [heapPages, earlyHeapStart_page] at h2
  rw [earlyHeapStart_page] at h1
  have hmarked := st.marked hstop hfits hin (Or.inr (Or.inr ⟨h1, by omega⟩))
  refine ⟨⟨hin, by omega, not_inKernel hram.kernel (by omega), st.tables_not_marked hmarked⟩, ?_⟩
  rw [stack_end_page]
  omega

theorem spare_stack (h1 : stackStartPage ≤ f) (h2 : f < stackStartPage + boot32StackPages) :
    st.Spare f := by
  have hin := hram.stack f h1 h2
  rw [stackStartPage_eq] at h1
  rw [stack_end_page] at h2
  have hmarked := st.marked hstop hfits hin (Or.inr (Or.inl ⟨h1, h2⟩))
  exact ⟨hin, by omega, not_inKernel hram.kernel (by omega), st.tables_not_marked hmarked⟩

/-- A frame that is free when `kmain` is called. -/
theorem spare_of_base (hkernel : layout.KernelFits) (hf : st.base.Free f) :
    st.Spare f ∧ ¬ (stackStartPage ≤ f ∧ f < stackStartPage + boot32StackPages) := by
  cases free_of_freePages (heap_used hstop hfits hram) hf with
  | inr hheap => exact spare_heap hstop hfits hram hheap.1 hheap.2
  | inl hf =>
      cases free_of_freePages (image_used hstop hfits hram) hf with
      | inr himage => exact spare_image hstop hfits hram himage.1 himage.2
      | inl hf => exact spare_of_taken hstop hfits hkernel hf

theorem kernelInv_init : KernelInv st.base ⟨st.frames, true⟩ where
  withStack _ := frames_inv hstop hfits hram
  without h := by cases h

end Startup

/-- **What the kernel can hand out.**  From a memory map that fits, a boot image, heap and stack
in RAM, and a kernel that ends in the pages of its binary: at any time after the startup, the
frames that the kernel has taken and not freed are RAM, each taken once, and none of them is
frame 0, holds the kernel or one of its first page tables, or is the stack it was started on
before that is deleted. -/
theorem kernel_frames (st : Startup debug mmap layout) (hstop : ∀ e ∈ mmap, e.stop < word)
    (hfits : PagemapFits mmap) (hkernel : layout.KernelFits)
    (hram : InRam mmap layout st.kheapBreak) {calls : List (Option FrameCall)} {s : KernelFrames}
    (hrun : Run KernelStep ⟨st.frames, true⟩ calls s) :
    s.frames.live.Nodup ∧ ∀ f ∈ s.frames.live,
      (∃ e ∈ mmap, e.Covers f) ∧ f ≠ 0 ∧ ¬ layout.InKernel f ∧ f ∉ st.skipped :: st.tables ∧
      (s.initStack = true → ¬ (stackStartPage ≤ f ∧ f < stackStartPage + boot32StackPages)) := by
  have hstack := Startup.stack_used hstop hfits hram
  have hstart := Startup.kernelInv_init hstop hfits hram
  have hinv : KernelInv st.base s :=
    Run.invariant (P := KernelInv st.base) (fun _ _ _ hk hst => hk.step hstack hst) hstart hrun
  refine ⟨hinv.nodup, fun f hf => ?_⟩
  cases hinv.free hstack hf with
  | inl hbase =>
      obtain ⟨hspare, hnot⟩ := Startup.spare_of_base hstop hfits hram hkernel hbase
      exact ⟨hspare.ram, hspare.nonzero, hspare.kernel, hspare.tables, fun _ => hnot⟩
  | inr hrange =>
      obtain ⟨hinit, h1, h2⟩ := hrange
      have hspare := Startup.spare_stack hstop hfits hram h1 h2
      refine ⟨hspare.ram, hspare.nonzero, hspare.kernel, hspare.tables, fun h => ?_⟩
      cases hinit.symm.trans h

/-- 48 MiB, all of it available. -/
def plainMmap : List MmapEntry := [⟨0, 0x3000000, 1⟩]

theorem plainMmap_covers {f : Nat} (hf : f < 0x3000) : ∃ e ∈ plainMmap, e.Covers f := by
  refine ⟨_, List.mem_singleton_self _, rfl, Nat.zero_le _, ?_⟩
  simp only [MmapEntry.stop, pageSize]
  omega

theorem alloc_least {pb : PageBitmap} {f : Nat} (hf : pb.Free f) (hbelow : ∀ g < f, ¬ pb.Free g) :
    ∃ pb', pb.allocPage = .ret (f, pb') ∧ ∀ g, pb'.Free g ↔ pb.Free g ∧ g ≠ f := by
  rcases pb.allocPage_cases with ⟨p, pb', hret, hfree, hleast, -, hiff⟩ | ⟨-, hnone⟩
  · have heq : p = f := by
      have h1 : ¬ p < f := fun hlt => hbelow p hlt hfree
      have h2 : ¬ f < p := fun hlt => hleast f hlt hf
      omega
    subst heq
    exact ⟨pb', hret, hiff⟩
  · exact absurd hf (hnone f)

/-- Freeing pages keeps the others free. -/
theorem free_freePages_of_free {pb : PageBitmap} {f : Nat} (start count : Nat) (hf : pb.Free f) :
    (freePages pb start count).Free f := by
  induction count generalizing pb start with
  | zero => exact hf
  | succ count ih =>
      refine ih (start + 1) ?_
      cases Nat.lt_or_ge start pb.size with
      | inl hlt => exact (pb.free_freePage hlt).mpr (Or.inl hf)
      | inr hge =>
          rw [PageBitmap.freePage, dif_neg (Nat.not_lt.mpr hge)]
          exact hf

/-- A startup that takes frame 1 for a page table, and nothing else. -/
theorem startup_plain : ∃ st : Startup false plainMmap fittingLayout,
    st.kheapBreak = 0x2001400 ∧ st.late.bitmap.Free 2 := by
  have hfits : PagemapFits plainMmap := ⟨by decide, by decide, Or.inl (by decide)⟩
  obtain ⟨pb, hpb, -, hcovers⟩ := (hfits.right (by decide) false).bits
  obtain ⟨pb0, kheapBreak, h⟩ := boot32Reserve_release fittingLayout pb 0x2001000 [0x400]
  obtain ⟨⟨pb1, brk⟩, hheap, hrest⟩ := Outcome.bind_eq_ret.mp h
  obtain ⟨pb2, hpages, hret⟩ := Outcome.bind_eq_ret.mp hrest
  cases hret
  have hbrk : brk = 0x2001400 := by
    obtain ⟨s, hkbrk, hnil⟩ := Outcome.bind_eq_ret.mp hheap
    cases hnil
    exact (kbrk_ret hkbrk (by decide)).1
  have hfree : ∀ f, f < 0x100 → pb0.Free f := fun f hf => by
    refine (allocBoot32Pages_ret hpages f).mpr ⟨?_, by omega, by omega, by omega, by omega⟩
    refine (kbrks_ret hheap (by decide) (hf.trans (by decide))).mpr ((hcovers f).mpr ?_)
    exact plainMmap_covers (by omega)
  obtain ⟨pb3, hzero, hiff3⟩ := alloc_least (hfree 0 (by decide)) (by simp)
  obtain ⟨pb4, hone, hiff4⟩ := alloc_least ((hiff3 1).mpr ⟨hfree 1 (by decide), by decide⟩)
    fun g hg hin => (hiff3 g).mp hin |>.2 (by omega)
  have hleft : pb4.Free 2 :=
    (hiff4 2).mpr ⟨(hiff3 2).mpr ⟨hfree 2 (by decide), by decide⟩, by decide⟩
  refine ⟨{
    pagemap := pb
    pagemap_eq := hpb
    heapEnd := 0x2001000
    increments := [0x400]
    reserved := pb0
    kheapBreak := brk
    reserved_eq := h
    skipped := 0
    tables := [1]
    taken := ⟨pb4, [1, 0]⟩
    paging := .cons (.alloc hzero) (.cons (.alloc hone) .nil)
    early := ⟨pb4, []⟩
    earlyCalls := []
    early_run := .nil
    late := ⟨copyPageBitmap pb4, []⟩
    lateCalls := []
    late_run := .nil }, hbrk, ?_⟩
  show (copyPageBitmap pb4).Free 2
  rw [copyPageBitmap_eq]
  exact hleft

theorem kernel_frames_plain : ∃ (st : Startup false plainMmap fittingLayout) (f : Nat)
    (s : KernelFrames), Run KernelStep ⟨st.frames, true⟩ [some (.alloc f), none] s ∧
      f ∈ s.frames.live ∧ s.frames.live.Nodup ∧ f ∉ st.skipped :: st.tables := by
  obtain ⟨st, hbrk, hfree⟩ := startup_plain
  have hram : InRam plainMmap fittingLayout st.kheapBreak := by
    rw [hbrk]
    refine ⟨fun f _ hf => plainMmap_covers ?_, fun f _ hf => plainMmap_covers ?_,
      fun f _ hf => plainMmap_covers ?_, by decide, by decide⟩
    · exact hf.trans (by decide)
    · exact hf.trans (by decide)
    · exact hf.trans (by decide)
  have hframe : st.frames.bitmap.Free 2 := by
    simp only [Startup.frames]
    exact free_freePages_of_free _ _ (free_freePages_of_free _ _ hfree)
  rcases st.frames.bitmap.allocPage_cases with ⟨f, pb, hret, -⟩ | ⟨-, hnone⟩
  · have hcall := KernelStep.call (s := ⟨st.frames, true⟩) (.alloc hret)
    have hdelete := KernelStep.deleteInitStack (s := ⟨⟨pb, f :: st.frames.live⟩, true⟩) rfl
    have hrun := Run.cons hcall (.cons hdelete .nil)
    obtain ⟨hnodup, hall⟩ := kernel_frames st (by decide) ⟨by decide, by decide, Or.inl (by decide)⟩
      (by unfold BootLayout.KernelFits; decide) hram hrun
    have hmem : f ∈ f :: st.frames.live := List.mem_cons_self
    exact ⟨st, f, _, hrun, hmem, hnodup, (hall f hmem).2.2.2.1⟩
  · exact absurd hframe (hnone 2)

end UlmerOS.Boot
