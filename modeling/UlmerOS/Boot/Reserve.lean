import UlmerOS.Boot.Paging
import UlmerOS.Mm.PageBitmap

/-!
# The pages that the boot stage reserves

`alloc_boot32_pages` of `boot32/boot32mem.c` and `kbrk` of `boot32/heap.c`.  `create_pagemap`
has cleared the bits of the available pages, `get_multiboot_info` has taken memory from the
heap, and the pages that the boot stage and the kernel occupy are marked used before
`alloc_page` is called for the first time.

The addresses come from the linker scripts, from `boot32.h` and from the binary that is
embedded.  The binary is a flat one, which ends before the `.bss` of the kernel.  What is
reserved for the kernel is the size of the binary, rounded up, and the kernel clears its
`.bss` behind that when it starts.
-/

namespace UlmerOS.Boot

open Transition (Run)

/-! ## Addresses -/

/-- `_boot_start`, from `i386.ld`. -/
def bootStart : Nat := 0x100000

/-- `EARLY_HEAP_START`, where `kheap_start_` stays. -/
def earlyHeapStart : Nat := 0x02000000

/-- `KERNEL_LOAD_ADDR`. -/
def kernelLoadAddr : Nat := 0x01000000

/-- `BOOT32_STACK_LOC`. -/
def boot32StackLoc : Nat := 0x01000000

/-- `BOOT32_STACK_PAGES`. -/
def boot32StackPages : Nat := 8

/-- What the two images have for an end: `_boot_end`, the size of the embedded binary, and
`_bss_end - _kernel_start`. -/
structure BootLayout where
  bootEnd : Nat
  kernelSize : Nat
  kernelMemSize : Nat

/-! ## Marking pages -/

/-- `mark_pages_used`.  A page behind the end of the bitmap fails an assertion of `bitmap_set`
in the debug build.  Otherwise a byte behind the bitmap is written, which is left out. -/
def markPagesUsed (debug : Bool) (pb : PageBitmap) (startPage : Nat) : Nat → Outcome PageBitmap
  | 0 => .ret pb
  | count + 1 =>
      if h : startPage < pb.size then
        markPagesUsed debug (pb.set startPage h) (startPage + 1) count
      else if debug then .panic "assert failed: bitmap_set(): out of bounds"
      else markPagesUsed debug pb (startPage + 1) count

/-- `kbrk`, once there is a bitmap.  Before `alloc_boot32_pages` memory is only taken from the
heap. -/
def kbrk (debug : Bool) (s : PageBitmap × Nat) (increment : Nat) :
    Outcome (PageBitmap × Nat) := do
  let kheapBreak := wrap32 (s.2 + increment)
  let origBrkPage := s.2 >>> pageShift
  let newBrkPage := kheapBreak >>> pageShift + 1
  let pb ← markPagesUsed debug s.1 origBrkPage (newBrkPage + 1 - origBrkPage)
  .ret (pb, kheapBreak)

/-- `boot_page_count`. -/
def BootLayout.bootPageCount (layout : BootLayout) : Nat :=
  (layout.bootEnd - bootStart) >>> pageShift + 1

/-- `kernel_page_count`. -/
def BootLayout.kernelPageCount (layout : BootLayout) : Nat := layout.kernelSize >>> pageShift + 1

/-- `alloc_boot32_pages`, on the bitmap and `kheap_break_`. -/
def allocBoot32Pages (debug : Bool) (layout : BootLayout) (s : PageBitmap × Nat) :
    Outcome PageBitmap := do
  let pb ← markPagesUsed debug s.1 (bootStart >>> pageShift) layout.bootPageCount
  let stackStartPage := boot32StackLoc >>> pageShift - boot32StackPages
  let pb ← markPagesUsed debug pb stackStartPage boot32StackPages
  let heapStartPage := earlyHeapStart >>> pageShift
  let heapEndPage := s.2 >>> pageShift + 1
  let pb ← markPagesUsed debug pb heapStartPage (heapEndPage - heapStartPage)
  markPagesUsed debug pb (kernelLoadAddr >>> pageShift) layout.kernelPageCount

/-- `boot32_main` from the return of `create_pagemap` to that of `alloc_boot32_pages`, with
what `get_multiboot_info` takes from the heap. -/
def boot32Reserve (debug : Bool) (layout : BootLayout) (pb : PageBitmap) (kheapBreak : Nat)
    (increments : List Nat) : Outcome (PageBitmap × Nat) := do
  let s ← increments.foldlM (kbrk debug) (pb, kheapBreak)
  let pb ← allocBoot32Pages debug layout s
  .ret (pb, s.2)

/-! ## What is occupied, and what is handed out -/

/-- The frame and the range of addresses have a byte in common. -/
def Overlaps (f start stop : Nat) : Prop := f * pageSize < stop ∧ start < (f + 1) * pageSize

/-- The frame holds a part of the kernel in memory, with its `.bss`. -/
def BootLayout.InKernel (layout : BootLayout) (f : Nat) : Prop :=
  Overlaps f kernelLoadAddr (kernelLoadAddr + layout.kernelMemSize)

/-- The frame holds a part of the boot image, the boot stack, the boot heap or the kernel. -/
def BootLayout.Occupied (layout : BootLayout) (kheapBreak f : Nat) : Prop :=
  Overlaps f bootStart layout.bootEnd ∨
    Overlaps f (boot32StackLoc - boot32StackPages * pageSize) boot32StackLoc ∨
    Overlaps f earlyHeapStart kheapBreak ∨ layout.InKernel f

/-- Some sequence of calls makes `alloc_page` return the frame.  What is freed was handed
out. -/
def HandsOut (pb : PageBitmap) (f : Nat) : Prop :=
  ∃ calls s, Run FrameStep ⟨pb, []⟩ calls s ∧ .alloc f ∈ calls

/-- What a run hands out was free at its start. -/
theorem free_of_alloc {pb : PageBitmap} {s t : FrameState} {calls : List FrameCall} {f : Nat}
    (hinv : FrameInv pb s) (hrun : Run FrameStep s calls t) (hf : .alloc f ∈ calls) :
    pb.Free f := by
  induction hrun with
  | nil => cases hf
  | @cons s u t call calls hst hrest ih =>
      rcases List.mem_cons.mp hf with rfl | hf
      · cases hst with
        | alloc hret =>
            rcases s.bitmap.allocPage_cases with ⟨p, pb', hret', hfree, -⟩ | ⟨hpanic, -⟩
            · cases hret.symm.trans hret'
              have hnot := (hinv.not_used hfree).2
              by_contra hused
              exact hnot (pb.mem_used.mpr ⟨hinv.size_eq ▸ hfree.1, hused⟩)
            · cases hret.symm.trans hpanic
      · exact ih (hinv.step hst).1 hf

/-- `alloc_page` takes the least free frame, so that it comes to every free one. -/
theorem alloc_of_free {f : Nat} (n : Nat) {s : FrameState} (hf : s.bitmap.Free f)
    (hn : ∀ q, s.bitmap.Free q → f ≤ q + n) :
    ∃ calls t, Run FrameStep s calls t ∧ .alloc f ∈ calls := by
  induction n generalizing s with
  | zero =>
      rcases s.bitmap.allocPage_cases with ⟨p, pb, hret, hfree, hleast, -⟩ | ⟨-, hnone⟩
      · have hp : p = f := by
          have hle := hn p hfree
          by_contra hne
          exact hleast f (by omega) hf
        rw [hp] at hret
        exact ⟨[.alloc f], _, .cons (.alloc hret) .nil, List.mem_singleton_self _⟩
      · exact absurd hf (hnone f)
  | succ n ih =>
      rcases s.bitmap.allocPage_cases with ⟨p, pb, hret, hfree, hleast, -, hiff⟩ | ⟨-, hnone⟩
      · by_cases hp : p = f
        · rw [hp] at hret
          exact ⟨[.alloc f], _, .cons (.alloc hret) .nil, List.mem_singleton_self _⟩
        · have hf' : pb.Free f := (hiff f).mpr ⟨hf, fun h => hp h.symm⟩
          obtain ⟨calls, t, hrun, hmem⟩ := ih (s := ⟨pb, p :: s.live⟩) hf' fun q hq => by
            have hle := hn p hfree
            have hgt : p < q := by
              by_contra hlt
              obtain ⟨hfreeq, hne⟩ := (hiff q).mp hq
              exact hleast q (by omega) hfreeq
            omega
          exact ⟨.alloc p :: calls, t, .cons (.alloc hret) hrun, List.mem_cons_of_mem _ hmem⟩
      · exact absurd hf (hnone f)

/-- The frames that are free can be handed out, and no others. -/
theorem handsOut_iff (pb : PageBitmap) (f : Nat) : HandsOut pb f ↔ pb.Free f := by
  constructor
  · rintro ⟨calls, t, hrun, hf⟩
    exact free_of_alloc (FrameInv.init pb) hrun hf
  · intro hf
    exact alloc_of_free f (s := ⟨pb, []⟩) hf fun q _ => Nat.le_add_left f q

/-! ## What is marked -/

theorem markPagesUsed_ret {debug : Bool} {pb pb' : PageBitmap} {startPage count : Nat}
    (h : markPagesUsed debug pb startPage count = .ret pb') (f : Nat) :
    pb'.Free f ↔ pb.Free f ∧ ¬ (startPage ≤ f ∧ f < startPage + count) := by
  induction count generalizing pb startPage with
  | zero =>
      cases h
      exact (and_iff_left (by omega)).symm
  | succ count ih =>
      rw [markPagesUsed] at h
      split at h
      next hlt =>
        rw [ih h, pb.free_set, and_assoc]
        exact and_congr Iff.rfl ⟨fun hf => by omega, fun hf => by omega⟩
      next hge =>
        split at h
        next => cases h
        next =>
          rw [ih h]
          exact and_congr_right fun hf => by have := hf.1; omega

/-- The release build always goes on. -/
theorem markPagesUsed_release (pb : PageBitmap) (startPage count : Nat) :
    ∃ pb', markPagesUsed false pb startPage count = .ret pb' := by
  induction count generalizing pb startPage with
  | zero => exact ⟨pb, rfl⟩
  | succ count ih =>
      rw [markPagesUsed]
      split
      next => exact ih _ _
      next => exact ih _ _

/-- What `alloc_boot32_pages` marks: the boot image, the boot stack, the boot heap and the
binary of the kernel. -/
theorem allocBoot32Pages_ret {debug : Bool} {layout : BootLayout} {pb pb' : PageBitmap}
    {kheapBreak : Nat} (h : allocBoot32Pages debug layout (pb, kheapBreak) = .ret pb') (f : Nat) :
    pb'.Free f ↔ pb.Free f ∧ ¬ (0x100 ≤ f ∧ f < 0x100 + layout.bootPageCount) ∧
      ¬ (0xff8 ≤ f ∧ f < 0x1000) ∧ ¬ (0x2000 ≤ f ∧ f < kheapBreak >>> pageShift + 1) ∧
      ¬ (0x1000 ≤ f ∧ f < 0x1000 + layout.kernelPageCount) := by
  obtain ⟨pb1, h1, h⟩ := Outcome.bind_eq_ret.mp h
  obtain ⟨pb2, h2, h⟩ := Outcome.bind_eq_ret.mp h
  obtain ⟨pb3, h3, h4⟩ := Outcome.bind_eq_ret.mp h
  rw [markPagesUsed_ret h4, markPagesUsed_ret h3, markPagesUsed_ret h2, markPagesUsed_ret h1]
  simp only [and_assoc, bootStart, boot32StackLoc, boot32StackPages, earlyHeapStart,
    kernelLoadAddr, pageShift, Nat.shiftRight_eq_div_pow]
  refine and_congr_right fun _ => ?_
  omega

/-- `kbrk` marks pages of the heap. -/
theorem kbrk_ret {debug : Bool} {pb pb' : PageBitmap} {kheapBreak kheapBreak' increment : Nat}
    (h : kbrk debug (pb, kheapBreak) increment = .ret (pb', kheapBreak'))
    (hwrap : kheapBreak + increment < 2 ^ 32) :
    kheapBreak' = kheapBreak + increment ∧
      ∀ f, f < kheapBreak >>> pageShift → (pb'.Free f ↔ pb.Free f) := by
  obtain ⟨pb1, hmark, hret⟩ := Outcome.bind_eq_ret.mp h
  cases hret
  refine ⟨Nat.mod_eq_of_lt hwrap, fun f hf => ?_⟩
  rw [markPagesUsed_ret hmark]
  exact and_iff_left fun hrange => absurd hrange.1 (Nat.not_le.mpr hf)

theorem kbrks_ret {debug : Bool} {pb pb' : PageBitmap} {kheapBreak kheapBreak' : Nat}
    {increments : List Nat}
    (h : increments.foldlM (kbrk debug) (pb, kheapBreak) = .ret (pb', kheapBreak'))
    (hwrap : kheapBreak + increments.sum < 2 ^ 32) {f : Nat} (hf : f < kheapBreak >>> pageShift) :
    pb'.Free f ↔ pb.Free f := by
  induction increments generalizing pb kheapBreak with
  | nil =>
      cases h
      exact Iff.rfl
  | cons increment increments ih =>
      rw [List.foldlM_cons] at h
      rw [List.sum_cons] at hwrap
      obtain ⟨⟨pb1, kheapBreak1⟩, hfirst, hrest⟩ := Outcome.bind_eq_ret.mp h
      obtain ⟨rfl, hfree⟩ := kbrk_ret hfirst (by omega)
      have hup : kheapBreak >>> pageShift ≤ (kheapBreak + increment) >>> pageShift := by
        rw [Nat.shiftRight_eq_div_pow, Nat.shiftRight_eq_div_pow]
        exact Nat.div_le_div_right (Nat.le_add_right _ _)
      rw [ih hrest (by omega) (hf.trans_le hup), hfree f hf]

theorem kbrks_release (s : PageBitmap × Nat) (increments : List Nat) :
    ∃ t, increments.foldlM (kbrk false) s = .ret t := by
  induction increments generalizing s with
  | nil => exact ⟨s, rfl⟩
  | cons increment increments ih =>
      obtain ⟨pb, hpb⟩ := markPagesUsed_release s.1 (s.2 >>> pageShift)
        (wrap32 (s.2 + increment) >>> pageShift + 1 + 1 - s.2 >>> pageShift)
      rw [List.foldlM_cons, kbrk, hpb]
      exact ih _

theorem boot32Reserve_release (layout : BootLayout) (pb : PageBitmap) (kheapBreak : Nat)
    (increments : List Nat) :
    ∃ pb' kheapBreak', boot32Reserve false layout pb kheapBreak increments =
      .ret (pb', kheapBreak') := by
  obtain ⟨⟨pb0, brk⟩, h0⟩ := kbrks_release (pb, kheapBreak) increments
  obtain ⟨pb1, h1⟩ := markPagesUsed_release pb0 (bootStart >>> pageShift) layout.bootPageCount
  obtain ⟨pb2, h2⟩ := markPagesUsed_release pb1
    (boot32StackLoc >>> pageShift - boot32StackPages) boot32StackPages
  obtain ⟨pb3, h3⟩ := markPagesUsed_release pb2 (earlyHeapStart >>> pageShift)
    (brk >>> pageShift + 1 - earlyHeapStart >>> pageShift)
  obtain ⟨pb4, h4⟩ := markPagesUsed_release pb3 (kernelLoadAddr >>> pageShift)
    layout.kernelPageCount
  have hpages : allocBoot32Pages false layout (pb0, brk) = .ret pb4 :=
    Outcome.bind_eq_ret.mpr ⟨pb1, h1, Outcome.bind_eq_ret.mpr ⟨pb2, h2,
      Outcome.bind_eq_ret.mpr ⟨pb3, h3, h4⟩⟩⟩
  exact ⟨pb4, brk, Outcome.bind_eq_ret.mpr ⟨(pb0, brk), h0,
    Outcome.bind_eq_ret.mpr ⟨pb4, hpages, rfl⟩⟩⟩

/-! ## What is reserved -/

/-- The kernel ends in the last page that is reserved for its binary. -/
def BootLayout.KernelFits (layout : BootLayout) : Prop :=
  layout.kernelMemSize ≤ layout.kernelPageCount * pageSize

/-- The boot image ends before the boot stack, and the kernel before the boot heap. -/
structure BootLayout.Apart (layout : BootLayout) : Prop where
  image : layout.bootEnd ≤ boot32StackLoc - boot32StackPages * pageSize
  kernel : kernelLoadAddr + layout.kernelMemSize ≤ earlyHeapStart

/-- If the kernel ends in the pages of its binary, what is occupied is marked. -/
theorem not_occupied_of_free {debug : Bool} {layout : BootLayout} {pb pb' : PageBitmap}
    {kheapBreak : Nat} (h : allocBoot32Pages debug layout (pb, kheapBreak) = .ret pb')
    (hfits : layout.KernelFits) {f : Nat} (hf : pb'.Free f) : ¬ layout.Occupied kheapBreak f := by
  obtain ⟨-, himage, hstack, hheap, hkernel⟩ := (allocBoot32Pages_ret h f).mp hf
  simp only [BootLayout.KernelFits, BootLayout.bootPageCount, BootLayout.kernelPageCount,
    bootStart, pageShift, pageSize, Nat.shiftRight_eq_div_pow] at *
  rintro (⟨h1, h2⟩ | ⟨h1, h2⟩ | ⟨h1, h2⟩ | ⟨h1, h2⟩)
  · simp only [bootStart, pageSize] at h1 h2
    omega
  · simp only [boot32StackLoc, boot32StackPages, pageSize] at h1 h2
    omega
  · simp only [earlyHeapStart, pageSize] at h1 h2
    omega
  · simp only [kernelLoadAddr, pageSize] at h1 h2
    omega

/-- The first page behind those of the binary. -/
def BootLayout.nextPage (layout : BootLayout) : Nat := 0x1000 + layout.kernelPageCount

/-- The kernel runs on into that page if it does not fit. -/
theorem inKernel_nextPage {layout : BootLayout} (hfits : ¬ layout.KernelFits) :
    layout.InKernel layout.nextPage := by
  simp only [BootLayout.KernelFits, BootLayout.InKernel, BootLayout.nextPage, Overlaps,
    kernelLoadAddr, pageSize] at *
  omega

/-- The page is none of the others that are reserved, and free if it was before. -/
theorem free_nextPage {debug : Bool} {layout : BootLayout} {pb pb' : PageBitmap}
    {kheapBreak : Nat} (h : allocBoot32Pages debug layout (pb, kheapBreak) = .ret pb')
    (hapart : layout.Apart) (hin : layout.InKernel layout.nextPage)
    (hfree : pb.Free layout.nextPage) : pb'.Free layout.nextPage := by
  obtain ⟨himage, hkernel⟩ := hapart
  have hpos : 0 < layout.kernelPageCount := Nat.succ_pos _
  have hbelow := hin.1
  refine (allocBoot32Pages_ret h _).mpr ⟨hfree, ?_⟩
  simp only [BootLayout.nextPage, BootLayout.bootPageCount, bootStart, boot32StackLoc,
    boot32StackPages, kernelLoadAddr, earlyHeapStart, pageShift, pageSize,
    Nat.shiftRight_eq_div_pow] at *
  omega

/-- The page lies before the heap. -/
theorem nextPage_lt {layout : BootLayout} {kheapBreak : Nat} (hapart : layout.Apart)
    (hin : layout.InKernel layout.nextPage) (hstart : earlyHeapStart ≤ kheapBreak) :
    layout.nextPage < kheapBreak >>> pageShift := by
  have hbelow := hin.1
  have hkernel := hapart.kernel
  simp only [kernelLoadAddr, earlyHeapStart, pageShift, pageSize,
    Nat.shiftRight_eq_div_pow] at *
  omega

/-- No frame that is occupied is handed out, if the kernel ends in the pages that are reserved
for its binary, and only then where the kernel lies in memory that is available. -/
theorem boot_reservation {debug : Bool} {layout : BootLayout} {pb pb' : PageBitmap}
    {kheapBreak kheapBreak' : Nat} {increments : List Nat}
    (hboot : boot32Reserve debug layout pb kheapBreak increments = .ret (pb', kheapBreak')) :
    (layout.KernelFits → ∀ f, HandsOut pb' f → ¬ layout.Occupied kheapBreak' f) ∧
    (layout.Apart → earlyHeapStart ≤ kheapBreak → kheapBreak + increments.sum < 2 ^ 32 →
      (∀ f, layout.InKernel f → pb.Free f) →
      (∀ f, HandsOut pb' f → ¬ layout.Occupied kheapBreak' f) → layout.KernelFits) := by
  obtain ⟨⟨pb1, brk⟩, hheap, h⟩ := Outcome.bind_eq_ret.mp hboot
  obtain ⟨pb2, hpages, hret⟩ := Outcome.bind_eq_ret.mp h
  cases hret
  constructor
  · intro hfits f hf
    exact not_occupied_of_free hpages hfits ((handsOut_iff _ f).mp hf)
  · intro hapart hstart hwrap hram hnone
    by_contra hfits
    have hin := inKernel_nextPage hfits
    have hfree := (kbrks_ret hheap hwrap (nextPage_lt hapart hin hstart)).mpr (hram _ hin)
    exact hnone _ ((handsOut_iff _ _).mpr (free_nextPage hpages hapart hin hfree))
      (.inr (.inr (.inr hin)))

/-- 48 MiB of memory, all of it available. -/
def availableRam : PageBitmap where
  bmp := ⟨0x3000, List.replicate 0x600 0⟩
  length_eq := by rw [List.length_replicate]; rfl
  padded := fun i hi hb => by
    rw [List.length_replicate] at hb
    dsimp only at hi
    omega

theorem availableRam_free {f : Nat} (hf : f < 0x3000) : availableRam.Free f := by
  refine ⟨hf, ?_⟩
  have hzero : (List.replicate 0x600 (0 : UInt8)).getD (f / 8) 0 = 0 := by
    rw [List.getD_eq_getElem?_getD, List.getElem?_replicate]
    split <;> rfl
  rw [bitmapGet, show availableRam.bmp.bytes = List.replicate 0x600 0 from rfl, hzero]
  exact Nat.zero_testBit (f % 8)

/-- A kernel whose `.bss` ends in the last page of its binary. -/
def fittingLayout : BootLayout where
  bootEnd := 0x130000
  kernelSize := 0x20400
  kernelMemSize := 0x20c00

theorem boot_reservation_fitting : ∃ pb kheapBreak,
    boot32Reserve false fittingLayout availableRam 0x2001000 [0x400] = .ret (pb, kheapBreak) ∧
      ∀ f, HandsOut pb f → ¬ fittingLayout.Occupied kheapBreak f := by
  obtain ⟨pb, kheapBreak, h⟩ :=
    boot32Reserve_release fittingLayout availableRam 0x2001000 [0x400]
  exact ⟨pb, kheapBreak, h, (boot_reservation h).1 (by unfold BootLayout.KernelFits; decide)⟩

/-- The same kernel with a larger `.bss`. -/
def largeBssLayout : BootLayout where
  bootEnd := 0x130000
  kernelSize := 0x20400
  kernelMemSize := 0x28000

/-- The page behind the binary belongs to its `.bss`, and it can be handed out. -/
theorem bss_handed_out : ∃ pb kheapBreak,
    boot32Reserve false largeBssLayout availableRam 0x2001000 [0x400] = .ret (pb, kheapBreak) ∧
      HandsOut pb 0x1021 ∧ largeBssLayout.InKernel 0x1021 := by
  have hfits : ¬ largeBssLayout.KernelFits := by unfold BootLayout.KernelFits; decide
  have hapart : largeBssLayout.Apart := ⟨by decide, by decide⟩
  have hin := inKernel_nextPage hfits
  obtain ⟨pb, kheapBreak, h⟩ :=
    boot32Reserve_release largeBssLayout availableRam 0x2001000 [0x400]
  refine ⟨pb, kheapBreak, h, ?_, hin⟩
  obtain ⟨⟨pb1, brk⟩, hheap, h⟩ := Outcome.bind_eq_ret.mp h
  obtain ⟨pb2, hpages, hret⟩ := Outcome.bind_eq_ret.mp h
  cases hret
  have hfree := (kbrks_ret hheap (by decide) (nextPage_lt hapart hin (by decide))).mpr
    (availableRam_free (by decide))
  exact (handsOut_iff _ _).mpr (free_nextPage hpages hapart hin hfree)

end UlmerOS.Boot
