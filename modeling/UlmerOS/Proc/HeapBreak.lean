import UlmerOS.Lib.Run
import UlmerOS.Proc.Conservation
import UlmerOS.Proc.Sbrk
import UlmerOS.Proc.Segments

/-!
# The heap follows its break

`sys_sbrk` adds a signed increment to the break and compares the sum, which is one of `size_t`,
with the start of the heap.  So a break is only clamped as long as the exact sum is not negative
(`sbrk_moves_break`): one byte less and it is behind the end of the user's half.

With sums that do not wrap the pages of the heap follow the break.  The loop of `sys_sbrk` goes
over the pages that start between the new break and the old one, whichever of them is at the
start of a page (`BreakStep.sbrk_spec`).  A page that `heap_load` has mapped has a byte below the
break, and since the heap starts with a page, it is between the two breaks or has a byte below
the new one.
-/

namespace UlmerOS

open Transition
open ByteMem (Mem)

/-! ## One call -/

section

variable {m : PhysMem} {proc : Proc} {increment : Int}

theorem sysSbrk_grow (hbrk : proc.heapBrk ≠ minusOne) (hpos : 0 ≤ increment) :
    sysSbrk m proc increment =
      .ret (proc.heapBrk, { proc with heapBrk := proc.nextBreak increment }, m) := by
  rw [sysSbrk, if_neg hbrk]
  exact if_neg (Int.not_lt.mpr hpos)

/-- A break that is not at zero has a last page below it. -/
theorem lastUnmap_ne {brk : Nat} (hpos : 0 < brk) (hlt : brk < word) :
    lastUnmap brk ≠ minusOne := by
  have hmax : minusOne = 2 ^ 64 - 1 := rfl
  rw [lastUnmap, wrap64, hmax, pageSize, pageShift, Nat.shiftRight_eq_div_pow]
  rw [word] at *
  split <;> omega

theorem sysSbrk_shrink (hbrk : proc.heapBrk ≠ minusOne) (hword : proc.heapBrk < word)
    (hneg : increment < 0) (hlow : 0 ≤ proc.heapBrk + increment) :
    sysSbrk m proc increment =
      .ret (proc.heapBrk, { proc with heapBrk := proc.nextBreak increment },
        unmapRange proc.vspace (firstUnmap (proc.nextBreak increment))
          (lastUnmap proc.heapBrk + 1 - firstUnmap (proc.nextBreak increment)) m) := by
  have hlast : lastUnmap proc.heapBrk ≠ minusOne := lastUnmap_ne (by omega) hword
  rw [sysSbrk, if_neg hbrk]
  simp only [if_pos hneg, if_neg hlast]

/-- A call moves the break as it was asked to, or it refuses to move it up. -/
def MovesBreak (m : PhysMem) (proc : Proc) (increment : Int) : Prop :=
  ∃ value proc' m', sysSbrk m proc increment = .ret (value, proc', m') ∧
    (increment < 0 → value = proc.heapBrk ∧ proc.loader.minHeapBreak ≤ proc'.heapBrk ∧
      proc'.heapBrk ≤ proc.heapBrk) ∧
    (0 ≤ increment → value = proc.heapBrk ∧ (proc'.heapBrk : Int) = proc.heapBrk + increment ∨
      value = minusOne ∧ proc' = proc ∧ m' = m)

/-- A negative sum leaves a break behind the end of the user's half. -/
theorem nextBreak_wraps (hhigh : proc.heapBrk ≤ userBreak)
    (hmin : proc.loader.minHeapBreak ≤ userBreak) (hinc : -2 ^ 63 ≤ increment)
    (hlow : proc.heapBrk + increment < 0) : userBreak < proc.nextBreak increment := by
  have hsum : userBreak < wrap64 (proc.heapBrk + toSize increment) := by
    simp only [wrap64, toSize, word, userBreak] at *
    omega
  rw [Proc.nextBreak, if_neg (by omega)]
  exact hsum

/-- **`sbrk` moves the break as asked.**  A process whose break is in the heap and not behind
`USER_BREAK` makes a call.  It returns the old break, a negative increment leaves the new one
between the start of the heap and the old one, and a positive one adds what it says, if and only
if the sum is not negative. -/
theorem sbrk_moves_break (hmin : proc.loader.minHeapBreak ≤ proc.heapBrk)
    (hhigh : proc.heapBrk ≤ userBreak) (hinc : -2 ^ 63 ≤ increment ∧ increment < 2 ^ 63) :
    MovesBreak m proc increment ↔ 0 ≤ proc.heapBrk + increment := by
  have hword : userBreak < minusOne := by decide
  have hbrk : proc.heapBrk ≠ minusOne := by omega
  constructor
  · rintro ⟨value, proc', m', hret, hdown, -⟩
    by_contra hlow
    obtain ⟨-, -, hle⟩ := hdown (by omega)
    rcases sysSbrk_ret hret with ⟨heq, -⟩ | ⟨-, rfl, -⟩
    · exact hbrk heq
    · have hwraps := nextBreak_wraps hhigh (by omega) hinc.1 (Int.not_le.mp hlow)
      exact absurd (hle.trans hhigh) (Nat.not_le.mpr hwraps)
  · intro hlow
    have hsum : proc.heapBrk + increment < word := by
      simp only [word, userBreak] at *
      omega
    have hnext := Proc.nextBreak_exact hlow hsum
    by_cases hneg : increment < 0
    · refine ⟨_, _, _, sysSbrk_shrink hbrk ?_ hneg hlow, fun _ => ⟨rfl, ?_, ?_⟩, fun hpos => ?_⟩
      · exact Nat.lt_of_le_of_lt hhigh (by decide)
      · show proc.loader.minHeapBreak ≤ proc.nextBreak increment
        omega
      · show proc.nextBreak increment ≤ proc.heapBrk
        omega
      · exact absurd hneg (Int.not_lt.mpr hpos)
    · refine ⟨_, _, _, sysSbrk_grow hbrk (Int.not_lt.mp hneg), fun h => absurd h hneg, fun _ => ?_⟩
      left
      refine ⟨rfl, ?_⟩
      show (proc.nextBreak increment : Int) = _
      rw [hnext, max_eq_left (by omega)]

end

/-- A process whose heap has one page gives it back. -/
theorem sbrk_moves_break_page :
    MovesBreak emptyMachine { Sbrk.heapProc with heapBrk := 0x401000 } (-4096) := by
  have hsum : 0 ≤ ((0x401000 : Nat) : Int) + -4096 := by decide
  exact (sbrk_moves_break (by decide) (by decide) (by decide)).mpr hsum

/-- An increment below zero by a byte moves the break to the end of the word. -/
theorem sbrk_behind_user_break : ¬ ∀ (m : PhysMem) (proc : Proc) (increment : Int),
    proc.loader.minHeapBreak ≤ proc.heapBrk → proc.heapBrk ≤ userBreak →
    -2 ^ 63 ≤ increment ∧ increment < 2 ^ 63 → MovesBreak m proc increment := by
  intro h
  obtain ⟨value, proc', m', hret, hdown, -⟩ :=
    h emptyMachine Sbrk.heapProc (-0x400001) (by decide) (by decide) (by decide)
  obtain ⟨-, -, hle⟩ := hdown (by decide)
  rcases sysSbrk_ret hret with ⟨hbrk, -⟩ | ⟨-, rfl, -⟩
  · exact absurd hbrk (by decide)
  · exact absurd hle (by decide)

/-! ## What unmapping gives back -/

section

variable {m0 m : PhysMem} {kernel vs : Vspace}

/-- A frame is that of one page of the lower half. -/
theorem Owned.page_eq (ho : Owned m0 kernel vs m) {v w : Nat} {a b : Mapping}
    (hv : v < userBreak >>> pageShift) (hw : w < userBreak >>> pageShift)
    (ha : translation m vs v = some a) (hb : translation m vs w = some b)
    (hppn : a.ppn = b.ppn) : v = w := by
  have hpath : pagePath v = pagePath w := by
    refine ho.inj (pagePath v) (pagePath w) a.ppn (userPath_pagePath.mpr (lower_of_lt hv))
      (userPath_pagePath.mpr (lower_of_lt hw)) (Nat.le_refl 4) (Nat.le_refl 4) ?_ ?_
    · rw [walk_pagePath, ha]
      rfl
    · rw [walk_pagePath, hb, hppn]
      rfl
  by_contra hne
  exact mod_ne_of_lt hv hw hne (pagePath_inj.mp hpath)

/-- What unmapping a page gives back. -/
def freeCall (m : PhysMem) (vs : Vspace) (page : Nat) : Option PageCall :=
  (translation m vs page).map fun mp => .free mp.ppn

theorem freeCall_eq_some {page : Nat} {c : PageCall} :
    freeCall m vs page = some c ↔ ∃ mp, translation m vs page = some mp ∧ c = .free mp.ppn := by
  rw [freeCall, Option.map_eq_some_iff]
  simp only [eq_comm]

/-- Unmapping a page gives its frame back if it is mapped. -/
theorem Owned.unmap_calls (ho : Owned m0 kernel vs m) (hk : KernelTables m0 kernel) {virt : Nat}
    (hu : virt < userBreak >>> pageShift) :
    (vspaceUnmap m vs virt).2.calls = (freeCall m vs virt).toList ++ m.calls := by
  rw [freeCall]
  cases htr : translation m vs virt with
  | none =>
      rw [vspaceUnmap_none htr]
      rfl
  | some mp =>
      have hw : walk m vs (pagePath virt) = some mp.ppn := by rw [walk_pagePath, htr]; rfl
      obtain ⟨h0, -⟩ :=
        ho.taken _ mp.ppn (userPath_pagePath.mpr (lower_of_lt hu)) (Nat.le_refl 4) hw
      have hlt : mp.ppn < 2 ^ 32 := Nat.lt_of_lt_of_le h0.1 m0.freePages.small
      obtain ⟨m1, heq, -, -, hcalls⟩ := vspaceUnmap_some (ho.separated hk) htr (by omega)
      rw [heq, freePage_calls, hcalls]
      rfl

/-- The pages that the loop of `sys_sbrk` goes over are not mapped after it. -/
theorem Owned.unmapRange_none (ho : Owned m0 kernel vs m) (hk : KernelTables m0 kernel)
    (first n : Nat) (hu : ∀ page, first ≤ page → page < first + n → page < userBreak >>> pageShift)
    {w : Nat} (hw : translation m vs w = none ∨ first ≤ w ∧ w < first + n) :
    translation (UlmerOS.unmapRange vs first n m) vs w = none := by
  induction n generalizing first m with
  | zero => exact hw.resolve_right (by omega)
  | succ n ih =>
      obtain ⟨m1, heq, ho1, -, ht1⟩ := ho.unmap hk fun _ =>
        lower_of_lt (hu first (Nat.le_refl first) (by omega))
      rw [UlmerOS.unmapRange, heq]
      refine ih ho1 (first + 1) (fun page h1 h2 => hu page (by omega) (by omega)) ?_
      rcases hw with hnone | ⟨h1, h2⟩
      · left
        rw [ht1, hnone, ite_self]
      · rcases Nat.eq_or_lt_of_le h1 with rfl | hlt
        · left
          rw [ht1, if_pos rfl]
        · exact .inr ⟨hlt, by omega⟩

/-- The loop gives the frames back in the order of the pages. -/
theorem Owned.unmapRange_log (ho : Owned m0 kernel vs m) (hk : KernelTables m0 kernel)
    (first n : Nat)
    (hu : ∀ page, first ≤ page → page < first + n → page < userBreak >>> pageShift) :
    (UlmerOS.unmapRange vs first n m).calls =
      ((List.range' first n).filterMap (freeCall m vs)).reverse ++ m.calls := by
  induction n generalizing first m with
  | zero => rfl
  | succ n ih =>
      have hfirst := hu first (Nat.le_refl first) (by omega)
      obtain ⟨m1, heq, ho1, -, ht1⟩ := ho.unmap hk fun _ => lower_of_lt hfirst
      have hcalls := ho.unmap_calls hk hfirst
      have hrest := ih ho1 (first + 1) fun page h1 h2 => hu page (by omega) (by omega)
      -- the pages behind the first keep their frames
      have hkeep : (List.range' (first + 1) n).filterMap (freeCall m1 vs) =
          (List.range' (first + 1) n).filterMap (freeCall m vs) := by
        refine List.filterMap_congr fun page hpage => ?_
        obtain ⟨h1, h2⟩ := List.mem_range'_1.mp hpage
        rw [freeCall, ht1, if_neg (mod_ne_of_lt (hu page (by omega) (by omega)) hfirst (by omega))]
        rfl
      rw [heq] at hcalls
      rw [UlmerOS.unmapRange, heq, hrest, hkeep, hcalls, List.range'_succ, List.filterMap_cons]
      cases freeCall m vs first with
      | none => rfl
      | some c => simp

/-- Each frame is given back once. -/
theorem Owned.nodup_freeCalls (ho : Owned m0 kernel vs m) {first n : Nat}
    (hu : ∀ page, first ≤ page → page < first + n → page < userBreak >>> pageShift) :
    ((List.range' first n).filterMap (freeCall m vs)).Nodup := by
  refine List.pairwise_filterMap.mpr ?_
  refine (List.nodup_range' (s := first) (n := n)).imp_of_mem fun hv hw hne c hc c' hc' => ?_
  obtain ⟨mp, htr, rfl⟩ := freeCall_eq_some.mp hc
  obtain ⟨mp', htr', rfl⟩ := freeCall_eq_some.mp hc'
  obtain ⟨h1, h2⟩ := List.mem_range'_1.mp hv
  obtain ⟨h3, h4⟩ := List.mem_range'_1.mp hw
  exact fun heq => hne (ho.page_eq (hu _ h1 h2) (hu _ h3 h4) htr htr' (PageCall.free.inj heq))

/-- The frames that the loop gives back are those of the pages that were mapped, each once. -/
theorem Owned.unmapRange_calls (ho : Owned m0 kernel vs m) (hk : KernelTables m0 kernel)
    (first n : Nat)
    (hu : ∀ page, first ≤ page → page < first + n → page < userBreak >>> pageShift) :
    ∃ log, (UlmerOS.unmapRange vs first n m).calls = log ++ m.calls ∧
      (∀ page mp, first ≤ page → page < first + n → translation m vs page = some mp →
        log.count (.free mp.ppn) = 1) ∧
      ∀ c ∈ log, ∃ page mp, first ≤ page ∧ page < first + n ∧
        translation m vs page = some mp ∧ c = .free mp.ppn := by
  refine ⟨_, ho.unmapRange_log hk first n hu, fun page mp h1 h2 htr => ?_, fun c hc => ?_⟩
  · rw [List.count_reverse]
    refine List.count_eq_one_of_mem (ho.nodup_freeCalls hu) ?_
    exact List.mem_filterMap.mpr
      ⟨page, List.mem_range'_1.mpr ⟨h1, h2⟩, freeCall_eq_some.mpr ⟨mp, htr, rfl⟩⟩
  · obtain ⟨page, hpage, hfree⟩ := List.mem_filterMap.mp (List.mem_reverse.mp hc)
    obtain ⟨h1, h2⟩ := List.mem_range'_1.mp hpage
    obtain ⟨mp, htr, rfl⟩ := freeCall_eq_some.mp hfree
    exact ⟨page, mp, h1, h2, htr, rfl⟩

end

/-! ## Runs of the two calls -/

/-- A process that uses its heap. -/
structure BreakState where
  proc : Proc
  mem : PhysMem
  /-- The pages that `heap_load` has mapped so far. -/
  loaded : List Nat

inductive BreakCall where
  /-- `sys_sbrk(increment)`. -/
  | sbrk (increment : Int)
  /-- `heap_load` for this address. -/
  | load (addr : Nat)

/-- The calls that return.  The exact break that is asked for is one of the user's half, and the
page of an address that faults is not mapped. -/
inductive BreakStep : BreakState → BreakCall → BreakState → Prop where
  | sbrk {s : BreakState} {increment : Int} {value : Nat} {proc' : Proc} {m' : PhysMem} :
      0 ≤ s.proc.heapBrk + increment → s.proc.heapBrk + increment ≤ userBreak →
      sysSbrk s.mem s.proc increment = .ret (value, proc', m') →
      BreakStep s (.sbrk increment) ⟨proc', m', s.loaded⟩
  | load {s : BreakState} {addr : Nat} {ret : Int} {m' : PhysMem} :
      translation s.mem s.proc.vspace (addr >>> pageShift) = none →
      heapLoad s.mem s.proc addr = .ret (ret, m') →
      BreakStep s (.load addr)
        ⟨s.proc, m', if ret = 0 then addr >>> pageShift :: s.loaded else s.loaded⟩

/-- The page has a byte of the heap. -/
def Proc.InHeap (proc : Proc) (page : Nat) : Prop :=
  ∃ a, proc.loader.minHeapBreak ≤ a ∧ a < proc.heapBrk ∧ a >>> pageShift = page

/-- The heap has not been used. -/
structure HeapStart (m0 : PhysMem) (kernel : Vspace) (s : BreakState) : Prop where
  owned : Owned m0 kernel s.proc.vspace s.mem
  aligned : pageSize ∣ s.proc.loader.minHeapBreak ∨ s.proc.loader.minHeapBreak = minusOne
  empty : s.proc.heapBrk = s.proc.loader.minHeapBreak
  fresh : s.loaded = []

/-- The break is in the user's half or the heap is empty, and the pages of the heap are below
it. -/
structure Tracked (m0 : PhysMem) (kernel : Vspace) (s : BreakState) : Prop where
  owned : Owned m0 kernel s.proc.vspace s.mem
  aligned : pageSize ∣ s.proc.loader.minHeapBreak ∨ userBreak < s.proc.loader.minHeapBreak
  low : s.proc.loader.minHeapBreak ≤ s.proc.heapBrk
  high : s.proc.heapBrk ≤ userBreak ∨ s.proc.heapBrk = s.proc.loader.minHeapBreak
  user : ∀ page ∈ s.loaded, page < userBreak >>> pageShift
  inHeap : ∀ page ∈ s.loaded, translation s.mem s.proc.vspace page ≠ none → s.proc.InHeap page

/-- The heap of a process that was started from a loader has not been used. -/
theorem heapStart_of_procStart {m0 m : PhysMem} {kernel : Vspace} {hdrBuf phtBuf : Mem}
    {file : File} {ldr : Loader} {proc : Proc} (hkernel : KernelTables m0 kernel)
    (hldr : loaderCreate hdrBuf phtBuf file = some ldr)
    (hstart : procStart m0 kernel ldr = .ret (proc, m)) :
    HeapStart m0 kernel ⟨proc, m, []⟩ := by
  obtain ⟨hc, hproc⟩ := procStart_ret hkernel.used hstart
  have hloader : proc.loader = ldr := by rw [hproc]
  refine ⟨(hc.owned hkernel.used).1, ?_, by rw [hproc], rfl⟩
  rw [hloader]
  exact loaderCreate_aligned hldr

section

variable {m0 m m' : PhysMem} {kernel : Vspace} {proc : Proc} {s t : BreakState}

/-- `heap_load` maps a fresh page for an address in the heap, and does nothing for another. -/
theorem heapLoad_ret {addr : Nat} {ret : Int} (hsep : Separated m proc.vspace)
    (hused : TablesUsed m proc.vspace) (h : heapLoad m proc addr = .ret (ret, m')) :
    (ret ≠ 0 ∧ m' = m) ∨ (ret = 0 ∧ proc.InHeap (addr >>> pageShift) ∧
      MapFresh proc.vspace m (addr >>> pageShift) 0 [] (pgWrite ||| pgUser) true m') := by
  rw [heapLoad] at h
  split at h
  · rename_i hin
    obtain ⟨⟨ppn, m1⟩, halloc, h⟩ := Outcome.bind_eq_ret.mp h
    obtain ⟨m2, hmap, h⟩ := Outcome.bind_eq_ret.mp h
    cases h
    exact .inr ⟨rfl, ⟨addr, hin.1, hin.2, rfl⟩, mapFresh_of_map hsep hused halloc hmap⟩
  · cases h
    exact .inl ⟨by decide, rfl⟩

/-- What a call of `sys_sbrk` does: it goes over the pages that start between the two breaks. -/
theorem BreakStep.sbrk_spec {increment : Int} (h : BreakStep s (.sbrk increment) t)
    (hlow : s.proc.loader.minHeapBreak ≤ s.proc.heapBrk)
    (hhigh : s.proc.heapBrk ≤ userBreak ∨ s.proc.heapBrk = s.proc.loader.minHeapBreak) :
    ∃ brk first n : Nat, (brk : Int) = max (s.proc.heapBrk + increment) s.proc.loader.minHeapBreak ∧
      t = ⟨{ s.proc with heapBrk := brk }, unmapRange s.proc.vspace first n s.mem, s.loaded⟩ ∧
      ∀ page, first ≤ page ∧ page < first + n ↔
        brk ≤ pageSize * page ∧ pageSize * page < s.proc.heapBrk := by
  have hlimit : userBreak < minusOne := by decide
  have hword : userBreak < word := by decide
  cases h with
  | sbrk hpos huser hret =>
      have hnext := Proc.nextBreak_exact hpos (by omega)
      by_cases hbrk : s.proc.heapBrk = minusOne
      · -- the heap is empty and there is none
        rw [sysSbrk, if_pos hbrk] at hret
        cases hret
        exact ⟨s.proc.heapBrk, 0, 0, by omega, rfl, fun page => by omega⟩
      by_cases hneg : increment < 0
      · rcases hhigh with hhigh | hempty
        · rw [sysSbrk_shrink hbrk (Nat.lt_of_le_of_lt hhigh hword) hneg hpos] at hret
          cases hret
          have hlast : lastUnmap s.proc.heapBrk ≠ minusOne :=
            lastUnmap_ne (by omega) (Nat.lt_of_le_of_lt hhigh hword)
          refine ⟨_, _, _, hnext, rfl, fun page => ⟨fun h => ?_, fun h => ?_⟩⟩
          · exact unmapped_pages hlast h.1 h.2
          · exact mem_unmapped (Nat.lt_of_le_of_lt hhigh hword) h.1 h.2
        · rcases sysSbrk_ret hret with ⟨heq, -⟩ | ⟨-, rfl, first, n, rfl, hpages⟩
          · exact absurd heq hbrk
          · refine ⟨_, first, n, hnext, rfl, fun page => ⟨fun h => ?_, fun h => by omega⟩⟩
            exact (hpages page h.1 h.2).2
      · rw [sysSbrk_grow hbrk (Int.not_lt.mp hneg)] at hret
        cases hret
        exact ⟨_, 0, 0, hnext, rfl, fun page => by omega⟩

namespace Tracked

theorem of_start (h : HeapStart m0 kernel s) : Tracked m0 kernel s := by
  refine ⟨h.owned, h.aligned.imp_right ?_, h.empty.ge, .inr h.empty, ?_, ?_⟩
  · intro hmin
    rw [hmin]
    decide
  · rw [h.fresh]
    nofun
  · rw [h.fresh]
    nofun

/-- A page that has a byte of the heap starts in it. -/
theorem inHeap_iff (h : Tracked m0 kernel s) {page : Nat} : s.proc.InHeap page ↔
    s.proc.loader.minHeapBreak ≤ pageSize * page ∧ pageSize * page < s.proc.heapBrk := by
  have hlow := h.low
  have hhigh := h.high
  constructor
  · rintro ⟨a, hmin, hbrk, rfl⟩
    rcases h.aligned with ⟨k, hk⟩ | huser
    · rw [pageShift, Nat.shiftRight_eq_div_pow, pageSize] at *
      omega
    · omega
  · rintro ⟨hmin, hbrk⟩
    refine ⟨pageSize * page, hmin, hbrk, ?_⟩
    rw [pageShift, Nat.shiftRight_eq_div_pow, pageSize]
    omega

/-- A page that starts below the break and not below the heap is one of the user's half. -/
theorem page_lt (h : Tracked m0 kernel s) {page : Nat}
    (hmin : s.proc.loader.minHeapBreak ≤ pageSize * page)
    (hbrk : pageSize * page < s.proc.heapBrk) : page < userBreak >>> pageShift := by
  have hhigh := h.high
  rw [userBreak, pageShift, Nat.shiftRight_eq_div_pow]
  rw [pageSize, userBreak] at *
  omega

/-- The pages that `sys_sbrk` goes over. -/
theorem sbrk_spec (h : Tracked m0 kernel s) {increment : Int}
    (hstep : BreakStep s (.sbrk increment) t) :
    ∃ brk first n : Nat,
      (brk : Int) = max (s.proc.heapBrk + increment) s.proc.loader.minHeapBreak ∧
      t = ⟨{ s.proc with heapBrk := brk }, unmapRange s.proc.vspace first n s.mem, s.loaded⟩ ∧
      (∀ page, first ≤ page ∧ page < first + n ↔
        brk ≤ pageSize * page ∧ pageSize * page < s.proc.heapBrk) ∧
      ∀ page, first ≤ page → page < first + n → page < userBreak >>> pageShift := by
  obtain ⟨brk, first, n, hbrk, ht, hpages⟩ := hstep.sbrk_spec h.low h.high
  refine ⟨brk, first, n, hbrk, ht, hpages, fun page h1 h2 => ?_⟩
  obtain ⟨hnew, hold⟩ := (hpages page).mp ⟨h1, h2⟩
  exact h.page_lt (by omega) hold

theorem load {addr : Nat} (h : Tracked m0 kernel s) (hk : KernelTables m0 kernel)
    (hstep : BreakStep s (.load addr) t) : Tracked m0 kernel t := by
  have hused := h.owned.tablesUsed hk
  cases hstep with
  | load hnone hret =>
      rcases heapLoad_ret (h.owned.separated hk) hused hret with ⟨hne, rfl⟩ | ⟨rfl, hin, hmap⟩
      · rw [if_neg hne]
        exact ⟨h.owned, h.aligned, h.low, h.high, h.user, h.inHeap⟩
      · obtain ⟨hmin, hbrk⟩ := h.inHeap_iff.mp hin
        have hlt := h.page_lt hmin hbrk
        refine ⟨(hmap.owned h.owned hk fun _ _ => lower_of_lt hlt).1, h.aligned, h.low, h.high,
          ?_, ?_⟩
        · intro page hpage
          rw [if_pos rfl] at hpage
          rcases List.mem_cons.mp hpage with rfl | hpage
          · exact hlt
          · exact h.user page hpage
        · intro page hpage hmapped
          rw [if_pos rfl] at hpage
          rcases List.mem_cons.mp hpage with rfl | hpage
          · exact hin
          · by_cases hsame : page = addr >>> pageShift
            · exact hsame ▸ hin
            · refine h.inHeap page hpage ?_
              have hmod := mod_ne_of_lt (h.user page hpage) hlt hsame
              rw [← hmap.translation_eq hused page (.inr hmod)]
              exact hmapped

theorem sbrk {increment : Int} (h : Tracked m0 kernel s) (hk : KernelTables m0 kernel)
    (hstep : BreakStep s (.sbrk increment) t) : Tracked m0 kernel t := by
  have huser : s.proc.heapBrk + increment ≤ userBreak := by
    cases hstep with
    | sbrk _ huser _ => exact huser
  obtain ⟨brk, first, n, hbrk, rfl, hpages, hlt⟩ := h.sbrk_spec hstep
  refine ⟨(h.owned.unmapRange hk first n fun page h1 h2 _ => lower_of_lt (hlt page h1 h2)).1,
    h.aligned, ?_, ?_, h.user, ?_⟩
  · show s.proc.loader.minHeapBreak ≤ brk
    omega
  · show brk ≤ userBreak ∨ brk = s.proc.loader.minHeapBreak
    omega
  · intro page hpage hmapped
    -- what is mapped still was mapped, and is not among the pages that were unmapped
    have hout : ¬ (translation s.mem s.proc.vspace page = none ∨
        first ≤ page ∧ page < first + n) := fun hor =>
      hmapped (h.owned.unmapRange_none hk first n hlt hor)
    rw [not_or, hpages page] at hout
    obtain ⟨hmin, hold⟩ := h.inHeap_iff.mp (h.inHeap page hpage hout.1)
    refine ⟨pageSize * page, hmin, ?_, ?_⟩
    · exact Nat.not_le.mp fun hnew => hout.2 ⟨hnew, hold⟩
    · rw [pageShift, Nat.shiftRight_eq_div_pow, pageSize]
      omega

theorem step (h : Tracked m0 kernel s) (hk : KernelTables m0 kernel) {call : BreakCall}
    (hstep : BreakStep s call t) : Tracked m0 kernel t := by
  cases call with
  | load addr => exact h.load hk hstep
  | sbrk increment => exact h.sbrk hk hstep

/-- No call unmaps a page that has a byte of the heap after it. -/
theorem keeps (h : Tracked m0 kernel s) (hk : KernelTables m0 kernel) {call : BreakCall}
    (hstep : BreakStep s call t) {page : Nat} (hin : t.proc.InHeap page)
    (hmapped : translation s.mem s.proc.vspace page ≠ none) :
    translation t.mem s.proc.vspace page = translation s.mem s.proc.vspace page := by
  have ht := h.step hk hstep
  obtain ⟨hmin, hbrk⟩ := ht.inHeap_iff.mp hin
  cases call with
  | load addr =>
      cases hstep with
      | load hnone hret =>
          have hused := h.owned.tablesUsed hk
          rcases heapLoad_ret (h.owned.separated hk) hused hret with ⟨-, rfl⟩ | ⟨-, -, hmap⟩
          · rfl
          · refine hmap.translation_eq hused page (.inr fun hmod => hmapped ?_)
            rw [translation_mod s.mem s.proc.vspace hmod, hnone]
  | sbrk increment =>
      have hlt := ht.page_lt hmin hbrk
      obtain ⟨brk, first, n, -, rfl, hpages, huser⟩ := h.sbrk_spec hstep
      refine (h.owned.unmapRange hk first n fun page' h1 h2 _ =>
        lower_of_lt (huser page' h1 h2)).2.2 page fun page' h1 h2 _ =>
          mod_ne_of_lt hlt (huser page' h1 h2) ?_
      rintro rfl
      exact absurd hbrk (Nat.not_lt.mpr ((hpages page).mp ⟨h1, h2⟩).1)

/-- A page that starts behind the new break is unmapped, and its frame is given back once. -/
theorem releases (h : Tracked m0 kernel s) (hk : KernelTables m0 kernel) {increment : Int}
    (hstep : BreakStep s (.sbrk increment) t) :
    ∃ log, t.mem.calls = log ++ s.mem.calls ∧
      (∀ page ∈ s.loaded, ∀ mp, translation s.mem s.proc.vspace page = some mp →
        t.proc.heapBrk ≤ pageSize * page →
        translation t.mem s.proc.vspace page = none ∧ log.count (.free mp.ppn) = 1) ∧
      ∀ c ∈ log, ∃ page mp, t.proc.heapBrk ≤ pageSize * page ∧
        translation s.mem s.proc.vspace page = some mp ∧ c = .free mp.ppn := by
  obtain ⟨brk, first, n, -, rfl, hpages, huser⟩ := h.sbrk_spec hstep
  obtain ⟨log, hlog, hcount, honly⟩ := h.owned.unmapRange_calls hk first n huser
  refine ⟨log, hlog, fun page hpage mp htr hnew => ?_, fun c hc => ?_⟩
  · have hold := (h.inHeap_iff.mp (h.inHeap page hpage (by rw [htr]; nofun))).2
    obtain ⟨h1, h2⟩ := (hpages page).mpr ⟨hnew, hold⟩
    exact ⟨h.owned.unmapRange_none hk first n huser (.inr ⟨h1, h2⟩), hcount page mp h1 h2 htr⟩
  · obtain ⟨page, mp, h1, h2, htr, rfl⟩ := honly c hc
    exact ⟨page, mp, ((hpages page).mp ⟨h1, h2⟩).1, htr, rfl⟩

end Tracked

/-- **The pages of the heap follow the break.**  After every run of calls of `sys_sbrk` whose
sums stay in the user's half and of `heap_load` for pages that are not mapped, a page that
`heap_load` has mapped and that is mapped still has a byte of the heap.  No call unmaps a page
that has one after it.  A call that moves the break down unmaps every page that it leaves behind
the new break, and gives its frame back exactly once. -/
theorem heap_pages_follow_break {calls : List BreakCall} (hk : KernelTables m0 kernel)
    (hstart : HeapStart m0 kernel s) (hrun : Run BreakStep s calls t) :
    (∀ page ∈ t.loaded, translation t.mem t.proc.vspace page ≠ none → t.proc.InHeap page) ∧
      (∀ call u, BreakStep t call u → ∀ page, u.proc.InHeap page →
        translation t.mem t.proc.vspace page ≠ none →
        translation u.mem t.proc.vspace page = translation t.mem t.proc.vspace page) ∧
      ∀ increment u, increment < 0 → BreakStep t (.sbrk increment) u →
        ∃ log, u.mem.calls = log ++ t.mem.calls ∧
          (∀ page ∈ t.loaded, ∀ mp, translation t.mem t.proc.vspace page = some mp →
            u.proc.heapBrk ≤ pageSize * page →
            translation u.mem t.proc.vspace page = none ∧ log.count (.free mp.ppn) = 1) ∧
          ∀ c ∈ log, ∃ page mp, u.proc.heapBrk ≤ pageSize * page ∧
            translation t.mem t.proc.vspace page = some mp ∧ c = .free mp.ppn := by
  have ht : Tracked m0 kernel t := by
    refine hrun.invariant (P := Tracked m0 kernel) ?_ (Tracked.of_start hstart)
    exact fun s call u hs hstep => hs.step hk hstep
  exact ⟨ht.inHeap, fun call u hstep page => ht.keeps hk hstep,
    fun increment u _ hstep => ht.releases hk hstep⟩

end

/-- A process uses two pages of its heap and gives the second back. -/
theorem heap_pages_follow_break_two : ∃ proc m t,
    boot textElf = .ret (proc, m) ∧
      Run BreakStep ⟨proc, m, []⟩
        [.sbrk 8192, .load 0x401000, .load 0x402010, .sbrk (-4096)] t ∧
      t.loaded = [0x402, 0x401] ∧
      ∀ page ∈ t.loaded, translation t.mem t.proc.vspace page ≠ none → t.proc.InHeap page := by
  have hcompute : (do
      let booted ← boot textElf
      let grown ← sysSbrk booted.2 booted.1 8192
      let loaded1 ← heapLoad grown.2.2 grown.2.1 0x401000
      let loaded2 ← heapLoad loaded1.2 grown.2.1 0x402010
      let shrunk ← sysSbrk loaded2.2 grown.2.1 (-4096)
      .ret ([booted.1.heapBrk, grown.2.1.heapBrk], [loaded1.1, loaded2.1],
        (translation grown.2.2 grown.2.1.vspace (0x401000 >>> pageShift)).map Mapping.ppn,
        (translation loaded1.2 grown.2.1.vspace (0x402010 >>> pageShift)).map Mapping.ppn)) =
      .ret ([0x401000, 0x403000], [0, 0], none, none) := by decide +kernel
  obtain ⟨⟨proc, m⟩, hboot, hrest⟩ := Outcome.bind_eq_ret.mp hcompute
  obtain ⟨⟨b1, proc1, m1⟩, hgrow, hrest⟩ := Outcome.bind_eq_ret.mp hrest
  obtain ⟨⟨ret2, m2⟩, hload2, hrest⟩ := Outcome.bind_eq_ret.mp hrest
  obtain ⟨⟨ret3, m3⟩, hload3, hrest⟩ := Outcome.bind_eq_ret.mp hrest
  obtain ⟨⟨b4, proc4, m4⟩, hshrink, hvals⟩ := Outcome.bind_eq_ret.mp hrest
  simp only [Outcome.ret.injEq, Prod.mk.injEq, List.cons.injEq, and_true,
    Option.map_eq_none_iff] at hvals
  obtain ⟨⟨hbrk, hbrk1⟩, ⟨rfl, rfl⟩, hnone2, hnone3⟩ := hvals
  obtain ⟨ldr, hldr, hstart⟩ := boot_ret hboot
  have hrun : Run BreakStep ⟨proc, m, []⟩
      [.sbrk 8192, .load 0x401000, .load 0x402010, .sbrk (-4096)] ⟨proc4, m4, [0x402, 0x401]⟩ := by
    refine .cons (.sbrk ?_ ?_ hgrow) (.cons (.load hnone2 hload2) (.cons (.load hnone3 hload3)
      (.cons (.sbrk ?_ ?_ hshrink) .nil)))
    · rw [hbrk]
      decide
    · rw [hbrk]
      decide
    · rw [hbrk1]
      decide
    · rw [hbrk1]
      decide
  refine ⟨proc, m, ⟨proc4, m4, [0x402, 0x401]⟩, hboot, hrun, rfl, ?_⟩
  exact (heap_pages_follow_break emptyMachine_kernel
    (heapStart_of_procStart emptyMachine_kernel hldr hstart) hrun).1

end UlmerOS
