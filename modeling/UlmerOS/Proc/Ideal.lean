import UlmerOS.Proc.HeapBreak
import UlmerOS.Proc.Machine

/-!
# A process alone

What a process should see: memory that has the image of its program when it starts,
zeroes everywhere else, and then what it has written itself.  There are no pages, no
frames and no other processes.  A fault changes nothing, and memory that is given back
by moving the break down is as it was at the start (`Ideal`).

Every process of the machine sees this, in whatever order the others start, fault,
write and are deleted (`processes_isolated`).
-/

namespace UlmerOS

open ByteMem Transition

/-! ## The ideal process -/

/-- What the program has for a page. -/
def Loader.page (ldr : Loader) (virtPage : Nat) : Option (List UInt8) :=
  match ldr.demand virtPage with
  | .page ret bytes _ => if 0 ≤ ret then some bytes else none
  | _ => none

/-- The address is one of the stack of the main thread. -/
def inStack (address : Nat) : Bool := (newStack 0).covers (address >>> pageShift)

/-- Memory when the program starts: zeroes in the stack and in the heap, and below the heap
what the program has. -/
def Loader.initial (ldr : Loader) (address : Nat) : UInt8 :=
  if inStack address ∨ ldr.minHeapBreak ≤ address then 0
  else ((ldr.page (address >>> pageShift)).getD []).getD (address % pageSize) 0

/-- A process that has its memory for itself. -/
structure Ideal where
  ldr : Loader
  brk : Nat
  mem : Nat → UInt8

namespace Ideal

/-- The process has memory at the address. -/
def serves (p : Ideal) (address : Nat) : Bool :=
  inStack address || decide (p.ldr.minHeapBreak ≤ address ∧ address < p.brk) ||
    (p.ldr.page (address >>> pageShift)).isSome

/-- Where the break is moved to: not below the heap. -/
def nextBreak (p : Ideal) (increment : Int) : Nat :=
  (max (p.brk + increment) p.ldr.minHeapBreak).toNat

/-- Move the break.  The pages that lie behind it now are given back. -/
def sbrk (p : Ideal) (increment : Int) : Ideal :=
  if p.brk = minusOne then p
  else
    { p with
      brk := p.nextBreak increment
      mem := fun a =>
        if p.nextBreak increment ≤ pageSize * (a >>> pageShift) ∧
          pageSize * (a >>> pageShift) < p.brk then p.ldr.initial a else p.mem a }

/-- Write a byte. -/
def write (p : Ideal) (address : Nat) (byte : UInt8) : Ideal :=
  { p with mem := Function.update p.mem address byte }

/-- The life of a process.  There is none before it is started and after it has ended. -/
inductive Step : Option Ideal → Event → Option Ideal → Prop where
  | start (ldr : Loader) :
      Step none (.start ldr) (some ⟨ldr, ldr.minHeapBreak, ldr.initial⟩)
  | fault (p : Ideal) (address : Nat) (bits : FaultBits) :
      Step (some p) (.fault address bits (p.serves address)) (some p)
  | sbrk (p : Ideal) (increment : Int) :
      Step (some p) (.sbrk increment p.brk) (some (p.sbrk increment))
  | load (p : Ideal) {address : Nat} (exec : Bool) : address < userBreak →
      Step (some p) (.load address exec (p.mem address)) (some p)
  | store (p : Ideal) {address : Nat} (byte : UInt8) : address < userBreak →
      Step (some p) (.store address byte) (some (p.write address byte))
  | exit (p : Ideal) : Step (some p) .exit none

end Ideal

/-! ## What a process sees -/

/-- The byte that a process finds at an address: that of the frame the page is mapped to, and
what a fault will put there if it is not mapped. -/
def Proc.byteAt (proc : Proc) (m : PhysMem) (address : Nat) : UInt8 :=
  match if address < userBreak then translation m proc.vspace (address >>> pageShift) else none with
  | some mp => m.ram (mp.phys address)
  | none => proc.loader.initial address

/-- What a process is like for itself. -/
def Proc.view (proc : Proc) (m : PhysMem) : Ideal where
  ldr := proc.loader
  brk := proc.heapBrk
  mem := proc.byteAt m

/-- What the process with a number is like for itself, if there is one. -/
def Machine.view (s : Machine) (pid : Nat) : Option Ideal :=
  (s.procs pid).map fun proc => proc.view s.mem

section

variable {m0 m m' : PhysMem} {kernel : Vspace} {proc proc' : Proc} {address : Nat}

theorem byteAt_mapped {mp : Mapping} (ha : address < userBreak)
    (h : translation m proc.vspace (address >>> pageShift) = some mp) :
    proc.byteAt m address = m.ram (mp.phys address) := by
  rw [Proc.byteAt, if_pos ha, h]

theorem byteAt_unmapped (h : translation m proc.vspace (address >>> pageShift) = none) :
    proc.byteAt m address = proc.loader.initial address := by
  rw [Proc.byteAt, h, ite_self]

/-- Addresses of the kernel are no concern of the process. -/
theorem byteAt_upper (ha : ¬ address < userBreak) :
    proc.byteAt m address = proc.loader.initial address := by
  rw [Proc.byteAt, if_neg ha]

theorem pageNumber_lt (ha : address < userBreak) :
    address >>> pageShift < userBreak >>> pageShift := by
  rw [userBreak] at ha
  rw [userBreak, pageShift, Nat.shiftRight_eq_div_pow, Nat.shiftRight_eq_div_pow]
  omega

/-- A process sees the same when its pages and their frames are the same. -/
theorem byteAt_congr (hvs : proc'.vspace = proc.vspace) (hldr : proc'.loader = proc.loader)
    (htr : address < userBreak → translation m' proc.vspace (address >>> pageShift) =
      translation m proc.vspace (address >>> pageShift))
    (hram : ∀ mp, address < userBreak →
      translation m proc.vspace (address >>> pageShift) = some mp →
      m'.ram (mp.phys address) = m.ram (mp.phys address)) :
    proc'.byteAt m' address = proc.byteAt m address := by
  by_cases ha : address < userBreak
  · rw [Proc.byteAt, Proc.byteAt, if_pos ha, if_pos ha, hvs, htr ha, hldr]
    cases h : translation m proc.vspace (address >>> pageShift) with
    | none => rfl
    | some mp => exact hram mp ha h
  · rw [byteAt_upper ha, byteAt_upper ha, hldr]

theorem inStack_iff (n : Nat) (address : Nat) :
    inStack address = (firstStack n).covers (address >>> pageShift) := rfl

/-! ## Page faults -/

/-- What a process asks for is what it has at the address. -/
theorem Isolated.demand_serves (h : Isolated m0 kernel proc.loader proc m) (address : Nat) :
    (proc.view m).serves address = true ↔
      ∃ ret bytes flags, proc.demand address = .page ret bytes flags ∧ 0 ≤ ret := by
  obtain ⟨n, hstack⟩ := h.stack
  simp only [Ideal.serves, Proc.view, Proc.demand, hstack, List.any_cons, List.any_nil,
    Bool.or_false, ← inStack_iff n]
  cases inStack address with
  | true => simp
  | false =>
      by_cases hheap : proc.loader.minHeapBreak ≤ address ∧ address < proc.heapBrk
      · simp [hheap]
      · simp only [hheap, decide_false, Bool.or_self, Bool.false_or, ge_iff_le, if_false,
          Bool.false_eq_true, Loader.page]
        cases proc.loader.demand (address >>> pageShift) with
        | page ret bytes flags =>
            by_cases hret : 0 ≤ ret
            · simp [hret]
            · simp [hret]
        | _ => simp

/-- A page that is loaded for an address has what the process has there at the start. -/
theorem Isolated.initial_of_demand (h : Isolated m0 kernel proc.loader proc m)
    (hrun : proc.loader.Runnable) {ret : Int} {bytes : List UInt8} {flags a : Nat}
    (hd : proc.demand address = .page ret bytes flags) (hret : 0 ≤ ret)
    (hpage : a >>> pageShift = address >>> pageShift) (ha : a < userBreak) :
    proc.loader.initial a = bytes.getD (a % pageSize) 0 := by
  obtain ⟨n, hstack⟩ := h.stack
  have hmax : userBreak < minusOne := by decide
  simp only [Proc.demand, hstack, List.any_cons, List.any_nil, Bool.or_false, ← inStack_iff n] at hd
  have hsame : inStack a = inStack address := by rw [inStack, inStack, hpage]
  rw [Loader.initial, hsame]
  cases hin : inStack address with
  | true =>
      rw [hin] at hd
      cases hd
      simp
  | false =>
      rw [hin, if_neg Bool.false_ne_true] at hd
      rw [pageShift, Nat.shiftRight_eq_div_pow, Nat.shiftRight_eq_div_pow] at hpage
      by_cases hheap : address ≥ proc.loader.minHeapBreak ∧ address < proc.heapBrk
      · -- the heap starts with a page, and the page of the address is in it
        rw [if_pos hheap] at hd
        cases hd
        have hbrk := h.brk
        have hle : proc.loader.minHeapBreak ≤ a := by
          rcases hrun.aligned with ⟨k, hk⟩ | hnone
          · rw [hk, pageSize] at hheap ⊢
            omega
          · omega
        simp [hle]
      · -- a page of the program is below the heap
        rw [if_neg hheap] at hd
        obtain ⟨phte, hfind, hb, hbytes⟩ := Loader.demand_page hd
        have hcov := List.find?_some hfind
        obtain ⟨-, hlt, -⟩ := Phte.endAddr_of_covers hb hcov
        have habove := hrun.above phte (List.mem_of_find?_eq_some hfind)
        have hbelow : a < proc.loader.minHeapBreak := by
          have haddr : pageAddr (address >>> pageShift) = 4096 * (a / 2 ^ 12) := by
            rw [pageAddr, pageShift, Nat.shiftRight_eq_div_pow, ← hpage, Nat.shiftLeft_eq,
              wrap64_of_lt]
            · omega
            · rw [userBreak] at ha
              rw [word]
              omega
          rw [haddr] at hlt
          rcases hrun.aligned with ⟨k, hk⟩ | hnone
          · rw [pageSize] at hk
            omega
          · omega
        have hload : proc.loader.page (a >>> pageShift) = some bytes := by
          rw [Loader.page, pageShift, Nat.shiftRight_eq_div_pow, hpage,
            ← Nat.shiftRight_eq_div_pow, show 12 = pageShift from rfl, hd]
          exact if_pos hret
        rw [if_neg (by simp; omega), hload]
        rfl

/-- The frame of a page that is mapped keeps its bytes in a fault. -/
theorem Isolated.fault_ram (h : Isolated m0 kernel proc.loader proc m) (hk : KernelTables m0 kernel)
    {virt flags a : Nat} {ret : Int} {bytes : List UInt8} {ok : Bool} {mp : Mapping}
    (hmap : MapFresh proc.vspace m virt ret bytes flags ok m') (ha : a < userBreak)
    (htr : translation m proc.vspace (a >>> pageShift) = some mp) :
    m'.ram (mp.phys a) = m.ram (mp.phys a) := by
  have hlow := lower_of_lt (pageNumber_lt ha)
  refine hmap.ram_keep (h.owned.tablesUsed hk) ?_ (h.owned.page_not_table hk htr hlow) _
    (mp.phys_div a)
  exact (h.owned.frames_taken (mem_frames_of_translation htr hlow)).2

/-- A process does not see its own faults. -/
theorem Isolated.fault_view (h : Isolated m0 kernel proc.loader proc m)
    (hk : KernelTables m0 kernel) (hrun : proc.loader.Runnable) {bits : FaultBits} {handled : Bool}
    (haddr : address < word) (hret : pageFault m proc address bits = .ret (handled, proc', m')) :
    proc'.view m' = proc.view m ∧ handled = (proc.view m).serves address := by
  have hused := h.owned.tablesUsed hk
  have hldr := (h.fault hk hrun.bounded hrun.settled hrun.low haddr hret).loader
  obtain ⟨rfl, hserved⟩ := pageFault_ret hrun.bounded (h.owned.separated hk) hused hret
  have hview : ((proc.faulted address).view m' = proc.view m) ↔
      ∀ a, (proc.faulted address).byteAt m' a = proc.byteAt m a := by
    simp only [Proc.view, hldr, Proc.faulted_heapBrk, Ideal.mk.injEq, true_and]
    exact funext_iff
  have hserves := h.demand_serves address
  rw [hview]
  generalize hd : proc.demand address = d at hserved
  cases hserved with
  | nothing =>
      refine ⟨fun a => byteAt_congr (Proc.faulted_vspace _ _) hldr (fun _ => rfl) fun _ _ _ => rfl,
        (Bool.eq_false_iff.mpr fun hs => ?_).symm⟩
      obtain ⟨_, _, _, hpage, -⟩ := hserves.mp hs
      cases hpage.symm.trans hd
  | @page ret bytes flags ok _ hmap =>
      by_cases hpos : 0 ≤ ret
      · obtain rfl := hmap.ok_of_nonneg hpos
        refine ⟨fun a => ?_, (hserves.mpr ⟨ret, bytes, flags, hd, hpos⟩).symm⟩
        by_cases ha : a < userBreak
        · cases htr : translation m proc.vspace (a >>> pageShift) with
          | some mp =>
              rw [byteAt_mapped ha htr, byteAt_mapped ha]
              · exact h.fault_ram hk hmap ha htr
              · rw [Proc.faulted_vspace]
                exact hmap.translation_keep hused htr
          | none =>
              rw [byteAt_unmapped htr]
              by_cases hpage : a >>> pageShift = address >>> pageShift
              · -- the page of the fault is mapped to what it should have
                rw [hpage] at htr
                obtain ⟨p, hp, hbytes⟩ := hmap.frame hused htr
                rw [@byteAt_mapped _ _ _ (Mapping.ofFlags p flags) ha,
                  h.initial_of_demand hrun hd hpos hpage ha]
                · exact hbytes _ (Nat.mod_lt _ (by decide))
                · rw [Proc.faulted_vspace, hpage]
                  exact hp
              · rw [byteAt_unmapped, hldr]
                rw [Proc.faulted_vspace, hmap.translation_eq hused, htr]
                refine .inr (mod_ne_of_lt (pageNumber_lt ha) ?_ hpage)
                exact h.demand_lt hrun.low haddr hd
        · rw [byteAt_upper ha, byteAt_upper ha, hldr]
      · have hneg : ret < 0 := by omega
        have hok : handled = false := by
          cases hmap with
          | failed _ _ => rfl
          | mapped hle _ _ => exact absurd hle hpos
        refine ⟨fun a => ?_, ?_⟩
        · exact byteAt_congr (Proc.faulted_vspace _ _) hldr
            (fun _ => hmap.translation_eq hused _ (.inl hneg)) fun mp ha htr =>
              h.fault_ram hk hmap ha htr
        · rw [hok]
          refine (Bool.eq_false_iff.mpr fun hs => ?_).symm
          obtain ⟨ret', _, _, hpage, hle⟩ := hserves.mp hs
          cases hpage.symm.trans hd
          exact hpos hle

/-! ## The break -/

/-- Unmapping pages writes to no frame but to tables. -/
theorem Owned.unmapRange_ram {vs : Vspace} (ho : Owned m0 kernel vs m) (hk : KernelTables m0 kernel)
    (first n : Nat) (hu : ∀ page, first ≤ page → page < first + n → page < userBreak >>> pageShift)
    {x : Nat} (hx : ¬ IsTable m vs (x / pageSize)) :
    (UlmerOS.unmapRange vs first n m).ram x = m.ram x := by
  induction n generalizing first m with
  | zero => rfl
  | succ n ih =>
      obtain ⟨m1, heq, ho1, -, -⟩ := ho.unmap hk fun _ =>
        lower_of_lt (hu first (Nat.le_refl first) (by omega))
      obtain ⟨hram, htab⟩ := vspaceUnmap_ram first (ho.separated hk)
      rw [heq] at hram htab
      rw [UlmerOS.unmapRange, heq,
        ih ho1 (first + 1) (fun page h1 h2 => hu page (by omega) (by omega)), hram x hx]
      rw [htab]
      exact hx

theorem sysSbrk_value {increment : Int} {value : Nat}
    (h : sysSbrk m proc increment = .ret (value, proc', m')) : value = proc.heapBrk := by
  simp only [sysSbrk] at h
  split at h
  · rename_i hbrk
    cases h
    exact hbrk.symm
  · split at h
    · split at h
      · cases h
      · cases h
        rfl
    · cases h
      rfl

/-- What a process sees when its break is moved. -/
theorem Hosted.sbrk_view (h : Hosted m0 kernel m proc) (hk : KernelTables m0 kernel)
    {increment : Int} {value : Nat}
    (hok : proc.heapBrk ≠ minusOne →
      0 ≤ proc.heapBrk + increment ∧ proc.heapBrk + increment ≤ userBreak)
    (hret : sysSbrk m proc increment = .ret (value, proc', m')) :
    proc'.view m' = (proc.view m).sbrk increment := by
  obtain ⟨hiso, -, hlow⟩ := h
  by_cases hbrk : proc.heapBrk = minusOne
  · rw [sysSbrk, if_pos hbrk] at hret
    cases hret
    rw [Ideal.sbrk, if_pos (show (proc.view m).brk = minusOne from hbrk)]
  obtain ⟨hpos, huser⟩ := hok hbrk
  obtain ⟨brk, first, n, hnew, ht, hpages⟩ :=
    (BreakStep.sbrk (s := ⟨proc, m, []⟩) hpos huser hret).sbrk_spec hlow hiso.brk
  cases ht
  have hlt : ∀ page, first ≤ page → page < first + n → page < userBreak >>> pageShift := by
    intro page h1 h2
    obtain ⟨hbehind, hold⟩ := (hpages page).mp ⟨h1, h2⟩
    exact hiso.page_lt (by simp only at hnew; omega) hold
  have hnext : (proc.view m).nextBreak increment = brk := by
    rw [Ideal.nextBreak]
    simp only [Proc.view]
    simp only at hnew
    omega
  rw [Ideal.sbrk, if_neg (show ¬ (proc.view m).brk = minusOne from hbrk), hnext]
  refine congrArg (Ideal.mk proc.loader brk) (funext fun a => ?_)
  show Proc.byteAt _ (unmapRange proc.vspace first n m) a = _
  by_cases ha : a < userBreak
  · split
    · rename_i hin
      have hmem := (hpages (a >>> pageShift)).mpr hin
      exact byteAt_unmapped (hiso.owned.unmapRange_none hk first n hlt (.inr hmem))
    · rename_i hout
      refine byteAt_congr rfl rfl (fun _ => ?_) fun mp _ htr => ?_
      · refine (hiso.owned.unmapRange hk first n fun page h1 h2 _ =>
          lower_of_lt (hlt page h1 h2)).2.2 _ fun page h1 h2 _ => ?_
        refine mod_ne_of_lt (pageNumber_lt ha) (hlt page h1 h2) ?_
        rintro rfl
        exact hout ((hpages _).mp ⟨h1, h2⟩)
      · refine hiso.owned.unmapRange_ram hk first n hlt ?_
        rw [mp.phys_div]
        exact hiso.owned.page_not_table hk htr (lower_of_lt (pageNumber_lt ha))
  · split
    · exact byteAt_upper ha
    · exact (byteAt_upper ha).trans (byteAt_upper ha).symm

/-! ## Reading and writing -/

/-- Two addresses of a process are never the same byte of memory. -/
theorem Owned.phys_inj {vs : Vspace} (ho : Owned m0 kernel vs m) {a b : Nat} {mp mp' : Mapping}
    (ha : a < userBreak) (hb : b < userBreak)
    (htr : translation m vs (a >>> pageShift) = some mp)
    (htr' : translation m vs (b >>> pageShift) = some mp') (h : mp.phys a = mp'.phys b) :
    a = b := by
  have hppn : mp.ppn = mp'.ppn := by rw [← mp.phys_div a, h, mp'.phys_div]
  have hpage := ho.page_eq (pageNumber_lt ha) (pageNumber_lt hb) htr htr' hppn
  rw [Mapping.phys, Mapping.phys, hppn] at h
  rw [pageShift, Nat.shiftRight_eq_div_pow, Nat.shiftRight_eq_div_pow] at hpage
  rw [pageSize] at h
  omega

/-- What a process sees when it writes. -/
theorem Isolated.store_view (h : Isolated m0 kernel proc.loader proc m)
    (hk : KernelTables m0 kernel) {byte : UInt8} {mp : Mapping} (ha : address < userBreak)
    (htr : translation m proc.vspace (address >>> pageShift) = some mp) :
    proc.view (m.poke (mp.phys address) byte) = (proc.view m).write address byte := by
  obtain ⟨-, -, hkeep, -⟩ := h.owned.poke hk htr (lower_of_lt (pageNumber_lt ha))
    (mp.poke_ram_ne m address byte) (poke_freePages _ _ _) (poke_calls _ _ _)
  simp only [Proc.view, Ideal.write, Ideal.mk.injEq, true_and]
  funext b
  by_cases hb : b = address
  · rw [hb, Function.update_self, byteAt_mapped ha ((hkeep _).trans htr), poke_ram,
      Function.update_self]
  · rw [Function.update_of_ne hb]
    refine byteAt_congr rfl rfl (fun _ => hkeep _) fun mp' hlt htr' => ?_
    exact Function.update_of_ne (fun he => hb (h.owned.phys_inj hlt ha htr' htr he)) _ _

/-! ## The start -/

/-- The lower half of a new address space is empty. -/
theorem Created.translation_none {vs : Vspace} (h : Created m kernel vs m')
    (hused : TablesUsed m kernel) {virt : Nat} (hlow : virt % 2 ^ 36 < 2 ^ 35) :
    translation m' vs virt = none := by
  have hi : (tableIndex virt 27).val < 256 := userPath_pagePath.mpr hlow
  rw [h.translation_eq hused, if_neg (Nat.not_le.mpr hi)]

/-- What a process sees when it starts. -/
theorem Created.view (h : Created m kernel proc.vspace m') (hused : TablesUsed m kernel) :
    proc.view m' = ⟨proc.loader, proc.heapBrk, proc.loader.initial⟩ := by
  simp only [Proc.view, Ideal.mk.injEq, true_and]
  funext a
  by_cases ha : a < userBreak
  · exact byteAt_unmapped (h.translation_none hused (lower_of_lt (pageNumber_lt ha)))
  · exact byteAt_upper ha

/-! ## Every process is alone -/

/-- A process that is not affected sees what it saw. -/
theorem Undisturbed.view (h : Undisturbed proc.vspace m m') : proc.view m' = proc.view m := by
  simp only [Proc.view, Ideal.mk.injEq, true_and]
  funext a
  refine byteAt_congr rfl rfl (fun _ => h.translation_eq _) fun mp ha htr => ?_
  refine h.ram_eq _ ?_
  rw [mp.phys_div]
  exact mem_frames_of_translation htr (lower_of_lt (pageNumber_lt ha))

theorem Machine.view_some {s : Machine} {pid : Nat} (h : s.procs pid = some proc) :
    s.view pid = some (proc.view s.mem) := by
  rw [view, h]
  rfl

theorem Machine.view_written {s : Machine} {pid : Nat} (h : s.procs pid = some proc) :
    Machine.view ⟨m, s.procs⟩ pid = some (proc.view m) :=
  Machine.view_some h

theorem Machine.view_none {s : Machine} {pid : Nat} (h : s.procs pid = none) :
    s.view pid = none := by
  rw [view, h]
  rfl

theorem Machine.view_update {procs : Nat → Option Proc} {pid : Nat} :
    Machine.view ⟨m, Function.update procs pid (some proc)⟩ pid = some (proc.view m) :=
  Machine.view_some (Function.update_self pid _ _)

/-- The event of a process is a step of the process alone. -/
theorem MachineInv.step_own {s t : Machine} {pid : Nat} {l : Event} (h : MachineInv m0 kernel s)
    (hk : KernelTables m0 kernel) (honly : KernelOnly m0 kernel)
    (hstep : Guarded (MachineStep kernel) MachineOk s (pid, l) t) :
    Ideal.Step (s.view pid) l (t.view pid) := by
  obtain ⟨hstep, hok⟩ := hstep
  cases hstep with
  | start hnone hldr hret =>
      have hused := (h.since.kernelTables hk).used
      obtain ⟨hc, hproc⟩ := procStart_ret hused hret
      rw [Machine.view_none hnone, Machine.view_update, hc.view hused, hproc]
      exact .start _
  | @fault _ address bits handled proc _ _ hproc haddr hret =>
      obtain ⟨hiso, hrun, -⟩ := h.hosted pid proc hproc
      obtain ⟨hview, rfl⟩ := hiso.fault_view hk hrun haddr hret
      rw [Machine.view_some hproc, Machine.view_update, hview]
      exact .fault _ _ _
  | sbrk hproc hret =>
      obtain rfl := sysSbrk_value hret
      rw [Machine.view_some hproc, Machine.view_update,
        (h.hosted pid _ hproc).sbrk_view hk (hok _ hproc) hret]
      exact .sbrk _ _
  | @load _ address exec proc mp hproc hcan hper htr =>
      have ha := hcan.lt ((h.hosted pid _ hproc).isolated.owned.user_page honly rfl hper)
      rw [Machine.view_some hproc, ← byteAt_mapped ha htr]
      exact .load (proc.view s.mem) exec ha
  | @store _ address byte proc mp hproc hcan hper htr =>
      have hiso := (h.hosted pid _ hproc).isolated
      have ha := hcan.lt (hiso.owned.user_page honly rfl hper)
      rw [Machine.view_some hproc, Machine.view_written hproc, hiso.store_view hk ha htr]
      exact .store _ _ ha
  | exit hproc _ =>
      rw [Machine.view_some hproc, Machine.view_none (Function.update_self pid _ _)]
      exact .exit _

/-- The event of another process is not seen. -/
theorem MachineInv.step_other {s t : Machine} {pid j : Nat} {l : Event}
    (h : MachineInv m0 kernel s) (hk : KernelTables m0 kernel) (honly : KernelOnly m0 kernel)
    (hstep : Guarded (MachineStep kernel) MachineOk s (pid, l) t) (hj : j ≠ pid) :
    t.view j = s.view j := by
  have hprocs := hstep.1.procs_ne j hj
  cases hproc : s.procs j with
  | none => rw [Machine.view_none hproc, Machine.view_none (hprocs.trans hproc)]
  | some proc =>
      rw [Machine.view_some hproc, Machine.view_some (hprocs.trans hproc)]
      exact congrArg some ((h.step hk honly hstep).2 j proc hj hproc).view

/-- A process of a run of the machine has made a run of its own. -/
theorem Machine.view_run {s : Machine} {ls : List (Nat × Event)} (hk : KernelTables m0 kernel)
    (honly : KernelOnly m0 kernel)
    (hrun : Run (Guarded (MachineStep kernel) MachineOk) ⟨m0, fun _ => none⟩ ls s) (pid : Nat) :
    Run Ideal.Step none (own pid ls) (s.view pid) := by
  refine hrun.project (P := MachineInv m0 kernel) Machine.view ?_ (machineInv_boot m0 kernel) pid
  rintro s i l t hs hstep
  exact ⟨(hs.step hk honly hstep).1, hs.step_own hk honly hstep,
    fun j hj => hs.step_other hk honly hstep hj⟩

/-- **Every process is alone.**  Processes are started, fault, move their breaks, read and
write and end, in any order, as far as `MachineOk` lets them.  What happens to each of them is a
run of the process that has all its memory for itself: a byte that it reads is the one it wrote
last, or the one its program or the heap had there at first, and no other process and no frame is
in it. -/
theorem processes_isolated {s : Machine} {ls : List (Nat × Event)} (hk : KernelTables m0 kernel)
    (honly : KernelOnly m0 kernel)
    (hrun : Run (Guarded (MachineStep kernel) MachineOk) ⟨m0, fun _ => none⟩ ls s) (pid : Nat) :
    Run Ideal.Step none (own pid ls) (s.view pid) :=
  Machine.view_run hk honly hrun pid

end

/-- The first of two processes reads what it wrote, and not what the second wrote to the same
address. -/
theorem processes_isolated_two : ∃ ldr s,
    Run (Guarded (MachineStep ⟨0⟩) MachineOk) ⟨emptyMachine, fun _ => none⟩ (pushBoth ldr) s ∧
      Run Ideal.Step none [.start ldr, .fault 0x7ffffdfffff8 ⟨false, true, true, false⟩ true,
        .store 0x7ffffdfffff8 1, .load 0x7ffffdfffff8 false 1] (s.view 1) := by
  obtain ⟨ldr, _, _, m, procs, -, hrun, -⟩ := pushBoth_run
  have hrun' := hrun.mono fun _ _ _ h => And.imp_right And.left h
  exact ⟨ldr, _, hrun', processes_isolated emptyMachine_kernel emptyMachine_kernelOnly hrun' 1⟩

/-! ## What a process can find out -/

/-- What a process asks for, without what it gets. -/
inductive Request where
  | start (ldr : Loader)
  | fault (address : Nat) (bits : FaultBits)
  | sbrk (increment : Int)
  | load (address : Nat) (exec : Bool)
  | store (address : Nat) (byte : UInt8)
  | exit

def Event.request : Event → Request
  | .start ldr => .start ldr
  | .fault address bits _ => .fault address bits
  | .sbrk increment _ => .sbrk increment
  | .load address exec _ => .load address exec
  | .store address byte => .store address byte
  | .exit => .exit

/-- What a process that is alone gets depends on what it asks for and on nothing else. -/
theorem Ideal.Step.unique {p q q' : Option Ideal} {l l' : Event} (h : Step p l q)
    (h' : Step p l' q') (hreq : l.request = l'.request) : l = l' ∧ q = q' := by
  cases h with
  | start ldr =>
      cases h' with
      | start ldr' =>
          obtain rfl : ldr = ldr' := by simpa [Event.request] using hreq
          exact ⟨rfl, rfl⟩
  | fault p address bits =>
      cases h' with
      | fault _ address' bits' =>
          obtain ⟨rfl, rfl⟩ : address = address' ∧ bits = bits' := by
            simpa [Event.request] using hreq
          exact ⟨rfl, rfl⟩
      | _ => simp [Event.request] at hreq
  | sbrk p increment =>
      cases h' with
      | sbrk _ increment' =>
          obtain rfl : increment = increment' := by simpa [Event.request] using hreq
          exact ⟨rfl, rfl⟩
      | _ => simp [Event.request] at hreq
  | @load p address exec ha =>
      cases h' with
      | @load _ address' exec' _ =>
          obtain ⟨rfl, rfl⟩ : address = address' ∧ exec = exec' := by
            simpa [Event.request] using hreq
          exact ⟨rfl, rfl⟩
      | _ => simp [Event.request] at hreq
  | @store p address byte ha =>
      cases h' with
      | @store _ address' byte' _ =>
          obtain ⟨rfl, rfl⟩ : address = address' ∧ byte = byte' := by
            simpa [Event.request] using hreq
          exact ⟨rfl, rfl⟩
      | _ => simp [Event.request] at hreq
  | exit p =>
      cases h' with
      | exit _ => exact ⟨rfl, rfl⟩
      | _ => simp [Event.request] at hreq

theorem Ideal.run_unique {p q q' : Option Ideal} {ls ls' : List Event} (h : Run Step p ls q)
    (h' : Run Step p ls' q') (hreq : ls.map Event.request = ls'.map Event.request) :
    ls = ls' ∧ q = q' := by
  induction h generalizing ls' with
  | nil =>
      obtain rfl := List.map_eq_nil_iff.mp hreq.symm
      cases h'
      exact ⟨rfl, rfl⟩
  | cons hst _ ih =>
      cases h' with
      | nil => cases hreq
      | cons hst' hrest' =>
          rw [List.map_cons, List.map_cons, List.cons.injEq] at hreq
          obtain ⟨rfl, rfl⟩ := hst.unique hst' hreq.1
          obtain ⟨rfl, rfl⟩ := ih hrest' hreq.2
          exact ⟨rfl, rfl⟩

/-- **What a process finds out.**  Two machines run, with other processes that do other things in
another order, as far as `MachineOk` lets them.  A process that asks for the same things on both
gets the same: every byte that it reads, every break that it is told and whether its faults are
handled. -/
theorem replies_of_requests {m0 m0' : PhysMem} {kernel kernel' : Vspace} {s s' : Machine}
    {ls ls' : List (Nat × Event)} {pid pid' : Nat} (hk : KernelTables m0 kernel)
    (honly : KernelOnly m0 kernel) (hk' : KernelTables m0' kernel')
    (honly' : KernelOnly m0' kernel')
    (hrun : Run (Guarded (MachineStep kernel) MachineOk) ⟨m0, fun _ => none⟩ ls s)
    (hrun' : Run (Guarded (MachineStep kernel') MachineOk) ⟨m0', fun _ => none⟩ ls' s')
    (hsame : (own pid ls).map Event.request = (own pid' ls').map Event.request) :
    own pid ls = own pid' ls' ∧ s.view pid = s'.view pid' := by
  exact Ideal.run_unique (Machine.view_run hk honly hrun pid)
    (Machine.view_run hk' honly' hrun' pid') hsame

/-- The process that is alone on its machine. -/
theorem pushAlone_run : ∃ ldr s,
    loaderCreate (fun _ => 0) (fun _ => 0) (File.ofBytes textElf) = some ldr ∧
    Run (Guarded (MachineStep ⟨0⟩) MachineOk) ⟨emptyMachine, fun _ => none⟩
      [(7, .start ldr), (7, .fault 0x7ffffdfffff8 ⟨false, true, true, false⟩ true),
        (7, .store 0x7ffffdfffff8 1), (7, .load 0x7ffffdfffff8 false 1)] s := by
  have hcompute : (do
      let first ← boot textElf
      let pushed ← pageFault first.2 first.1 0x7ffffdfffff8 ⟨false, true, true, false⟩
      .ret (first.1.loader.loads, pushed.1,
        let m := pushed.2.2
        let m1 := m.poke 0x2ff8 1
        decide (translation m pushed.2.1.vspace 0x7ffffdfff = some (Mapping.mk 2 true true true) ∧
          Permits m pushed.2.1.vspace 0x7ffffdfff (userAccess true false) ∧
          translation m1 pushed.2.1.vspace 0x7ffffdfff = some (Mapping.mk 2 true true true) ∧
          Permits m1 pushed.2.1.vspace 0x7ffffdfff (userAccess false false) ∧
          m1.ram 0x2ff8 = 1))) =
      .ret ([⟨1, 5, 120, 0x400000, 4, 4⟩], true, true) := by
    decide +kernel
  obtain ⟨⟨proc, m1⟩, hboot, hrest⟩ := Outcome.bind_eq_ret.mp hcompute
  obtain ⟨⟨ok, proc', m2⟩, hfault, hvals⟩ := Outcome.bind_eq_ret.mp hrest
  simp only [Outcome.ret.injEq, Prod.mk.injEq, decide_eq_true_eq] at hvals
  obtain ⟨hloads, rfl, htr1, hper1, htr2, hper2, hbyte⟩ := hvals
  obtain ⟨ldr, hldr, hstart⟩ := boot_ret hboot
  have hproc := (procStart_ret emptyMachine_kernel.used hstart).2
  have hfile := boot_bounded hboot
  obtain rfl : proc.loader = ldr := by rw [hproc]
  have hbelow : ∀ phte ∈ proc.loader.loads, phte.endAddr ≤ userBreak := by
    rw [hloads]
    decide
  have hcan : Canonical 0x7ffffdfffff8 := .inl (by decide)
  refine ⟨proc.loader, ⟨m2.poke 0x2ff8 1, Function.update (Function.update (fun _ => none) 7
    (some proc)) 7 (some proc')⟩, hldr, ?_⟩
  refine .cons (t := ⟨m1, _⟩) ⟨.start rfl hldr hstart, hfile, hbelow⟩ ?_
  refine .cons (t := ⟨m2, _⟩) ⟨.fault (by simp) (by decide) hfault, trivial⟩ ?_
  refine .cons ⟨.store (by simp) hcan hper1 htr1, trivial⟩ ?_
  have hread : (m2.poke 0x2ff8 1).ram ((Mapping.mk 2 true true true).phys 0x7ffffdfffff8) = 1 :=
    hbyte
  rw [← hread]
  exact .cons ⟨.load (by simp) hcan hper2 htr2, trivial⟩ .nil

/-- A process cannot tell whether it shares its machine. -/
theorem replies_of_requests_alone : ∃ ldr s s' ls,
    Run (Guarded (MachineStep ⟨0⟩) MachineOk) ⟨emptyMachine, fun _ => none⟩ (pushBoth ldr) s ∧
      Run (Guarded (MachineStep ⟨0⟩) MachineOk) ⟨emptyMachine, fun _ => none⟩ ls s' ∧
      own 2 ls = [] ∧ s.view 1 = s'.view 7 := by
  obtain ⟨ldr, s', hldr, hrun'⟩ := pushAlone_run
  obtain ⟨ldr', _, _, m, procs, hldr', hrun, -⟩ := pushBoth_run
  obtain rfl := Option.some.inj (hldr.symm.trans hldr')
  have hboth := hrun.mono fun _ _ _ h => And.imp_right And.left h
  exact ⟨ldr, _, s', _, hboth, hrun', rfl,
    (replies_of_requests emptyMachine_kernel emptyMachine_kernelOnly
      emptyMachine_kernel emptyMachine_kernelOnly hboth hrun' rfl).2⟩

end UlmerOS
