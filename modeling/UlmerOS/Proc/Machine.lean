import UlmerOS.Lib.Product
import UlmerOS.Proc.Isolation
import UlmerOS.Proc.Owners
import UlmerOS.Proc.Progress
import UlmerOS.Proc.Segments

/-!
# A machine with many processes

Processes are started, fault, move their break, read and write memory and are deleted,
in any order.  An event belongs to one process.  The kernel's part of it is one of the
functions modelled before.  A load or a store is made by the processor, which walks the
page tables of the process and lets it through where they permit it.

Frames are the places of a store that the processes share, and every event is confined
to the frames of its own process (`MachineInv.step`).
-/

namespace UlmerOS

open ByteMem Ownership Transition

/-! ## What the processor lets through -/

instance (e : Gpte) (bits : FaultBits) : Decidable (e.Allows bits) :=
  inferInstanceAs (Decidable ((bits.write = true → e.write = true) ∧
    (bits.user = true → e.user = true) ∧ (bits.exec = true → e.noExec = false)))

/-- The entry on the way to a page at this level allows the access. -/
def permitsAt (m : PhysMem) (vs : Vspace) (virt : Nat) (bits : FaultBits) (q : Path)
    (shift : Nat) : Bool :=
  (entry m vs q (tableIndex virt shift)).any fun e => e.present && decide (e.Allows bits)

theorem permitsAt_iff {m : PhysMem} {vs : Vspace} {virt shift : Nat} {bits : FaultBits} {q : Path} :
    permitsAt m vs virt bits q shift = true ↔
      ∃ e, entry m vs q (tableIndex virt shift) = some e ∧ e.present = true ∧ e.Allows bits := by
  simp [permitsAt, Option.any_eq_true]

/-- The processor looks at four entries. -/
theorem permits_iff {m : PhysMem} {vs : Vspace} {virt : Nat} {bits : FaultBits} :
    Permits m vs virt bits ↔
      permitsAt m vs virt bits [] 27 = true ∧
      permitsAt m vs virt bits [tableIndex virt 27] 18 = true ∧
      permitsAt m vs virt bits [tableIndex virt 27, tableIndex virt 18] 9 = true ∧
      permitsAt m vs virt bits (ptblPath virt) 0 = true := by
  simp only [permitsAt_iff]
  constructor
  · intro h
    exact ⟨h _ _ (by simp [pagePath]), h _ _ (by simp [pagePath]), h _ _ (by simp [pagePath]),
      h _ _ (by simp [pagePath, ptblPath])⟩
  · rintro ⟨h1, h2, h3, h4⟩ q i hq
    rcases q with _ | ⟨a, _ | ⟨b, _ | ⟨c, _ | ⟨d, q⟩⟩⟩⟩
    · obtain rfl : i = tableIndex virt 27 := by simpa [pagePath] using hq
      exact h1
    · obtain ⟨rfl, rfl⟩ : a = tableIndex virt 27 ∧ i = tableIndex virt 18 := by
        simpa [pagePath] using hq
      exact h2
    · obtain ⟨rfl, rfl, rfl⟩ :
          a = tableIndex virt 27 ∧ b = tableIndex virt 18 ∧ i = tableIndex virt 9 := by
        simpa [pagePath] using hq
      exact h3
    · obtain ⟨rfl, rfl, rfl, rfl⟩ : a = tableIndex virt 27 ∧ b = tableIndex virt 18 ∧
          c = tableIndex virt 9 ∧ i = tableIndex virt 0 := by
        simpa [pagePath] using hq
      exact h4
    · exact absurd hq.length_le (by simp [pagePath])

instance (m : PhysMem) (vs : Vspace) (virt : Nat) (bits : FaultBits) :
    Decidable (Permits m vs virt bits) :=
  decidable_of_iff _ permits_iff.symm

/-! ## Events -/

/-- Memory, and the processes by their numbers. -/
structure Machine where
  mem : PhysMem
  procs : Nat → Option Proc

/-- What happens to a process. -/
inductive Event where
  /-- `proc_start`, with the loader that was created for its file. -/
  | start (ldr : Loader)
  /-- A page fault, and whether `page_fault` handled it. -/
  | fault (address : Nat) (bits : FaultBits) (handled : Bool)
  /-- `sys_sbrk(increment)`, and the value it returned. -/
  | sbrk (increment : Int) (value : Nat)
  /-- The processor reads a byte, as data or to execute it. -/
  | load (address : Nat) (exec : Bool) (byte : UInt8)
  /-- The processor writes a byte. -/
  | store (address : Nat) (byte : UInt8)
  /-- The last thread is deleted, and the process with it. -/
  | exit

/-- The stack of the last thread is deleted by `task_delete`, and the address space by
`proc_delete`.  Neither frees the `proc_t` or the `userstack_t`, which are left out. -/
def procDelete (m : PhysMem) (proc : Proc) : Outcome PhysMem := do
  let (proc, m) ← deleteStack m proc 0
  .ret (vspaceDelete m proc.vspace).2

/-- An address that the processor translates: its upper bits are those of bit 47. -/
def Canonical (address : Nat) : Prop :=
  address < userBreak ∨ word - userBreak ≤ address ∧ address < word

/-- What an access of a user program is checked for. -/
def userAccess (write exec : Bool) : FaultBits where
  present := true
  write := write
  user := true
  exec := exec

/-- The byte in memory that an address is translated to. -/
def Mapping.phys (mp : Mapping) (address : Nat) : Nat :=
  pageSize * mp.ppn + address % pageSize

/-- A byte of memory is written. -/
def PhysMem.poke (m : PhysMem) (x : Nat) (byte : UInt8) : PhysMem :=
  { m with ram := Function.update m.ram x byte }

@[simp] theorem poke_ram (m : PhysMem) (x : Nat) (byte : UInt8) :
    (m.poke x byte).ram = Function.update m.ram x byte := rfl

@[simp] theorem poke_freePages (m : PhysMem) (x : Nat) (byte : UInt8) :
    (m.poke x byte).freePages = m.freePages := rfl

@[simp] theorem poke_calls (m : PhysMem) (x : Nat) (byte : UInt8) :
    (m.poke x byte).calls = m.calls := rfl

/-- The events that happen.  Memory is read and written in user mode, where the page tables
permit it. -/
inductive MachineStep (kernel : Vspace) : Machine → Nat × Event → Machine → Prop where
  | start {s : Machine} {pid : Nat} {hdrBuf phtBuf : Mem} {file : File} {ldr : Loader}
      {proc : Proc} {m' : PhysMem} : s.procs pid = none →
      loaderCreate hdrBuf phtBuf file = some ldr → procStart s.mem kernel ldr = .ret (proc, m') →
      MachineStep kernel s (pid, .start ldr) ⟨m', Function.update s.procs pid (some proc)⟩
  | fault {s : Machine} {pid address : Nat} {bits : FaultBits} {handled : Bool}
      {proc proc' : Proc} {m' : PhysMem} : s.procs pid = some proc → address < word →
      pageFault s.mem proc address bits = .ret (handled, proc', m') →
      MachineStep kernel s (pid, .fault address bits handled)
        ⟨m', Function.update s.procs pid (some proc')⟩
  | sbrk {s : Machine} {pid value : Nat} {increment : Int} {proc proc' : Proc} {m' : PhysMem} :
      s.procs pid = some proc → sysSbrk s.mem proc increment = .ret (value, proc', m') →
      MachineStep kernel s (pid, .sbrk increment value)
        ⟨m', Function.update s.procs pid (some proc')⟩
  | load {s : Machine} {pid address : Nat} {exec : Bool} {proc : Proc} {mp : Mapping} :
      s.procs pid = some proc → Canonical address →
      Permits s.mem proc.vspace (address >>> pageShift) (userAccess false exec) →
      translation s.mem proc.vspace (address >>> pageShift) = some mp →
      MachineStep kernel s (pid, .load address exec (s.mem.ram (mp.phys address))) s
  | store {s : Machine} {pid address : Nat} {byte : UInt8} {proc : Proc} {mp : Mapping} :
      s.procs pid = some proc → Canonical address →
      Permits s.mem proc.vspace (address >>> pageShift) (userAccess true false) →
      translation s.mem proc.vspace (address >>> pageShift) = some mp →
      MachineStep kernel s (pid, .store address byte)
        ⟨s.mem.poke (mp.phys address) byte, s.procs⟩
  | exit {s : Machine} {pid : Nat} {proc : Proc} {m' : PhysMem} : s.procs pid = some proc →
      procDelete s.mem proc = .ret m' →
      MachineStep kernel s (pid, .exit) ⟨m', Function.update s.procs pid none⟩

/-- What is relied on.  A program is read by a driver that keeps to its buffer and ends below
`USER_BREAK`, the break is moved neither behind it nor below zero, and the pages of the
stack are counted when it is deleted. -/
def MachineOk (s : Machine) : Nat × Event → Prop
  | (_, .start ldr) => ldr.file.Bounded ∧ ∀ phte ∈ ldr.loads, phte.endAddr ≤ userBreak
  | (pid, .sbrk increment _) => ∀ proc, s.procs pid = some proc → proc.heapBrk ≠ minusOne →
      0 ≤ proc.heapBrk + increment ∧ proc.heapBrk + increment ≤ userBreak
  | (pid, .exit) => ∀ proc, s.procs pid = some proc →
      proc.stackList = [firstStack (stackPages s.mem proc.vspace)]
  | _ => True

/-- When the pages of every stack are counted.  A fault asks for a page that is not mapped, and
a page that is unmapped is not one of the stack. -/
def MachineCounted (s : Machine) : Nat × Event → Prop
  | (pid, .fault address _ _) => ∀ proc, s.procs pid = some proc →
      ∀ ret bytes flags, proc.demand address = .page ret bytes flags → 0 ≤ ret →
        translation s.mem proc.vspace (address >>> pageShift) = none
  | (pid, .sbrk increment value) => MachineOk s (pid, .sbrk increment value) ∧
      ∀ proc, s.procs pid = some proc → proc.heapBrk ≠ minusOne → increment < 0 →
        ∀ page, proc.nextBreak increment ≤ pageSize * page → pageSize * page < proc.heapBrk →
          translation s.mem proc.vspace page ≠ none →
          ∀ stack ∈ proc.stackList, stack.covers page = false
  | (_, .exit) => True
  | l => MachineOk s l

/-- The kernel lets no user into its half. -/
def KernelOnly (m : PhysMem) (kernel : Vspace) : Prop :=
  ∀ virt bits, bits.user = true → 2 ^ 35 ≤ virt % 2 ^ 36 → ¬ Permits m kernel virt bits

/-- No entry of the kernel of an empty machine lets a user in. -/
theorem emptyMachine_kernelOnly : KernelOnly emptyMachine ⟨0⟩ := by
  intro virt bits _ _ hper
  obtain ⟨e, he, hpresent, -⟩ := hper [] (tableIndex virt 27) (by simp [pagePath])
  have hzero : tables emptyMachine.ram 0 (tableIndex virt 27) = noGpte := by
    rw [tables, noGpte]
    exact congrArg Gpte.decode (load_zero fun _ _ _ => rfl)
  rw [entry_eq, walk, Radix.node_nil, Option.map_some, hzero] at he
  obtain rfl := Option.some.inj he
  exact absurd hpresent (by decide)

/-! ## Programs that can be run -/

/-- What a process relies on of its loader. -/
structure Loader.Runnable (ldr : Loader) : Prop where
  bounded : ldr.file.Bounded
  settled : ldr.Settled
  below : ∀ phte ∈ ldr.loads, phte.endAddr ≤ userBreak
  above : ∀ phte ∈ ldr.loads, phte.endAddr ≤ ldr.minHeapBreak
  aligned : pageSize ∣ ldr.minHeapBreak ∨ ldr.minHeapBreak = minusOne

theorem Phte.endAddr_le (phte : Phte) : phte.endAddr ≤ minusOne := by
  have h := wrap64_lt (phte.pVaddr + phte.pMemsz)
  rw [endAddr, minusOne]
  omega

/-- The heap starts behind the segments that end below `USER_BREAK`. -/
theorem loaderCreate_above {hdrBuf phtBuf : Mem} {file : File} {ldr : Loader}
    (h : loaderCreate hdrBuf phtBuf file = some ldr)
    (hbelow : ∀ phte ∈ ldr.loads, phte.endAddr ≤ userBreak) :
    ∀ phte ∈ ldr.loads, phte.endAddr ≤ ldr.minHeapBreak := by
  simp only [loaderCreate] at h
  split at h
  · cases h
  split at h
  · cases h
  split at h
  · cases h
  generalize (Loader.mk file (Elf64.ofBuf (write hdrBuf 0 (file.read 0 64).2)) none phtBuf
    false 0) = new at h
  rw [loadHeapBrk] at h
  rcases new.ready_cases with hready | ⟨pht, hready⟩
  · rw [hready] at h
    cases h
    exact fun phte _ => phte.endAddr_le
  · rw [hready] at h
    cases h
    simp only [Int.lt_irrefl, if_false] at hbelow ⊢
    have hloads : ∀ brk, Loader.loads { new with pht := some pht, minHeapBreak := brk } =
        (new.phtes pht).filter Phte.isLoad := fun brk => rfl
    rw [hloads] at hbelow ⊢
    intro phte hphte
    obtain ⟨hin, hload⟩ := List.mem_filter.mp hphte
    have hends := (foldl_raiseBreak_bounds (Nat.dvd_zero pageSize) fun p hp hl =>
      hbelow p (List.mem_filter.mpr ⟨hp, hl⟩)).2.2.1 phte hin hload
    rw [← heapBreakAfter_eq] at hends
    split
    · exact phte.endAddr_le
    · exact hends

theorem loaderCreate_runnable {hdrBuf phtBuf : Mem} {file : File} {ldr : Loader}
    (h : loaderCreate hdrBuf phtBuf file = some ldr) (hfile : ldr.file.Bounded)
    (hbelow : ∀ phte ∈ ldr.loads, phte.endAddr ≤ userBreak) : ldr.Runnable where
  bounded := hfile
  settled := loaderCreate_settled h
  below := hbelow
  above := loaderCreate_above h hbelow
  aligned := loaderCreate_aligned h

/-- A segment that ends below `USER_BREAK` has no page from there on. -/
theorem Loader.Runnable.low {ldr : Loader} (h : ldr.Runnable) : LowSegments ldr := by
  intro phte hphte page hpage hlt
  have hend := h.below phte hphte
  rw [userBreak, pageShift, Nat.shiftRight_eq_div_pow] at hpage
  rw [userBreak] at hend
  rw [Phte.covers, decide_eq_false_iff_not, wrap64, word, pageShift, Nat.shiftLeft_eq]
  omega

/-- The break stays above the start of the heap. -/
theorem Proc.le_nextBreak (proc : Proc) (increment : Int) :
    proc.loader.minHeapBreak ≤ proc.nextBreak increment := by
  rw [nextBreak]
  split <;> omega

/-- A page that starts in the heap of a process is below `USER_BREAK`. -/
theorem Isolated.page_lt {m0 m : PhysMem} {kernel : Vspace} {proc : Proc} {page : Nat}
    (h : Isolated m0 kernel proc.loader proc m) (hmin : proc.loader.minHeapBreak ≤ pageSize * page)
    (hbrk : pageSize * page < proc.heapBrk) : page < userBreak >>> pageShift := by
  have hhigh := h.brk
  have hlt : pageSize * page < userBreak := by omega
  rw [pageSize, userBreak] at hlt
  rw [userBreak, pageShift, Nat.shiftRight_eq_div_pow]
  omega

/-- A break that is moved to an address of the user is where it should be. -/
theorem breakOk_of_exact {m : PhysMem} {proc : Proc} {increment : Int}
    (h : proc.heapBrk ≠ minusOne →
      0 ≤ proc.heapBrk + increment ∧ proc.heapBrk + increment ≤ userBreak) :
    BreakOk (proc, m) (.sbrk increment) := by
  intro hne
  obtain ⟨hlow, hhigh⟩ := h hne
  have hword : (userBreak : Int) < word := by decide
  have hexact := Proc.nextBreak_exact hlow (by omega)
  show proc.nextBreak increment ≤ userBreak ∨
    proc.nextBreak increment = proc.loader.minHeapBreak
  omega

/-! ## What every event keeps -/

/-- The frames of a process, of which one that is not there has none. -/
def Machine.frames (s : Machine) (pid : Nat) : Set Nat :=
  {f | ∃ proc, s.procs pid = some proc ∧ f ∈ UlmerOS.frames s.mem proc.vspace}

/-- What every event keeps of a process. -/
structure Hosted (m0 : PhysMem) (kernel : Vspace) (m : PhysMem) (proc : Proc) : Prop where
  isolated : Isolated m0 kernel proc.loader proc m
  runnable : proc.loader.Runnable
  low : proc.loader.minHeapBreak ≤ proc.heapBrk

/-- Every process is as it would be alone, and the processes share memory. -/
structure MachineInv (m0 : PhysMem) (kernel : Vspace) (s : Machine) : Prop where
  since : Since m0 s.mem
  hosted : ∀ pid proc, s.procs pid = some proc → Hosted m0 kernel s.mem proc
  shared : Shared s.frames s.mem.store

/-- An address space is not affected: it has the frames it had, its pages are where they were
and have the bytes they had. -/
structure Undisturbed (vs : Vspace) (m m' : PhysMem) : Prop where
  frames_eq : frames m' vs = frames m vs
  translation_eq : ∀ virt, translation m' vs virt = translation m vs virt
  ram_eq : ∀ x, x / pageSize ∈ frames m vs → m'.ram x = m.ram x

section

variable {m0 : PhysMem} {kernel : Vspace} {s t : Machine} {pid : Nat}

theorem Machine.frames_some {proc : Proc} (h : s.procs pid = some proc) :
    s.frames pid = UlmerOS.frames s.mem proc.vspace := by
  ext f
  simp [Machine.frames, h]

theorem Machine.frames_none (h : s.procs pid = none) : s.frames pid = ∅ := by
  ext f
  simp [Machine.frames, h]

/-- No process at all. -/
theorem machineInv_boot (m0 : PhysMem) (kernel : Vspace) :
    MachineInv m0 kernel ⟨m0, fun _ => none⟩ where
  since := .refl m0
  hosted := nofun
  shared := ⟨fun _ _ ⟨_, h, _⟩ => (nomatch h), fun _ _ _ ⟨_, h, _⟩ => (nomatch h)⟩

/-- What a step of one process that is confined does to all of them. -/
theorem MachineInv.confined (h : MachineInv m0 kernel s) (hk : KernelTables m0 kernel)
    (hc : Confined (s.frames pid) (t.frames pid) s.mem.store t.mem.store)
    (hs : Since m0 t.mem) (hother : ∀ j, j ≠ pid → t.procs j = s.procs j)
    (hmine : ∀ proc, t.procs pid = some proc → Hosted m0 kernel t.mem proc) :
    MachineInv m0 kernel t ∧
      ∀ j proc, j ≠ pid → s.procs j = some proc → Undisturbed proc.vspace s.mem t.mem := by
  have hframe : ∀ j proc, j ≠ pid → s.procs j = some proc →
      Owned m0 kernel proc.vspace t.mem ∧ Undisturbed proc.vspace s.mem t.mem := by
    intro j proc hj hproc
    have hsame : ∀ f ∈ UlmerOS.frames s.mem proc.vspace, tables t.mem.ram f = tables s.mem.ram f :=
      fun f hf => h.shared.keep hc hj (by rw [Machine.frames_some hproc]; exact hf)
    obtain ⟨ho, hwalk, hentry⟩ := (h.hosted j proc hproc).isolated.owned.frame hk h.since hs hsame
      fun f hf => h.shared.not_free hc hj (by rw [Machine.frames_some hproc]; exact hf)
    refine ⟨ho, ?_, fun virt => ?_, fun x hx => ram_eq_of_tables (hsame _ hx) rfl⟩
    · ext f
      rw [mem_frames, mem_frames]
      exact exists_congr fun q => and_congr_right fun _ => and_congr_right fun hq => by
        rw [hwalk q hq]
    · rw [translation_eq, translation_eq, hentry (ptblPath virt) _ (Nat.le_refl 3)]
  refine ⟨⟨hs, fun j proc hproc => ?_, h.shared.step hc (fun f hf => ?_) fun j hj => ?_⟩,
    fun j proc hj hproc => (hframe j proc hj hproc).2⟩
  · by_cases hj : j = pid
    · subst hj
      exact hmine proc hproc
    · rw [hother j hj] at hproc
      obtain ⟨hiso, hrun, hlow⟩ := h.hosted j proc hproc
      exact ⟨⟨(hframe j proc hj hproc).1, hiso.stack, hiso.loader, hiso.brk⟩, hrun, hlow⟩
  · obtain ⟨proc, hproc, hf⟩ := hf
    exact ((hmine proc hproc).isolated.owned.frames_taken hf).2
  · ext f
    simp only [Machine.frames, Set.mem_ofPred_eq, hother j hj]
    refine exists_congr fun proc => and_congr_right fun hproc => ?_
    rw [(hframe j proc hj hproc).2.frames_eq]

/-! ## One event -/

/-- A page of the upper half is the kernel's, and closed to the user. -/
theorem Owned.user_page {m : PhysMem} {vs : Vspace} {virt : Nat} {bits : FaultBits}
    (ho : Owned m0 kernel vs m) (honly : KernelOnly m0 kernel) (huser : bits.user = true)
    (h : Permits m vs virt bits) : virt % 2 ^ 36 < 2 ^ 35 := by
  by_contra hvirt
  refine honly virt bits huser (by omega) fun q i hq => ?_
  obtain ⟨e, he, hall⟩ := h q i hq
  refine ⟨e, ?_, hall⟩
  rw [← ho.kernel_entry q i, he]
  · rw [userPath_extend hq (by simp), userPath_pagePath]
    omega
  · exact Nat.le_of_lt_succ (length_lt_of_entry hq)

/-- A canonical address that a user program can use is one below `USER_BREAK`. -/
theorem Canonical.lt {address : Nat} (h : Canonical address)
    (hlow : (address >>> pageShift) % 2 ^ 36 < 2 ^ 35) : address < userBreak := by
  rw [Canonical, word, userBreak] at h
  rw [pageShift, Nat.shiftRight_eq_div_pow] at hlow
  rw [userBreak]
  omega

/-- The byte that an address is translated to is in the frame of its page. -/
theorem Mapping.phys_div (mp : Mapping) (address : Nat) : mp.phys address / pageSize = mp.ppn := by
  rw [phys, pageSize]
  omega

/-- The other frames keep their bytes. -/
theorem Mapping.poke_ram_ne (mp : Mapping) (m : PhysMem) (address : Nat) (byte : UInt8) (x : Nat)
    (hx : x / pageSize ≠ mp.ppn) : (m.poke (mp.phys address) byte).ram x = m.ram x := by
  refine Function.update_of_ne (fun he => hx ?_) _ _
  rw [he, mp.phys_div]

/-- A process that goes on. -/
theorem MachineInv.goesOn (h : MachineInv m0 kernel s) (hk : KernelTables m0 kernel)
    {proc proc' : Proc} {m' : PhysMem} (hproc : s.procs pid = some proc)
    (hvs : proc'.vspace = proc.vspace) (hldr : proc'.loader = proc.loader)
    (hiso : Isolated m0 kernel proc.loader proc' m')
    (hlow : proc.loader.minHeapBreak ≤ proc'.heapBrk)
    (hc : Confined (UlmerOS.frames s.mem proc.vspace) (UlmerOS.frames m' proc.vspace) s.mem.store
      m'.store) :
    MachineInv m0 kernel ⟨m', Function.update s.procs pid (some proc')⟩ ∧
      ∀ j proc, j ≠ pid → s.procs j = some proc → Undisturbed proc.vspace s.mem m' := by
  have howned : Owned m0 kernel proc.vspace m' := by
    rw [← hvs]
    exact hiso.owned
  refine h.confined (t := ⟨m', Function.update s.procs pid (some proc')⟩) hk ?_ ?_ ?_ ?_
  · rw [Machine.frames_some hproc, Machine.frames_some (Function.update_self pid _ _), hvs]
    exact hc
  · exact howned.since (h.since.tablesKept (h.hosted pid proc hproc).isolated.owned hc)
  · exact fun j hj => Function.update_of_ne hj _ _
  · intro q hq
    obtain rfl : proc' = q := Option.some.inj ((Function.update_self pid _ _).symm.trans hq)
    rw [← hldr] at hiso hlow
    exact ⟨hiso, by rw [hldr]; exact (h.hosted pid proc hproc).runnable, hlow⟩

/-- What a page fault does. -/
theorem MachineInv.fault (h : MachineInv m0 kernel s) (hk : KernelTables m0 kernel)
    {address : Nat} {bits : FaultBits} {handled : Bool} {proc proc' : Proc} {m' : PhysMem}
    (hproc : s.procs pid = some proc) (haddr : address < word)
    (hret : pageFault s.mem proc address bits = .ret (handled, proc', m')) :
    MachineInv m0 kernel ⟨m', Function.update s.procs pid (some proc')⟩ ∧
      ∀ j proc, j ≠ pid → s.procs j = some proc → Undisturbed proc.vspace s.mem m' := by
  obtain ⟨hiso, hrun, hlow⟩ := h.hosted pid proc hproc
  have hiso' := hiso.fault hk hrun.bounded hrun.settled hrun.low haddr hret
  obtain ⟨rfl, hserved⟩ := pageFault_ret hrun.bounded (hiso.owned.separated hk)
    (hiso.owned.tablesUsed hk) hret
  have howned' : Owned m0 kernel proc.vspace m' := by
    have ho := hiso'.owned
    rw [Proc.faulted_vspace] at ho
    exact ho
  refine h.goesOn hk hproc (Proc.faulted_vspace _ _) hiso'.loader hiso' ?_ ?_
  · rw [Proc.faulted_heapBrk]
    exact hlow
  generalize proc.demand address = d at hserved
  cases hserved with
  | nothing => exact .refl _ _
  | page hmap => exact hmap.confined hiso.owned howned' hk

/-- What `sys_sbrk` does. -/
theorem MachineInv.sbrk (h : MachineInv m0 kernel s) (hk : KernelTables m0 kernel)
    {increment : Int} {value : Nat} {proc proc' : Proc} {m' : PhysMem}
    (hproc : s.procs pid = some proc) (hok : BreakOk (proc, s.mem) (.sbrk increment))
    (hret : sysSbrk s.mem proc increment = .ret (value, proc', m')) :
    MachineInv m0 kernel ⟨m', Function.update s.procs pid (some proc')⟩ ∧
      ∀ j proc, j ≠ pid → s.procs j = some proc → Undisturbed proc.vspace s.mem m' := by
  obtain ⟨hiso, hrun, hlow⟩ := h.hosted pid proc hproc
  have hiso' := hiso.sbrk hk hok hret
  rcases sysSbrk_ret hret with ⟨-, rfl, rfl⟩ | ⟨hne, rfl, first, n, rfl, hpages⟩
  · exact h.goesOn hk hproc rfl rfl hiso' hlow (.refl _ _)
  · refine h.goesOn hk hproc rfl rfl hiso' (Proc.le_nextBreak proc increment)
      (hiso.owned.unmapRange_confined hk first n ?_)
    intro page h1 h2 _
    obtain ⟨-, hbehind, hold⟩ := hpages page h1 h2
    exact lower_of_lt (hiso.page_lt ((Proc.le_nextBreak proc increment).trans hbehind) hold)

/-- What a write of the user does. -/
theorem MachineInv.store (h : MachineInv m0 kernel s) (hk : KernelTables m0 kernel)
    (honly : KernelOnly m0 kernel) {address : Nat} {byte : UInt8} {proc : Proc} {mp : Mapping}
    (hproc : s.procs pid = some proc)
    (hper : Permits s.mem proc.vspace (address >>> pageShift) (userAccess true false))
    (htr : translation s.mem proc.vspace (address >>> pageShift) = some mp) :
    MachineInv m0 kernel ⟨s.mem.poke (mp.phys address) byte, s.procs⟩ ∧
      ∀ j proc, j ≠ pid → s.procs j = some proc →
        Undisturbed proc.vspace s.mem (s.mem.poke (mp.phys address) byte) := by
  obtain ⟨hiso, hrun, hlow⟩ := h.hosted pid proc hproc
  obtain ⟨ho, -, -, hc⟩ := hiso.owned.poke hk htr (hiso.owned.user_page honly rfl hper)
    (mp.poke_ram_ne s.mem address byte) (poke_freePages _ _ _) (poke_calls _ _ _)
  have hself : Function.update s.procs pid (some proc) = s.procs := by
    rw [← hproc, Function.update_eq_self]
  have hstep := h.goesOn hk hproc rfl rfl ⟨ho, hiso.stack, hiso.loader, hiso.brk⟩ hlow hc
  rw [hself] at hstep
  exact hstep

/-- What the start of a process does. -/
theorem MachineInv.start (h : MachineInv m0 kernel s) (hk : KernelTables m0 kernel)
    {ldr : Loader} {proc : Proc} {m' : PhysMem} (hnone : s.procs pid = none)
    (hrun : ldr.Runnable) (hret : procStart s.mem kernel ldr = .ret (proc, m')) :
    MachineInv m0 kernel ⟨m', Function.update s.procs pid (some proc)⟩ ∧
      ∀ j proc, j ≠ pid → s.procs j = some proc → Undisturbed proc.vspace s.mem m' := by
  have hused := (h.since.kernelTables hk).used
  obtain ⟨hc, hproc⟩ := procStart_ret hused hret
  obtain ⟨hs, ho⟩ := hc.since hk h.since
  refine h.confined (t := ⟨m', Function.update s.procs pid (some proc)⟩) hk ?_ hs ?_ ?_
  · rw [Machine.frames_none hnone, Machine.frames_some (Function.update_self pid _ _)]
    exact hc.confined hused
  · exact fun j hj => Function.update_of_ne hj _ _
  · intro q hq
    obtain rfl : proc = q := Option.some.inj ((Function.update_self pid _ _).symm.trans hq)
    have hldr : proc.loader = ldr := by rw [hproc]
    refine ⟨⟨ho, ⟨0, ?_⟩, rfl, .inr ?_⟩, by rw [hldr]; exact hrun, ?_⟩
    · rw [hproc]
      rfl
    · rw [hproc]
    · rw [hproc]

/-- The end of a process whose stack is counted: the stack is unwound, and then the address
space is deleted. -/
theorem procDelete_ret {m m' : PhysMem} {proc : Proc} (ho : Owned m0 kernel proc.vspace m)
    (hk : KernelTables m0 kernel)
    (hstack : proc.stackList = [firstStack (stackPages m proc.vspace)])
    (hret : procDelete m proc = .ret m') :
    ∃ m1, Owned m0 kernel proc.vspace m1 ∧
      (∀ f, Loose m0 proc.vspace m1 f ↔ Loose m0 proc.vspace m f) ∧
      Confined (UlmerOS.frames m proc.vspace) (UlmerOS.frames m1 proc.vspace) m.store m1.store ∧
      m' = (vspaceDelete m1 proc.vspace).2 := by
  obtain ⟨⟨proc1, m1⟩, hdelete, hfin⟩ := Outcome.bind_eq_ret.mp hret
  have hend :
      wrap64 ((newStack 0).startPage + (newStack 0).pageCount + minusOne) = 0x7ffffdfff := by
    decide
  rw [deleteStack, hstack, List.getElem?_cons_zero] at hdelete
  obtain ⟨m2, hunwind, hpair⟩ := Outcome.bind_eq_ret.mp hdelete
  simp only [firstStack, hend] at hunwind
  cases hpair
  obtain ⟨ho1, hl1, hc1⟩ := ho.unwind_confined hk (by decide)
    (show 0x7ffffdfff + 1 = 0x7ffffc000 + 0x2000 by decide) (by decide)
    (show 0x2000 ≤ word by decide) (show stackPages m proc.vspace = _ from rfl) hunwind
  exact ⟨m1, ho1, hl1, hc1, (Outcome.ret.inj hfin).symm⟩

/-- What the end of a process does. -/
theorem MachineInv.exit (h : MachineInv m0 kernel s) (hk : KernelTables m0 kernel)
    {proc : Proc} {m' : PhysMem} (hproc : s.procs pid = some proc)
    (hstack : proc.stackList = [firstStack (stackPages s.mem proc.vspace)])
    (hret : procDelete s.mem proc = .ret m') :
    MachineInv m0 kernel ⟨m', Function.update s.procs pid none⟩ ∧
      ∀ j proc, j ≠ pid → s.procs j = some proc → Undisturbed proc.vspace s.mem m' := by
  have ho := (h.hosted pid proc hproc).isolated.owned
  obtain ⟨m1, ho1, -, hc1, rfl⟩ := procDelete_ret ho hk hstack hret
  have hs1 : Since m0 m1 := ho1.since (h.since.tablesKept ho hc1)
  refine h.confined (t := ⟨_, Function.update s.procs pid none⟩) hk ?_ (ho1.delete_since hs1) ?_ ?_
  · rw [Machine.frames_some hproc, Machine.frames_none (Function.update_self pid _ _)]
    exact hc1.trans ho1.delete_confined
  · exact fun j hj => Function.update_of_ne hj _ _
  · intro q hq
    cases (Function.update_self pid _ _).symm.trans hq

/-- The other processes stay. -/
theorem MachineStep.procs_ne {l : Event} (h : MachineStep kernel s (pid, l) t) (j : Nat)
    (hj : j ≠ pid) : t.procs j = s.procs j := by
  cases h with
  | load _ _ _ _ => rfl
  | store _ _ _ _ => rfl
  | _ => exact Function.update_of_ne hj _ _

/-- **One event.**  It keeps the invariant, and no process but its own is affected. -/
theorem MachineInv.step {l : Event} (h : MachineInv m0 kernel s) (hk : KernelTables m0 kernel)
    (honly : KernelOnly m0 kernel)
    (hstep : Guarded (MachineStep kernel) MachineOk s (pid, l) t) :
    MachineInv m0 kernel t ∧
      ∀ j proc, j ≠ pid → s.procs j = some proc → Undisturbed proc.vspace s.mem t.mem := by
  obtain ⟨hstep, hok⟩ := hstep
  cases hstep with
  | start hnone hldr hret =>
      obtain ⟨hfile, hbelow⟩ := hok
      exact h.start hk hnone (loaderCreate_runnable hldr hfile hbelow) hret
  | fault hproc haddr hret => exact h.fault hk hproc haddr hret
  | sbrk hproc hret => exact h.sbrk hk hproc (breakOk_of_exact (hok _ hproc)) hret
  | load _ _ _ _ => exact ⟨h, fun _ _ _ _ => ⟨rfl, fun _ => rfl, fun _ _ => rfl⟩⟩
  | store hproc _ hper htr => exact h.store hk honly hproc hper htr
  | exit hproc hret => exact h.exit hk hproc (hok _ hproc) hret

theorem MachineInv.run {ls : List (Nat × Event)} (hk : KernelTables m0 kernel)
    (honly : KernelOnly m0 kernel)
    (hrun : Run (Guarded (MachineStep kernel) MachineOk) ⟨m0, fun _ => none⟩ ls s) :
    MachineInv m0 kernel s :=
  hrun.invariant (fun _ _ _ h hstep => (h.step hk honly hstep).1) (machineInv_boot m0 kernel)

end

/-! ## Two processes -/

/-- Two processes use the same address of their stacks. -/
def pushBoth (ldr : Loader) : List (Nat × Event) :=
  [(1, .start ldr), (2, .start ldr), (1, .fault 0x7ffffdfffff8 ⟨false, true, true, false⟩ true),
    (2, .fault 0x7ffffdfffff8 ⟨false, true, true, false⟩ true), (1, .store 0x7ffffdfffff8 1),
    (2, .store 0x7ffffdfffff8 2), (1, .load 0x7ffffdfffff8 false 1)]

/-- What their calls return, and what the processor finds in the tables. -/
theorem pushBoth_calls : ∃ proc1 proc2 proc1' proc2' m1 m2 m3 m4,
    boot textElf = .ret (proc1, m1) ∧
    procStart m1 ⟨0⟩ proc1.loader = .ret (proc2, m2) ∧
    pageFault m2 proc1 0x7ffffdfffff8 ⟨false, true, true, false⟩ = .ret (true, proc1', m3) ∧
    pageFault m3 proc2 0x7ffffdfffff8 ⟨false, true, true, false⟩ = .ret (true, proc2', m4) ∧
    proc1.loader.loads = [⟨1, 5, 120, 0x400000, 4, 4⟩] ∧
    translation m2 proc1.vspace 0x7ffffdfff = none ∧
    translation m3 proc2.vspace 0x7ffffdfff = none ∧
    translation m4 proc1'.vspace 0x7ffffdfff = some ⟨3, true, true, true⟩ ∧
    Permits m4 proc1'.vspace 0x7ffffdfff (userAccess true false) ∧
    translation (m4.poke 0x3ff8 1) proc2'.vspace 0x7ffffdfff = some ⟨7, true, true, true⟩ ∧
    Permits (m4.poke 0x3ff8 1) proc2'.vspace 0x7ffffdfff (userAccess true false) ∧
    translation ((m4.poke 0x3ff8 1).poke 0x7ff8 2) proc1'.vspace 0x7ffffdfff =
      some ⟨3, true, true, true⟩ ∧
    Permits ((m4.poke 0x3ff8 1).poke 0x7ff8 2) proc1'.vspace 0x7ffffdfff
      (userAccess false false) ∧
    ((m4.poke 0x3ff8 1).poke 0x7ff8 2).ram 0x3ff8 = 1 := by
  have hcompute : (do
      let first ← boot textElf
      let second ← procStart first.2 ⟨0⟩ first.1.loader
      let pushed1 ← pageFault second.2 first.1 0x7ffffdfffff8 ⟨false, true, true, false⟩
      let pushed2 ← pageFault pushed1.2.2 second.1 0x7ffffdfffff8 ⟨false, true, true, false⟩
      .ret (first.1.loader.loads, pushed1.1, pushed2.1,
        decide (translation second.2 first.1.vspace 0x7ffffdfff = none ∧
          translation pushed1.2.2 second.1.vspace 0x7ffffdfff = none),
        let m := pushed2.2.2
        let m1 := m.poke 0x3ff8 1
        let m2 := m1.poke 0x7ff8 2
        decide (translation m pushed1.2.1.vspace 0x7ffffdfff = some (Mapping.mk 3 true true true) ∧
          Permits m pushed1.2.1.vspace 0x7ffffdfff (userAccess true false) ∧
          translation m1 pushed2.2.1.vspace 0x7ffffdfff = some (Mapping.mk 7 true true true) ∧
          Permits m1 pushed2.2.1.vspace 0x7ffffdfff (userAccess true false) ∧
          translation m2 pushed1.2.1.vspace 0x7ffffdfff = some (Mapping.mk 3 true true true) ∧
          Permits m2 pushed1.2.1.vspace 0x7ffffdfff (userAccess false false) ∧
          m2.ram 0x3ff8 = 1))) =
      .ret ([⟨1, 5, 120, 0x400000, 4, 4⟩], true, true, true, true) := by
    decide +kernel
  obtain ⟨⟨proc1, m1⟩, hboot, hrest⟩ := Outcome.bind_eq_ret.mp hcompute
  obtain ⟨⟨proc2, m2⟩, hstart2, hrest⟩ := Outcome.bind_eq_ret.mp hrest
  obtain ⟨⟨ok1, proc1', m3⟩, hfault1, hrest⟩ := Outcome.bind_eq_ret.mp hrest
  obtain ⟨⟨ok2, proc2', m4⟩, hfault2, hvals⟩ := Outcome.bind_eq_ret.mp hrest
  simp only [Outcome.ret.injEq, Prod.mk.injEq, decide_eq_true_eq] at hvals
  obtain ⟨hloads, rfl, rfl, ⟨hnone1, hnone2⟩, htables⟩ := hvals
  exact ⟨proc1, proc2, proc1', proc2', m1, m2, m3, m4, hboot, hstart2, hfault1, hfault2, hloads,
    hnone1, hnone2, htables⟩

/-- They run until the first has read what it wrote. -/
theorem pushBoth_run : ∃ ldr proc1 proc2 m procs,
    loaderCreate (fun _ => 0) (fun _ => 0) (File.ofBytes textElf) = some ldr ∧
    Run (Guarded (MachineStep ⟨0⟩) fun s l => MachineOk s l ∧ MachineCounted s l)
      ⟨emptyMachine, fun _ => none⟩ (pushBoth ldr) ⟨m, procs⟩ ∧
    procs 1 = some proc1 ∧ procs 2 = some proc2 ∧ (∀ pid, pid ≠ 1 → pid ≠ 2 → procs pid = none) ∧
    Permits m proc1.vspace 0x7ffffdfff (userAccess false false) ∧
    translation m proc1.vspace 0x7ffffdfff = some ⟨3, true, true, true⟩ := by
  obtain ⟨proc1, proc2, proc1', proc2', m1, m2, m3, m4, hboot, hstart2, hfault1, hfault2, hloads,
    hnone1, hnone2, htr1, hper1, htr2, hper2, htr3, hper3, hbyte⟩ := pushBoth_calls
  obtain ⟨ldr, hldr, hstart1⟩ := boot_ret hboot
  have hproc1 := (procStart_ret emptyMachine_kernel.used hstart1).2
  have hfile : ldr.file.Bounded := by
    have hbounded := boot_bounded hboot
    rw [hproc1] at hbounded
    exact hbounded
  obtain rfl : proc1.loader = ldr := by rw [hproc1]
  have hbelow : ∀ phte ∈ proc1.loader.loads, phte.endAddr ≤ userBreak := by
    rw [hloads]
    decide
  have hcan : Canonical 0x7ffffdfffff8 := .inl (by decide)
  refine ⟨proc1.loader, proc1', proc2', (m4.poke 0x3ff8 1).poke 0x7ff8 2, Function.update
    (Function.update (Function.update (Function.update (fun _ => none) 1 (some proc1)) 2
      (some proc2)) 1 (some proc1')) 2 (some proc2'), hldr, ?_, by simp, by simp, ?_, hper3, htr3⟩
  · have hs1 : MachineStep ⟨0⟩ ⟨emptyMachine, fun _ => none⟩ (1, .start proc1.loader)
        ⟨m1, Function.update (fun _ => none) 1 (some proc1)⟩ := .start rfl hldr hstart1
    have hs2 : MachineStep ⟨0⟩ ⟨m1, Function.update (fun _ => none) 1 (some proc1)⟩
        (2, .start proc1.loader)
        ⟨m2, Function.update (Function.update (fun _ => none) 1 (some proc1)) 2 (some proc2)⟩ :=
      .start (by simp) hldr hstart2
    refine .cons ⟨hs1, ⟨hfile, hbelow⟩, hfile, hbelow⟩ ?_
    refine .cons ⟨hs2, ⟨hfile, hbelow⟩, hfile, hbelow⟩ ?_
    refine .cons (t := ⟨m3, _⟩) ⟨.fault (by simp) (by decide) hfault1, trivial, ?_⟩ ?_
    · intro p hp ret bytes flags _ _
      obtain rfl : proc1 = p := by simpa using hp
      exact hnone1
    refine .cons (t := ⟨m4, _⟩) ⟨.fault (by simp) (by decide) hfault2, trivial, ?_⟩ ?_
    · intro p hp ret bytes flags _ _
      obtain rfl : proc2 = p := by simpa using hp
      exact hnone2
    refine .cons ⟨.store (by simp) hcan hper1 htr1, trivial, trivial⟩ ?_
    refine .cons ⟨.store (by simp) hcan hper2 htr2, trivial, trivial⟩ ?_
    refine .cons ⟨?_, trivial, trivial⟩ .nil
    have hread : ((m4.poke 0x3ff8 1).poke 0x7ff8 2).ram
        ((Mapping.mk 3 true true true).phys 0x7ffffdfffff8) = 1 := hbyte
    rw [← hread]
    exact .load (by simp) hcan hper3 htr3
  · intro pid h1 h2
    simp [h1, h2]

section

variable {m0 : PhysMem} {kernel : Vspace} {s : Machine} {pid : Nat}

/-! ## The kernel and its processes -/

/-- The frame of a user page is no table of any process, and that of no other page. -/
theorem MachineInv.page_apart (h : MachineInv m0 kernel s) (hk : KernelTables m0 kernel)
    (honly : KernelOnly m0 kernel) {proc proc' : Proc} {virt pid' : Nat} {mp : Mapping}
    (hproc : s.procs pid = some proc) (hlow : virt % 2 ^ 36 < 2 ^ 35)
    (htr : translation s.mem proc.vspace virt = some mp) (hproc' : s.procs pid' = some proc') :
    ¬ IsTable s.mem proc'.vspace mp.ppn ∧
      ∀ virt' bits' mp', bits'.user = true → Permits s.mem proc'.vspace virt' bits' →
        translation s.mem proc'.vspace virt' = some mp' → mp'.ppn = mp.ppn →
        pid' = pid ∧ virt' % 2 ^ 36 = virt % 2 ^ 36 := by
  have ho := (h.hosted pid proc hproc).isolated.owned
  have ho' := (h.hosted pid' proc' hproc').isolated.owned
  have hmine := mem_frames_of_translation htr hlow
  have hsame : mp.ppn ∈ UlmerOS.frames s.mem proc'.vspace → pid' = pid := by
    intro hf
    refine h.shared.apart pid' pid mp.ppn ?_ ?_
    · rw [Machine.frames_some hproc']
      exact hf
    · rw [Machine.frames_some hproc]
      exact hmine
  constructor
  · rintro ⟨q, hq, hw⟩
    by_cases hu : UserPath q
    · obtain rfl := hsame (mem_frames.mpr ⟨q, hu, by omega, hw⟩)
      obtain rfl := Option.some.inj (hproc.symm.trans hproc')
      exact ho.page_not_table hk htr hlow ⟨q, hq, hw⟩
    · rw [ho'.walk_kernel hu (by omega)] at hw
      exact hk.used _ ⟨q, hq, hw⟩ (ho.frames_taken hmine).1
  · intro virt' bits' mp' huser hper htr' hppn
    have hlow' := ho'.user_page honly huser hper
    have hmine' := mem_frames_of_translation htr' hlow'
    rw [hppn] at hmine'
    obtain rfl := hsame hmine'
    obtain rfl := Option.some.inj (hproc.symm.trans hproc')
    refine ⟨rfl, pagePath_inj.mp (ho.inj _ _ mp.ppn (userPath_pagePath.mpr hlow')
      (userPath_pagePath.mpr hlow) (Nat.le_refl 4) (Nat.le_refl 4) ?_ ?_)⟩
    · rw [walk_pagePath, htr', ← hppn]
      rfl
    · rw [walk_pagePath, htr]
      rfl

/-- **The kernel and its processes are kept apart.**  After every run of the machine in which
programs and breaks keep below `USER_BREAK` and stacks are counted (`MachineOk`) every byte of a
frame that was in use at first is as it was.  A page that a user program may access is one of
the lower half.  Its frame was free at first and is not free now, it is no page table of any
process, and no other page that a user program may access has it. -/
theorem user_pages_apart {ls : List (Nat × Event)} (hk : KernelTables m0 kernel)
    (honly : KernelOnly m0 kernel)
    (hrun : Run (Guarded (MachineStep kernel) MachineOk) ⟨m0, fun _ => none⟩ ls s) :
    (∀ x, ¬ m0.Free (x / pageSize) → s.mem.ram x = m0.ram x) ∧
      ∀ pid proc virt bits mp, s.procs pid = some proc → bits.user = true →
        Permits s.mem proc.vspace virt bits → translation s.mem proc.vspace virt = some mp →
        virt % 2 ^ 36 < 2 ^ 35 ∧ m0.Free mp.ppn ∧ ¬ s.mem.Free mp.ppn ∧
        ∀ pid' proc', s.procs pid' = some proc' →
          ¬ IsTable s.mem proc'.vspace mp.ppn ∧
          ∀ virt' bits' mp', bits'.user = true → Permits s.mem proc'.vspace virt' bits' →
            translation s.mem proc'.vspace virt' = some mp' → mp'.ppn = mp.ppn →
            pid' = pid ∧ virt' % 2 ^ 36 = virt % 2 ^ 36 := by
  have h := MachineInv.run hk honly hrun
  constructor
  · intro x hx
    exact ram_eq_of_tables (funext (h.since.kept _ hx)) rfl
  · intro pid proc virt bits mp hproc huser hper htr
    have ho := (h.hosted pid proc hproc).isolated.owned
    have hlow := ho.user_page honly huser hper
    obtain ⟨hfree, hused⟩ := ho.frames_taken (mem_frames_of_translation htr hlow)
    exact ⟨hlow, hfree, hused, fun pid' proc' hproc' => h.page_apart hk honly hproc hlow htr hproc'⟩

end

/-- The byte that the first process reads is in a page of its own. -/
theorem user_pages_apart_two : ∃ ldr s proc,
    Run (Guarded (MachineStep ⟨0⟩) MachineOk) ⟨emptyMachine, fun _ => none⟩ (pushBoth ldr) s ∧
      s.procs 1 = some proc ∧ emptyMachine.Free 3 ∧ ¬ s.mem.Free 3 ∧
      ∀ proc', s.procs 2 = some proc' → ¬ IsTable s.mem proc'.vspace 3 := by
  obtain ⟨ldr, proc1, _, m, procs, -, hrun, hproc1, -, -, hper, htr⟩ := pushBoth_run
  have hrun' := hrun.mono fun _ _ _ h => And.imp_right And.left h
  obtain ⟨-, hpages⟩ := user_pages_apart emptyMachine_kernel emptyMachine_kernelOnly hrun'
  obtain ⟨-, hfree, hused, hothers⟩ := hpages 1 proc1 _ _ _ hproc1 rfl hper htr
  exact ⟨ldr, _, proc1, hrun', hproc1, hfree, hused, fun proc' hproc' => (hothers 2 proc' hproc').1⟩

end UlmerOS
