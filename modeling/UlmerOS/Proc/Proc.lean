import UlmerOS.Proc.Loader
import UlmerOS.Arch.VspaceRefine

/-!
# Processes and their memory

`kernel/sched/userstack.c`, `kernel/mm/sbrk.c`, `kernel/mm/pagefault.c` and the part
of `kernel/sched/proc.c` that sets a process up.

A process gets its memory on demand.  `page_fault` asks three loaders in turn, the
one of the stacks, the one of the heap and the one of the program, and each of them
allocates a frame and calls `vspace_map` for an address that it takes for its own.
`sys_sbrk` moves the end of the heap.

The locks of a process are free when a function starts and when it returns, and are
left out.  That of the loader is not always.

The objects of the kernel heap are left out: the `proc_t`, the `userstack_t` of `create_stack`
and the items of the lists.  No code frees a `userstack_t` or a `proc_t`, so the kernel heap
keeps what it took for them (`Object`).  The frames that are counted here are those of address
spaces.
-/

namespace UlmerOS

/-- `STACK_SIZE`. -/
def stackSize : Nat := 32 * 1024 * 1024

/-- `userstack_t`. -/
structure Userstack where
  index : Nat
  startPage : Nat
  pageCount : Nat
  stackPtr : Nat
  allocated : Bool
  pagesMapped : Nat
deriving DecidableEq, Repr

/-- The fields of `proc_t` that memory depends on. -/
structure Proc where
  stackList : List Userstack
  vspace : Vspace
  heapBrk : Nat
  loader : Loader

/-! ## Stacks -/

/-- `start_page` of a new stack. -/
def stackStart (index : Nat) : Nat :=
  wrap64 (userBreak >>> pageShift + (word - 2 * (index + 1) * (stackSize / pageSize)))

/-- A new stack of `create_stack`. -/
def newStack (index : Nat) : Userstack where
  index := index
  startPage := stackStart index
  pageCount := stackSize / pageSize
  stackPtr := wrap64 ((stackStart index + stackSize >>> pageShift) <<< pageShift)
  allocated := true
  pagesMapped := 0

/-- `create_stack`: the first stack that is not allocated, or a new one.  The `kmalloc` of a new
one and the item of `list_add` are left out. -/
def createStack (proc : Proc) : Userstack × Proc :=
  match proc.stackList.findIdx? fun stack => !stack.allocated with
  | some i =>
      let stackList := proc.stackList.modify i fun stack => { stack with allocated := true }
      (stackList.getD i (newStack i), { proc with stackList := stackList })
  | none =>
      let stack := newStack proc.stackList.length
      (stack, { proc with stackList := proc.stackList ++ [stack] })

/-- The page is in the stack. -/
def Userstack.covers (stack : Userstack) (virtPage : Nat) : Bool :=
  stack.allocated && decide (virtPage ≥ stack.startPage ∧
    virtPage < wrap64 (stack.startPage + stack.pageCount))

/-- The loop of `stack_load`. -/
def stackLoadList (m : PhysMem) (vspace : Vspace) (virtPage : Nat) :
    List Userstack → Outcome (Int × List Userstack × PhysMem)
  | [] => .ret (-enoent, [], m)
  | stack :: rest =>
      if stack.covers virtPage then do
        let (ppn, m) ← allocPage m
        let m ← vspaceMap m vspace virtPage ppn (pgNoexec ||| pgUser ||| pgWrite)
        .ret (0, { stack with pagesMapped := wrap64 (stack.pagesMapped + 1) } :: rest, m)
      else do
        let (ret, rest, m) ← stackLoadList m vspace virtPage rest
        .ret (ret, stack :: rest, m)

/-- `stack_load`. -/
def stackLoad (m : PhysMem) (proc : Proc) (virtPage : Nat) : Outcome (Int × Proc × PhysMem) := do
  let (ret, stackList, m) ← stackLoadList m proc.vspace virtPage proc.stackList
  .ret (ret, { proc with stackList := stackList }, m)

/-- The loop of `delete_stack` that unmaps pages downwards while `pagesMapped` is not
zero. -/
def unwindStack (vspace : Vspace) : Nat → Nat → Nat → PhysMem → Outcome PhysMem
  | _, _, 0, m => .ret m
  | 0, _, _ + 1, _ => .hang
  | fuel + 1, endPage, pagesMapped + 1, m =>
      let (ret, m) := vspaceUnmap m vspace endPage
      unwindStack vspace fuel (wrap64 (endPage + minusOne))
        (if ret then pagesMapped else pagesMapped + 1) m

/-- `delete_stack`.  The stacks at the end that are not allocated leave the list. -/
def deleteStack (m : PhysMem) (proc : Proc) (index : Nat) : Outcome (Proc × PhysMem) :=
  match proc.stackList[index]? with
  | none => .fault
  | some stack => do
      let endPage := wrap64 (stack.startPage + stack.pageCount + minusOne)
      let m ← unwindStack proc.vspace word endPage stack.pagesMapped m
      let stackList := proc.stackList.set index { stack with allocated := false, pagesMapped := 0 }
      let kept := (stackList.reverse.dropWhile fun stack => !stack.allocated).reverse
      .ret ({ proc with stackList := kept }, m)

/-! ## The heap of a process -/

/-- `heap_load`. -/
def heapLoad (m : PhysMem) (proc : Proc) (addr : Nat) : Outcome (Int × PhysMem) :=
  if addr ≥ proc.loader.minHeapBreak ∧ addr < proc.heapBrk then do
    let (ppn, m) ← allocPage m
    let m ← vspaceMap m proc.vspace (addr >>> pageShift) ppn (pgWrite ||| pgUser)
    .ret (0, m)
  else .ret (-enoent, m)

/-- The loop of `sys_sbrk` that unmaps `n` pages. -/
def unmapRange (vspace : Vspace) : Nat → Nat → PhysMem → PhysMem
  | _, 0, m => m
  | page, n + 1, m => unmapRange vspace (page + 1) n (vspaceUnmap m vspace page).2

/-- The heap break that `sys_sbrk` moves to. -/
def Proc.nextBreak (proc : Proc) (increment : Int) : Nat :=
  if wrap64 (proc.heapBrk + toSize increment) < proc.loader.minHeapBreak then
    proc.loader.minHeapBreak
  else wrap64 (proc.heapBrk + toSize increment)

/-- The break moves by the increment, but not below the heap, when the sum does not wrap. -/
theorem Proc.nextBreak_exact {proc : Proc} {increment : Int} (hlow : 0 ≤ proc.heapBrk + increment)
    (hhigh : proc.heapBrk + increment < word) :
    (proc.nextBreak increment : Int) =
      max (proc.heapBrk + increment) proc.loader.minHeapBreak := by
  have hsum : (wrap64 (proc.heapBrk + toSize increment) : Int) = proc.heapBrk + increment := by
    simp only [wrap64, toSize, word] at *
    omega
  rw [nextBreak]
  split
  · rw [max_eq_right (by omega)]
  · rw [hsum, max_eq_left (by omega)]

/-- The first page that `sys_sbrk` unmaps when it moves the break down to `brk`. -/
def firstUnmap (brk : Nat) : Nat :=
  if brk % pageSize ≠ 0 then brk >>> pageShift + 1 else brk >>> pageShift

/-- The last page that `sys_sbrk` unmaps when it moves the break down from `brk`. -/
def lastUnmap (brk : Nat) : Nat :=
  if brk % pageSize = 0 then wrap64 (brk >>> pageShift + minusOne) else brk >>> pageShift

/-- `sys_sbrk`.  No page is behind the last one, so that the loop up to it does not
end. -/
def sysSbrk (m : PhysMem) (proc : Proc) (increment : Int) : Outcome (Nat × Proc × PhysMem) :=
  if proc.heapBrk = minusOne then .ret (minusOne, proc, m)
  else
    let oldBreak := proc.heapBrk
    let proc := { proc with heapBrk := proc.nextBreak increment }
    if increment < 0 then
      if lastUnmap oldBreak = minusOne then .hang
      else
        let first := firstUnmap proc.heapBrk
        let m := unmapRange proc.vspace first (lastUnmap oldBreak + 1 - first) m
        .ret (oldBreak, proc, m)
    else .ret (oldBreak, proc, m)

/-! ## Page faults -/

/-- The error bits of a page fault. -/
structure FaultBits where
  present : Bool
  write : Bool
  user : Bool
  exec : Bool
deriving DecidableEq, Repr

/-- The decoding of the error code in `x86_exception`. -/
def FaultBits.ofError (error : Nat) : FaultBits where
  present := error.testBit 0
  write := error.testBit 1
  user := error.testBit 2
  exec := error.testBit 4

/-- `page_fault` of a task that belongs to a process.  The error bits are printed and
not used. -/
def pageFault (m : PhysMem) (proc : Proc) (address : Nat) (_bits : FaultBits) :
    Outcome (Bool × Proc × PhysMem) := do
  let virtPage := address >>> pageShift
  let (ret, proc, m) ← stackLoad m proc virtPage
  if ret ≥ 0 then .ret (true, proc, m)
  else do
    let (ret, m) ← heapLoad m proc address
    if ret ≥ 0 then .ret (true, proc, m)
    else do
      let (ret, ldr, m) ← loaderLoad m proc.loader virtPage proc.vspace
      .ret (decide (ret ≥ 0), { proc with loader := ldr }, m)

/-- The number of the page fault among the exceptions. -/
def excPageFault : Nat := 14

/-- `x86_exception` in a task of `process`, of which a task of the kernel has none.  The
address of the fault is in `cr2`. -/
def x86Exception (m : PhysMem) (process : Option Proc) (exc error cr2 : Nat) :
    Outcome (Bool × Option Proc × PhysMem) :=
  if exc = excPageFault then
    match process with
    | none => .ret (false, none, m)
    | some proc => do
        let (ok, proc, m) ← pageFault m proc cr2 (FaultBits.ofError error)
        .ret (ok, some proc, m)
  else .ret (false, process, m)

/-- What `proc_start` sets up of a process: its address space, its heap break and its
first stack, without the objects of the kernel heap that hold them. -/
def procStart (m : PhysMem) (kernel : Vspace) (ldr : Loader) : Outcome (Proc × PhysMem) := do
  let (vspace, m) ← vspaceCreate m kernel
  let proc : Proc :=
    { stackList := [], vspace := vspace, heapBrk := ldr.minHeapBreak, loader := ldr }
  .ret ((createStack proc).2, m)

/-- A process starts with one stack, no heap and an address space without pages. -/
theorem procStart_ret {m m' : PhysMem} {kernel : Vspace} {ldr : Loader} {proc : Proc}
    (hused : TablesUsed m kernel) (h : procStart m kernel ldr = .ret (proc, m')) :
    Created m kernel proc.vspace m' ∧
      proc = { stackList := [newStack 0], vspace := proc.vspace, heapBrk := ldr.minHeapBreak,
               loader := ldr } := by
  obtain ⟨⟨vs, m1⟩, hcreate, hret⟩ := Outcome.bind_eq_ret.mp h
  cases hret
  exact ⟨vspaceCreate_ret hused hcreate, rfl⟩

/-- The first process of a machine whose memory is empty, from the bytes of its program. -/
def boot (elf : List UInt8) : Outcome (Proc × PhysMem) :=
  match loaderCreate (fun _ => 0) (fun _ => 0) (File.ofBytes elf) with
  | none => .fault
  | some ldr => procStart emptyMachine ⟨0⟩ ldr

/-- A program of four bytes of text at `0x400000`, that can be read and executed. -/
def textElf : List UInt8 := elfImage [⟨1, 5, 120, 0x400000, 4, 4⟩] [0x90, 0x90, 0x90, 0xc3]

/-- What `boot` returns was started from a loader. -/
theorem boot_ret {elf : List UInt8} {proc : Proc} {m : PhysMem} (h : boot elf = .ret (proc, m)) :
    ∃ ldr, loaderCreate (fun _ => 0) (fun _ => 0) (File.ofBytes elf) = some ldr ∧
      procStart emptyMachine ⟨0⟩ ldr = .ret (proc, m) := by
  rw [boot] at h
  split at h
  · cases h
  · rename_i ldr hldr
    exact ⟨ldr, hldr, h⟩

/-- The loader of the first process reads the bytes of its program. -/
theorem boot_file {elf : List UInt8} {proc : Proc} {m : PhysMem} (h : boot elf = .ret (proc, m)) :
    proc.loader.file = File.ofBytes elf := by
  obtain ⟨ldr, hldr, hstart⟩ := boot_ret h
  rw [(procStart_ret emptyMachine_kernel.used hstart).2, (loaderCreate_cases hldr).1]

theorem boot_bounded {elf : List UInt8} {proc : Proc} {m : PhysMem}
    (h : boot elf = .ret (proc, m)) : proc.loader.file.Bounded := by
  rw [boot_file h]
  exact File.ofBytes_bounded elf

end UlmerOS
