import UlmerOS.Arch.VspaceMap

/-!
# The kernel heap

`kernel/mm/heap.c`.  Blocks of memory from `KHEAP_START` up to `kheap_break_`, each
with a header of packed fields in front of its payload.  The headers are linked in
both directions, and `kbrk` moves the break and maps or unmaps the pages it passes.

`mem` is the virtual memory that the heap lives in.  A page that `kbrk` maps is a
frame of zeros if the page was not mapped before, and what was in a page that it
unmaps is lost.  The debug build has two more fields in a header, the place of the
allocation, so that the model is over `debug`.  Both builds have the same
functions.

The lock of the heap is left out: one call runs at a time.
-/

namespace UlmerOS

open ByteMem

/-- `KHEAP_START`. -/
def kheapStart : Nat := 0xffffe00000000000

/-- `HEAP_MAGIC`. -/
def heapMagic : Nat := 0xabcdefab

/-- `HEADER_SIZE`, the size of the packed `hblock_t`. -/
def headerSize (debug : Bool) : Nat := if debug then 44 else 32

/-- The message of every check of the heap. -/
def heapCorruption : String := "kheap: heap corruption detected"

/-- The heap and the memory under it. -/
structure Heap where
  mem : Mem
  /-- `kheap_break_` -/
  brk : Nat
  /-- `heap_start` -/
  start : Nat
  /-- `heap_last` -/
  last : Nat
  phys : PhysMem

namespace Heap

variable (debug : Bool)

/-! ## Fields of a header -/

def available (h : Heap) (b : Nat) : Nat := load h.mem b 4
def magic (h : Heap) (b : Nat) : Nat := load h.mem (b + 4) 4
def prev (h : Heap) (b : Nat) : Nat := load h.mem (b + 8) 8
def next (h : Heap) (b : Nat) : Nat := load h.mem (b + 16) 8
def size (h : Heap) (b : Nat) : Nat := load h.mem (b + (headerSize debug - 8)) 8

def setAvailable (h : Heap) (b v : Nat) : Heap := { h with mem := store h.mem b 4 v }
def setMagic (h : Heap) (b v : Nat) : Heap := { h with mem := store h.mem (b + 4) 4 v }
def setPrev (h : Heap) (b v : Nat) : Heap := { h with mem := store h.mem (b + 8) 8 v }
def setNext (h : Heap) (b v : Nat) : Heap := { h with mem := store h.mem (b + 16) 8 v }
def setSize (h : Heap) (b v : Nat) : Heap :=
  { h with mem := store h.mem (b + (headerSize debug - 8)) 8 v }

/-- `function` and `line`, which only the debug build has. -/
def setOrigin (h : Heap) (b function line : Nat) : Heap :=
  if debug then { h with mem := store (store h.mem (b + 24) 8 function) (b + 32) 4 line } else h

/-! ## The break -/

/-- The loop of `kbrk` that maps `n` pages. -/
def mapPages (kernel : Vspace) : Nat → Nat → Heap → Outcome Heap
  | _, 0, h => .ret h
  | page, n + 1, h => do
      let (ppn, phys) ← allocPage h.phys
      let fresh := translation phys kernel page = none
      let phys ← vspaceMap phys kernel page ppn (pgNoexec ||| pgWrite)
      let mem := if fresh then fill h.mem (pageSize * page) pageSize 0 else h.mem
      mapPages kernel (page + 1) n { h with phys := phys, mem := mem }

/-- The loop of `kbrk` that unmaps `n` pages. -/
def unmapPages (kernel : Vspace) : Nat → Nat → Heap → Heap
  | _, 0, h => h
  | page, n + 1, h =>
      let (ret, phys) := vspaceUnmap h.phys kernel page
      let mem := if ret then fill h.mem (pageSize * page) pageSize 0 else h.mem
      unmapPages kernel (page + 1) n { h with phys := phys, mem := mem }

/-- `kbrk`.  The increment is a `size_t`, so that a negative one is large. -/
def kbrk (kernel : Vspace) (h : Heap) (increment : Nat) : Outcome (Nat × Heap) :=
  let origBrk := h.brk
  let h := { h with brk := wrap64 (h.brk + increment) }
  if origBrk > h.brk then
    let firstUnmap := if h.brk % pageSize ≠ 0 then h.brk / pageSize + 1 else h.brk / pageSize
    let lastUnmap := origBrk / pageSize
    .ret (origBrk, unmapPages kernel firstUnmap (lastUnmap + 1 - firstUnmap) h)
  else do
    let firstMap := if origBrk % pageSize ≠ 0 then origBrk / pageSize + 1 else origBrk / pageSize
    let lastMap := h.brk / pageSize
    let h ← mapPages kernel firstMap (lastMap + 1 - firstMap) h
    .ret (origBrk, h)

/-! ## Allocation -/

/-- `crop`.  With a size below that of a header the new header overlaps the old one, so
that `block->next` is read again for every field. -/
def crop (h : Heap) (block newSize : Nat) : Heap :=
  let excessSize := wrap64 (h.size debug block + (word - newSize))
  if excessSize ≤ headerSize debug then h
  else
    let originalNext := h.next block
    let h := (h.setSize debug block newSize).setNext block (wrap64 (block + newSize))
    let h := h.setAvailable (h.next block) 1
    let h := h.setMagic (h.next block) heapMagic
    let h := h.setPrev (h.next block) block
    let h := h.setNext (h.next block) originalNext
    let h := h.setSize debug (h.next block) excessSize
    if h.next (h.next block) ≠ 0 then h.setPrev (h.next (h.next block)) (h.next block)
    else { h with last := h.next block }

/-- The loop of `_kmalloc`: the first block that is available and large enough. -/
def findFit (h : Heap) (requiredSize : Nat) : Nat → Nat → Outcome (Option Nat)
  | 0, _ => .hang
  | fuel + 1, entry =>
      if entry = 0 then .ret none
      else if h.magic entry ≠ heapMagic then .panic heapCorruption
      else if h.available entry ≠ 0 ∧ h.size debug entry ≥ requiredSize then .ret (some entry)
      else findFit h requiredSize fuel (h.next entry)

/-- The end of `_kmalloc`: the header of a new block, linked behind the last one. -/
def appendBlock (h : Heap) (blk requiredSize function line : Nat) : Heap :=
  let h := (((h.setAvailable blk 0).setMagic blk heapMagic).setNext blk 0).setPrev blk h.last
  let h := (h.setSize debug blk requiredSize).setOrigin debug blk function line
  let h := if h.last ≠ 0 then h.setNext h.last blk else h
  let h := { h with last := blk }
  if h.start = 0 then { h with start := blk } else h

/-- `_kmalloc`.  The list can have no more blocks than there are addresses. -/
def kmalloc (kernel : Vspace) (h : Heap) (size function line : Nat) : Outcome (Nat × Heap) := do
  let requiredSize := wrap64 (headerSize debug + size)
  match ← h.findFit debug requiredSize word h.start with
  | some entry =>
      let h := (h.setAvailable entry 0).setOrigin debug entry function line
      .ret (wrap64 (entry + headerSize debug), h.crop debug entry requiredSize)
  | none =>
      let (blk, h) ← h.kbrk kernel requiredSize
      if blk = minusOne then .ret (0, h)
      else
        let h := h.appendBlock debug blk requiredSize function line
        .ret (wrap64 (blk + headerSize debug), h)

/-! ## Release -/

/-- `merge_blocks`. -/
def mergeBlocks (h : Heap) (first second : Nat) : Outcome Heap :=
  if h.magic first ≠ heapMagic ∨ h.magic second ≠ heapMagic then .panic heapCorruption
  else
    let h := h.setSize debug first (wrap64 (h.size debug first + h.size debug second))
    let h := h.setNext first (h.next second)
    let h := if h.next second ≠ 0 then h.setPrev (h.next second) first else { h with last := first }
    .ret (h.setMagic second 0)

/-- The first merge of `kfree`: with the block behind, if it is available. -/
def mergeNext (h : Heap) (tofree : Nat) : Outcome Heap :=
  if h.next tofree ≠ 0 ∧ h.available (h.next tofree) ≠ 0 then
    h.mergeBlocks debug tofree (h.next tofree)
  else .ret h

/-- The second merge of `kfree`: with the block in front, if it is available. -/
def mergePrev (h : Heap) (tofree : Nat) : Outcome Heap :=
  if h.prev tofree ≠ 0 ∧ h.available (h.prev tofree) ≠ 0 then
    h.mergeBlocks debug (h.prev tofree) tofree
  else .ret h

/-- The last block is taken off the list. -/
def unlinkLast (h : Heap) : Heap :=
  if h.prev h.last ≠ 0 then
    let h := h.setNext (h.prev h.last) 0
    { h with last := h.prev h.last }
  else { h with start := 0, last := 0 }

/-- The loop of `kfree` that gives the available blocks at the end back. -/
def releaseTail (kernel : Vspace) : Nat → Heap → Outcome Heap
  | 0, _ => .hang
  | fuel + 1, h =>
      if h.last ≠ 0 ∧ h.available h.last ≠ 0 then do
        let h := h.setMagic h.last 0
        let decrement := h.size debug h.last
        let (_, h) ← h.unlinkLast.kbrk kernel (wrap64 (word - decrement))
        releaseTail kernel fuel h
      else .ret h

/-- `kfree`. -/
def kfree (kernel : Vspace) (h : Heap) (ptr : Nat) : Outcome Heap :=
  if ptr = 0 then .ret h
  else if h.last = 0 ∨ h.start = 0 ∨ ptr < h.start ∨ ptr > wrap64 (h.last + headerSize debug) then
    .panic heapCorruption
  else
    let tofree := wrap64 (ptr + (word - headerSize debug))
    if h.magic tofree ≠ heapMagic ∨ h.available tofree ≠ 0 then .panic heapCorruption
    else do
      let h := h.setAvailable tofree 1
      let h ← h.mergeNext debug tofree
      let h ← h.mergePrev debug tofree
      h.releaseTail debug kernel word

end Heap

end UlmerOS
