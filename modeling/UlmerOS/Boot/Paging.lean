import UlmerOS.Arch.VspaceMap

/-!
# The tables of the boot loader

`arch/x86_64/boot32/paging.c`.  `id_map` maps the pages of RAM in order.  It has an index
for each level, and after each page it moves on to the next page table, directory and
directory pointer table as their indices reach an end.

A pointer to a table is its frame number here.  `frames` are the frames that `alloc_page`
returns, one call after the other, and `next` is the number of calls made.  `alloc_page`
clears the frame.  `phys` is a `uint32_t`, and so is the shifted value it is turned into,
before it is stored as a 64 bit address.
-/

namespace UlmerOS.Boot

open ByteMem

/-- A result stored in a `uint32_t`. -/
def wrap32 (n : Nat) : Nat := n % 2 ^ 32

/-- `PAG_PRESENT`. -/
def pagPresent : Nat := 1 <<< 0

/-- `PAG_RDWR`. -/
def pagRdwr : Nat := 1 <<< 1

/-- `addr | PAG_PRESENT | PAG_RDWR`. -/
def pagEntry (addr : Nat) : Nat := addr ||| pagPresent ||| pagRdwr

/-- The memory, the calls of `alloc_page`, and the variables of `id_map`. -/
structure BootState where
  ram : Mem
  next : Nat
  pml4i : Nat
  pdpti : Nat
  pdiri : Nat
  ptbli : Nat
  phys : Nat
  pdpt : Nat
  pdir : Nat
  ptbl : Nat

/-- `((uint64_t*)(table << PAGE_SHIFT))[i] = value`. -/
def BootState.set (st : BootState) (table i value : Nat) : BootState :=
  { st with ram := store st.ram (pageSize * table + 8 * i) 8 value }

section

variable (frames : Nat → Nat) (pml4 : Nat)

/-- `alloc_page`, for its effects.  The frame it returns is `frames st.next`. -/
def BootState.allocPage (st : BootState) : BootState :=
  { st with
    ram := fill st.ram (pageSize * frames st.next) pageSize 0
    next := st.next + 1 }

/-- The page is entered in the table. -/
def mapPage (st : BootState) : BootState :=
  let physAddr := wrap32 (st.phys <<< pageShift)
  let st := { st with phys := wrap32 (st.phys + 1) }
  { st.set st.ptbl st.ptbli (pagEntry physAddr) with ptbli := st.ptbli + 1 }

/-- The next page table, entered in the directory. -/
def nextPtbl (st : BootState) : BootState :=
  let ppn := frames st.next
  let st := { st.allocPage frames with ptbli := 0, ptbl := ppn, pdiri := st.pdiri + 1 }
  st.set st.pdir st.pdiri (pagEntry (ppn <<< pageShift))

/-- The next directory, entered in the directory pointer table. -/
def nextPdir (st : BootState) : BootState :=
  let ppn := frames st.next
  let st := { st.allocPage frames with pdiri := 0, pdir := ppn, pdpti := st.pdpti + 1 }
  st.set st.pdpt st.pdpti (pagEntry (ppn <<< pageShift))

/-- The next directory pointer table, entered in the PML4. -/
def nextPdpt (st : BootState) : BootState :=
  let ppn := frames st.next
  let st := { st.allocPage frames with pdpti := 0, pdpt := ppn, pml4i := st.pml4i + 1 }
  st.set pml4 st.pml4i (pagEntry (ppn <<< pageShift))

/-- One round of the loop of `id_map`. -/
def idMapPage (st : BootState) : BootState :=
  let st := mapPage st
  let st := if 512 ≤ st.ptbli then nextPtbl frames st else st
  let st := if 511 ≤ st.pdiri then nextPdir frames st else st
  if 511 ≤ st.pdpti then nextPdpt frames pml4 st else st

/-- The loop of `id_map`. -/
def idMapPages : Nat → BootState → BootState
  | 0, st => st
  | pageCount + 1, st => idMapPages pageCount (idMapPage frames pml4 st)

/-- The first tables of `id_map`. -/
def idMapTables (st : BootState) : BootState :=
  let pdpt := frames st.next
  let st := { st.allocPage frames with pdpt := pdpt }
  let pdir := frames st.next
  let st := { st.allocPage frames with pdir := pdir }
  let ptbl := frames st.next
  let st := { st.allocPage frames with ptbl := ptbl }
  let st := st.set pml4 st.pml4i (pagEntry (pdpt <<< pageShift))
  let st := st.set pdpt st.pdpti (pagEntry (pdir <<< pageShift))
  st.set pdir st.pdiri (pagEntry (ptbl <<< pageShift))

/-- `id_map`. -/
def idMap (st : BootState) (pageCount : Nat) : BootState :=
  idMapPages frames pml4 pageCount
    (idMapTables frames pml4
      { st with pml4i := 0, pdpti := 0, pdiri := 0, ptbli := 0, phys := 0 })

end

/-- Before `paging_init`. -/
def bootState (ram : Mem) : BootState where
  ram := ram
  next := 0
  pml4i := 0
  pdpti := 0
  pdiri := 0
  ptbli := 0
  phys := 0
  pdpt := 0
  pdir := 0
  ptbl := 0

/-- `paging_init`: the frame of the PML4, and the state when paging is enabled. -/
def pagingInit (frames : Nat → Nat) (ram : Mem) (idmapPages : Nat) : Nat × BootState :=
  let st := (bootState ram).allocPage frames
  let pml4 := frames st.next
  let st := idMap frames pml4 (st.allocPage frames) idmapPages
  (pml4, st.set pml4 256 (load st.ram (pageSize * pml4) 8))

/-! ## Walking the tables -/

/-- The page that a path of indices leads to, and whether every entry on it is writable. -/
def translate (ram : Mem) : Nat → List (Fin 512) → Option (Nat × Bool)
  | f, [] => some (f, true)
  | f, i :: path =>
      if (tables ram f i).present then
        (translate ram (tables ram f i).ppn path).map fun r =>
          (r.1, r.2 && (tables ram f i).write)
      else none

/-- The first `n` pages are mapped to themselves, and those behind them are not mapped.  The
same holds in slot 256 of the PML4, for the pages that one slot has. -/
structure IdentityMapped (ram : Mem) (pml4 n : Nat) : Prop where
  low : ∀ p < 2 ^ 36, p / 2 ^ 27 ≠ 256 →
    translate ram pml4 (pagePath p) = if p < n then some (p, true) else none
  high : ∀ p < 2 ^ 27,
    translate ram pml4 (pagePath (2 ^ 35 + p)) = if p < n then some (p, true) else none

end UlmerOS.Boot
