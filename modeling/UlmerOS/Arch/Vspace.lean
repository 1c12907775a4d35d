import UlmerOS.Mm.Page
import UlmerOS.Lib.Radix
import Mathlib.Data.List.FinRange

/-!
# Address spaces

`arch/x86_64/x86_64/vspace.c`.  An address space is the frame of its PML4 table.
A table is a frame of 512 entries of eight bytes, and four levels of them lead
from a virtual page number to a frame.

Table frames are reached through the identity mapping at `IDENT_OFFSET`, so an
entry is read and written in the bytes of physical memory, and nothing but the
frame number keeps a table apart from the data of a page.  The lock of an address
space is not part of this model: its functions are run by one task at a time.
`vspace_create` and `vspace_delete` also take the `vspace_t` from the kernel heap
and give it back.  This is left out, and so are the frames that the kernel heap takes and
gives back with `kbrk`: those counted here are of page tables and of pages that are mapped.
-/

namespace UlmerOS

open ByteMem

/-- `IDENT_OFFSET`. -/
def identOffset : Nat := 0xffff800000000000

/-- `PG_USER`, `PG_WRITE` and `PG_NOEXEC` are bits of the flags. -/
def pgUser : Nat := 1 <<< 0
def pgWrite : Nat := 1 <<< 1
def pgNoexec : Nat := 1 <<< 2

/-- `ppn_to_virt`. -/
def ppnToVirt (ppn : Nat) : Nat := wrap64 (wrap64 (ppn <<< pageShift) + identOffset)

/-! ## Entries -/

/-- `gpte_t`.  The nine bits from `write_through` to `available` are one field. -/
structure Gpte where
  present : Bool
  write : Bool
  user : Bool
  low : Fin 512
  ppn : Fin (2 ^ 40)
  available2 : Fin 2048
  noExec : Bool
deriving DecidableEq, Repr

/-! The fields of an entry are not empty, so a number can be cut to each of them. -/

instance low_neZero : NeZero 512 := ⟨by decide⟩

instance ppn_neZero : NeZero (2 ^ 40) := ⟨by decide⟩

instance available2_neZero : NeZero 2048 := ⟨by decide⟩

namespace Gpte

/-- The entry as a word. -/
def encode (e : Gpte) : Nat :=
  e.present.toNat + 2 * e.write.toNat + 4 * e.user.toNat + 8 * e.low + 2 ^ 12 * e.ppn
    + 2 ^ 52 * e.available2 + 2 ^ 63 * e.noExec.toNat

/-- The entry that a word is. -/
def decode (w : Nat) : Gpte where
  present := decide (w % 2 = 1)
  write := decide (w / 2 % 2 = 1)
  user := decide (w / 4 % 2 = 1)
  low := Fin.ofNat 512 (w / 8)
  ppn := Fin.ofNat (2 ^ 40) (w / 2 ^ 12)
  available2 := Fin.ofNat 2048 (w / 2 ^ 52)
  noExec := decide (w / 2 ^ 63 % 2 = 1)

theorem encode_lt (e : Gpte) : e.encode < 256 ^ 8 := by
  obtain ⟨p, w, u, low, ppn, av, nx⟩ := e
  have h1 := low.isLt
  have h2 := ppn.isLt
  have h3 := av.isLt
  have hb : ∀ b : Bool, b.toNat ≤ 1 := fun b => by cases b <;> decide
  have := hb p
  have := hb w
  have := hb u
  have := hb nx
  simp only [encode]
  omega

theorem bit_decode {b : Bool} {n : Nat} (h : n % 2 = b.toNat) : decide (n % 2 = 1) = b := by
  rw [h]
  cases b <;> rfl

theorem decode_encode (e : Gpte) : decode e.encode = e := by
  obtain ⟨p, w, u, low, ppn, av, nx⟩ := e
  have h1 := low.isLt
  have h2 := ppn.isLt
  have h3 := av.isLt
  have hb : ∀ b : Bool, b.toNat ≤ 1 := fun b => by cases b <;> decide
  have hp := hb p
  have hw := hb w
  have hu := hb u
  have hn := hb nx
  simp only [decode, encode, mk.injEq, Fin.ext_iff, Fin.val_ofNat]
  refine ⟨bit_decode ?_, bit_decode ?_, bit_decode ?_, ?_, ?_, ?_, bit_decode ?_⟩ <;> omega

end Gpte

/-- The entry of a word that was cleared. -/
def noGpte : Gpte := Gpte.decode 0

/-- The frame an entry points to, if it is present. -/
def Gpte.child (e : Gpte) : Option Nat := if e.present then some e.ppn else none

@[simp] theorem noGpte_child : noGpte.child = none := rfl

/-- The entries of the table in a frame. -/
@[irreducible] def tables (ram : Mem) (ppn : Nat) (i : Fin 512) : Gpte :=
  Gpte.decode (load ram (pageSize * ppn + 8 * i) 8)

/-- A `gpte_t*`: a table frame and an index into it. -/
structure GptePtr where
  ppn : Nat
  index : Fin 512
deriving DecidableEq, Repr

/-- The entry a pointer points to. -/
def GptePtr.read (ptr : GptePtr) (ram : Mem) : Gpte := tables ram ptr.ppn ptr.index

/-- Write an entry. -/
def GptePtr.write (ptr : GptePtr) (ram : Mem) (e : Gpte) : Mem :=
  store ram (pageSize * ptr.ppn + 8 * ptr.index) 8 e.encode

/-- Change the fields of an entry. -/
def GptePtr.modify (ptr : GptePtr) (f : Gpte → Gpte) (m : PhysMem) : PhysMem :=
  { m with ram := ptr.write m.ram (f (ptr.read m.ram)) }

@[simp] theorem modify_ram (ptr : GptePtr) (f : Gpte → Gpte) (m : PhysMem) :
    (ptr.modify f m).ram = ptr.write m.ram (f (ptr.read m.ram)) := rfl

/-! ## Resolving a mapping -/

/-- `vaddr_t`.  A pointer that is `none` is `NULL`; `page` is an address. -/
structure Vaddr where
  pml4Ppn : Nat
  pdptPpn : Nat
  pdirPpn : Nat
  ptblPpn : Nat
  pagePpn : Nat
  pml4i : Fin 512
  pdpti : Fin 512
  pdiri : Fin 512
  ptbli : Fin 512
  pml4e : Option GptePtr
  pdpte : Option GptePtr
  pdire : Option GptePtr
  ptble : Option GptePtr
  page : Nat
deriving DecidableEq, Repr

/-- `vspace_t`. -/
structure Vspace where
  pml4Ppn : Nat
deriving DecidableEq, Repr

/-- `(virt >> shift) & 0x1ff`. -/
@[irreducible] def tableIndex (virt shift : Nat) : Fin 512 := Fin.ofNat 512 (virt >>> shift)

/-- `resolve_mapping`. -/
def resolveMapping (ram : Mem) (vspace : Vspace) (virt : Nat) : Vaddr :=
  let ptbli := tableIndex virt 0
  let pdiri := tableIndex virt 9
  let pdpti := tableIndex virt 18
  let pml4i := tableIndex virt 27
  let pml4e : GptePtr := ⟨vspace.pml4Ppn, pml4i⟩
  let vaddr : Vaddr :=
    { pml4Ppn := vspace.pml4Ppn, pdptPpn := 0, pdirPpn := 0, ptblPpn := 0, pagePpn := 0,
      pml4i := pml4i, pdpti := pdpti, pdiri := pdiri, ptbli := ptbli,
      pml4e := some pml4e, pdpte := none, pdire := none, ptble := none, page := 0 }
  if (pml4e.read ram).present then
    let pdptPpn : Nat := (pml4e.read ram).ppn
    let pdpte : GptePtr := ⟨pdptPpn, pdpti⟩
    let vaddr := { vaddr with pdptPpn := pdptPpn, pdpte := some pdpte }
    if (pdpte.read ram).present then
      let pdirPpn : Nat := (pdpte.read ram).ppn
      let pdire : GptePtr := ⟨pdirPpn, pdiri⟩
      let vaddr := { vaddr with pdirPpn := pdirPpn, pdire := some pdire }
      if (pdire.read ram).present then
        let ptblPpn : Nat := (pdire.read ram).ppn
        let ptble : GptePtr := ⟨ptblPpn, ptbli⟩
        let vaddr := { vaddr with ptblPpn := ptblPpn, ptble := some ptble }
        if (ptble.read ram).present then
          let pagePpn : Nat := (ptble.read ram).ppn
          { vaddr with pagePpn := pagePpn, page := ppnToVirt pagePpn }
        else vaddr
      else vaddr
    else vaddr
  else vaddr

/-! ## Mapping and unmapping -/

/-- One of the three blocks of `vspace_map` that add a missing table: `entry` is
the entry of `vaddr` that should point to it. -/
def ensureTable (vspace : Vspace) (virt : Nat) (entry : Vaddr → Option GptePtr)
    (m : PhysMem) (vaddr : Vaddr) : Outcome (PhysMem × Vaddr) :=
  match entry vaddr with
  | none => .fault
  | some ptr =>
      if (ptr.read m.ram).present then .ret (m, vaddr)
      else do
        let m := ptr.modify (fun e => { e with present := true, write := true, user := true }) m
        let (ppn, m) ← allocPage m
        let m := ptr.modify (fun e => { e with ppn := Fin.ofNat (2 ^ 40) ppn }) m
        .ret (m, resolveMapping m.ram vspace virt)

/-- The last block of `vspace_map`: an entry that is present is left alone. -/
def mapEntry (ptble : Option GptePtr) (phys flags : Nat) (m : PhysMem) : Outcome PhysMem :=
  match ptble with
  | none => .fault
  | some ptr =>
      if (ptr.read m.ram).present then .ret m
      else .ret (ptr.modify (fun e =>
        { e with
          present := true
          noExec := decide (flags &&& pgNoexec ≠ 0)
          write := decide (flags &&& pgWrite ≠ 0)
          user := decide (flags &&& pgUser ≠ 0)
          ppn := Fin.ofNat (2 ^ 40) phys }) m)

/-- `vspace_map`. -/
def vspaceMap (m : PhysMem) (vspace : Vspace) (virt phys flags : Nat) : Outcome PhysMem := do
  let vaddr := resolveMapping m.ram vspace virt
  let (m, vaddr) ← ensureTable vspace virt Vaddr.pml4e m vaddr
  let (m, vaddr) ← ensureTable vspace virt Vaddr.pdpte m vaddr
  let (m, vaddr) ← ensureTable vspace virt Vaddr.pdire m vaddr
  mapEntry vaddr.ptble phys flags m

/-- `vspace_unmap`. -/
def vspaceUnmap (m : PhysMem) (vspace : Vspace) (virt : Nat) : Bool × PhysMem :=
  let vaddr := resolveMapping m.ram vspace virt
  if vaddr.page ≠ 0 then
    match vaddr.ptble with
    | none => (false, m) -- a page that is not NULL was found in a page table
    | some ptr =>
        let m := { m with ram := store m.ram (pageSize * ptr.ppn + 8 * ptr.index) 8 0 }
        (true, freePage m vaddr.pagePpn)
  else (false, m)

/-! ## Making and deleting an address space -/

/-- `vspace_update_kernel_mapping`. -/
def vspaceUpdateKernelMapping (m : PhysMem) (kernel vspace : Vspace) : PhysMem :=
  let dst := pageSize * vspace.pml4Ppn + pageSize / 2
  let src := pageSize * kernel.pml4Ppn + pageSize / 2
  { m with ram := copy m.ram dst src (pageSize / 2) }

/-- `vspace_create`, without `kmalloc(sizeof(vspace_t))`. -/
def vspaceCreate (m : PhysMem) (kernel : Vspace) : Outcome (Vspace × PhysMem) := do
  let (ppn, m) ← allocPage m
  let vspace : Vspace := ⟨ppn⟩
  .ret (vspace, vspaceUpdateKernelMapping m kernel vspace)

/-- One of the nested loops of `vspace_delete`: `body` is run on the frame of each
present entry, for the indices below `count`. -/
def forPresent (count : Nat) (table : Nat) (body : PhysMem → Nat → PhysMem) (m : PhysMem) :
    PhysMem :=
  ((List.finRange 512).take count).foldl
    (fun m i => if (tables m.ram table i).present then body m (tables m.ram table i).ppn else m) m

/-- The loop over a page table, and the release of the table. -/
def deletePtbl (m : PhysMem) (ptblPpn : Nat) : PhysMem :=
  freePage (forPresent 512 ptblPpn freePage m) ptblPpn

/-- The loop over a page directory, and the release of the directory. -/
def deletePdir (m : PhysMem) (pdirPpn : Nat) : PhysMem :=
  freePage (forPresent 512 pdirPpn deletePtbl m) pdirPpn

/-- The loop over a page directory pointer table, and its release. -/
def deletePdpt (m : PhysMem) (pdptPpn : Nat) : PhysMem :=
  freePage (forPresent 512 pdptPpn deletePdir m) pdptPpn

/-- `vspace_delete`, without `kfree(vspace)`.  The address space is marked so that it is deleted
once. -/
def vspaceDelete (m : PhysMem) (vspace : Vspace) : Vspace × PhysMem :=
  if vspace.pml4Ppn = minusOne then (vspace, m)
  else (⟨minusOne⟩, freePage (forPresent 256 vspace.pml4Ppn deletePdpt m) vspace.pml4Ppn)

/-! ## Entries in memory -/

/-- A word stored at an entry is that entry, and no other changes. -/
theorem tables_store (ram : Mem) (p : Nat) (j : Fin 512) {w : Nat} (hw : w < 256 ^ 8) (f : Nat)
    (i : Fin 512) :
    tables (store ram (pageSize * p + 8 * j) 8 w) f i =
      if f = p ∧ i = j then Gpte.decode w else tables ram f i := by
  have hi := i.isLt
  have hj := j.isLt
  simp only [tables, pageSize]
  split
  · rename_i h
    obtain ⟨rfl, rfl⟩ := h
    rw [load_store hw]
  · rename_i h
    rw [load_store_of_disjoint]
    by_cases hf : f = p
    · have hne : i.val ≠ j.val := fun hij => h ⟨hf, Fin.ext hij⟩
      subst hf
      omega
    · omega

/-- A write changes the entry written and no other. -/
theorem tables_write (ptr : GptePtr) (ram : Mem) (e : Gpte) (f : Nat) (i : Fin 512) :
    tables (ptr.write ram e) f i =
      if f = ptr.ppn ∧ i = ptr.index then e else tables ram f i := by
  rw [GptePtr.write, tables_store ram ptr.ppn ptr.index (Gpte.encode_lt e), Gpte.decode_encode]

/-- A frame that is zeroed is an empty table, and no other frame changes. -/
theorem tables_fill (ram : Mem) (p f : Nat) (i : Fin 512) :
    tables (fill ram (pageSize * p) pageSize 0) f i = if f = p then noGpte else tables ram f i := by
  have hi := i.isLt
  simp only [tables, pageSize]
  split
  · rename_i h
    subst h
    rw [load_zero, noGpte]
    intro x h1 h2
    exact fill_of_mem (by omega) (by omega)
  · rename_i h
    rw [load_congr]
    intro x h1 h2
    exact fill_of_not_mem (by omega)

end UlmerOS
