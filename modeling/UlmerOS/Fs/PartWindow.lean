import UlmerOS.Fs.RamdiskBounds

/-!
# The window of a partition

`ps_read` and `ps_write` of `fs/partscan.c` over any device.  Both are a call of `readblk` of
the device, with `blk_offset` added to the block number.  `blk_size` is kept in `part_t`, and
neither of them reads it.

A device is a parameter here.  It has a state, and what is relied on is that it stores and
returns blocks.  A ramdisk does, within its bounds.
-/

namespace UlmerOS

open ByteMem
open BlockDev (Ramdisk BdData Bd readblk hasTable partType lbaStart lbaSize partBd partsOf)

/-! ## Partitions -/

/-- `part_t`, as far as transfers go.  Both fields are copied from 32 bits. -/
structure Part where
  blkOffset : Nat
  blkSize : Nat
  blkOffset_lt : blkOffset < 2 ^ 32
  blkSize_lt : blkSize < 2 ^ 32

/-- The partition of an entry of the table. -/
def Part.ofEntry (mbr : Mem) (i : Nat) : Part where
  blkOffset := lbaStart mbr i
  blkSize := lbaSize mbr i
  blkOffset_lt := load_lt mbr _ 4
  blkSize_lt := load_lt mbr _ 4

/-- The partitions that `partscan` makes, from what it read of block 0. -/
def partscanParts : Option Mem → List Part
  | none => []
  | some mbr =>
      if hasTable mbr then
        ([0, 1, 2, 3].filter fun i => partType mbr i ≠ 0).map (Part.ofEntry mbr)
      else []

/-- They are those of the devices that are registered. -/
theorem partsOf_parts (bd : Bd) :
    (partsOf bd).map (fun p => (p.data, p.capacity)) =
      (partscanParts (readblk bd.data 0)).map fun p =>
        (BdData.part bd.data p.blkOffset, p.blkSize) := by
  rw [partsOf]
  cases readblk bd.data 0 with
  | none => rfl
  | some mbr =>
      simp only [partscanParts]
      split
      next => simp only [List.map_map]; rfl
      next => rfl

/-- A call of the operations of a device. -/
inductive BdCall where
  | readblk (count lba : Nat)
  | writeblk (count lba : Nat)

/-- The blocks that a call accesses. -/
def BdCall.Accesses : BdCall → Nat → Prop
  | .readblk count lba, x => lba ≤ x ∧ x < lba + count
  | .writeblk count lba, x => lba ≤ x ∧ x < lba + count

/-- The call on a device. -/
def BdCall.run {σ : Type} (ops : BdDriverOps σ) (s : σ) (buffer : Mem) : BdCall → BdResult σ
  | .readblk count lba => ops.readblk s buffer count lba
  | .writeblk count lba => ops.writeblk s buffer count lba

namespace Part

variable (part : Part)

/-- What `ps_read` calls. -/
def psReadCall (count lba : Nat) : BdCall := .readblk count (wrap64 (lba + part.blkOffset))

/-- What `ps_write` calls.  It is `readblk` too. -/
def psWriteCall (count lba : Nat) : BdCall := .readblk count (wrap64 (lba + part.blkOffset))

/-- `ps_read`. -/
def psRead {σ : Type} (ops : BdDriverOps σ) (s : σ) (buffer : Mem) (count lba : Nat) :
    BdResult σ :=
  (part.psReadCall count lba).run ops s buffer

/-- `ps_write`. -/
def psWrite {σ : Type} (ops : BdDriverOps σ) (s : σ) (buffer : Mem) (count lba : Nat) :
    BdResult σ :=
  (part.psWriteCall count lba).run ops s buffer

/-- Over a ramdisk, this is the read that leaves the ramdisk as it is. -/
theorem psRead_initrd (rd : Ramdisk) (hsize : rd.size < word) (buffer : Mem) (count lba : Nat) :
    (part.psRead (initrdDriver rd) rd.bytes buffer count lba).buffer =
      (UlmerOS.psRead (.ramdisk rd hsize) part.blkOffset buffer count lba).buffer := rfl

/-- The blocks of a partition on its device. -/
def Window (x : Nat) : Prop := part.blkOffset ≤ x ∧ x < part.blkOffset + part.blkSize

/-- Transfers access blocks of the partition only, and what was written is read. -/
structure Confined {σ : Type} (ops : BdDriverOps σ) (capacity : Nat) (s : σ) (data : Mem)
    (count lba : Nat) : Prop where
  read : ∀ x, (part.psReadCall count lba).Accesses x → part.Window x
  write : ∀ x, (part.psWriteCall count lba).Accesses x → part.Window x
  roundTrip : lba + count ≤ part.blkSize → part.blkOffset + (lba + count) ≤ capacity →
    ∀ buffer : Mem, ∀ i < count * 512,
      (part.psRead ops (part.psWrite ops s data count lba).device buffer count lba).buffer i =
        data i

/-- The device already holds what is written. -/
def Holds (bytes data : Mem) (count lba : Nat) : Prop :=
  ∀ i < count * 512, bytes ((lba + part.blkOffset) * 512 + i) = data i

variable {part}

/-- The calls stay in the window exactly if no blocks are asked for or all lie in it.  A sum
that wraps is one of a block before the partition. -/
theorem accesses_window_iff {count lba : Nat} (hlba : lba < word) :
    (∀ x, (part.psReadCall count lba).Accesses x → part.Window x) ↔
      count = 0 ∨ lba + count ≤ part.blkSize := by
  have hoffset := part.blkOffset_lt
  have hsize := part.blkSize_lt
  constructor
  · intro h
    rcases Nat.eq_zero_or_pos count with hzero | hpos
    · exact .inl hzero
    · have hfirst := h (wrap64 (lba + part.blkOffset)) ⟨Nat.le_refl _, by omega⟩
      have hlast := h (wrap64 (lba + part.blkOffset) + (count - 1))
        ⟨Nat.le_add_right _ _, by omega⟩
      simp only [Window, wrap64, word] at *
      omega
  · rintro (rfl | hspan) x ⟨hle, hlt⟩
    · omega
    · rw [wrap64_of_lt (by simp only [word]; omega)] at hle hlt
      exact ⟨by omega, by omega⟩

/-- What is read after a write is what the device held before. -/
theorem psRead_psWrite {σ : Type} {ops : BdDriverOps σ} {contents : σ → Mem} {capacity : Nat}
    (hops : StoresBlocks ops contents capacity) (s : σ) (data buffer : Mem) {count lba : Nat}
    (hspan : lba + count ≤ part.blkSize) (hcapacity : part.blkOffset + (lba + count) ≤ capacity)
    {i : Nat} (hi : i < count * 512) :
    (part.psRead ops (part.psWrite ops s data count lba).device buffer count lba).buffer i =
      contents s ((lba + part.blkOffset) * 512 + i) := by
  have hoffset := part.blkOffset_lt
  have hsize := part.blkSize_lt
  have hwrap : wrap64 (lba + part.blkOffset) = lba + part.blkOffset :=
    wrap64_of_lt (by simp only [word]; omega)
  have hrange : lba + part.blkOffset + count ≤ capacity := by omega
  have hread := hops.readReturns (part.psWrite ops s data count lba).device buffer count _ hrange
    i hi
  have hkept := hops.readKeeps s data count _ hrange
  simp only [psRead, psReadCall, psWrite, psWriteCall, BdCall.run, hwrap] at hread ⊢
  rw [hread, hkept]

end Part

/-- **The window of a partition.**  Both transfers keep to the partition and what was written
is read, exactly if no blocks are asked for, or they lie in the partition and the device
already holds what is written. -/
theorem ps_confined_iff {σ : Type} {ops : BdDriverOps σ} {contents : σ → Mem} {capacity : Nat}
    (hops : StoresBlocks ops contents capacity) (part : Part) (s : σ) (data : Mem)
    {count lba : Nat} (hlba : lba < word) :
    part.Confined ops capacity s data count lba ↔
      count = 0 ∨ (lba + count ≤ part.blkSize ∧
        (part.blkOffset + (lba + count) ≤ capacity → part.Holds (contents s) data count lba)) := by
  constructor
  · intro h
    refine ((Part.accesses_window_iff hlba).mp h.read).imp_right fun hspan => ⟨hspan, ?_⟩
    intro hcapacity i hi
    exact (Part.psRead_psWrite hops s data data hspan hcapacity hi).symm.trans
      (h.roundTrip hspan hcapacity data i hi)
  · intro h
    have hwindow := (Part.accesses_window_iff hlba).mpr (h.imp_right And.left)
    refine ⟨hwindow, hwindow, fun hspan hcapacity buffer i hi => ?_⟩
    rcases h with rfl | ⟨-, hholds⟩
    · omega
    · rw [Part.psRead_psWrite hops s data buffer hspan hcapacity hi]
      exact hholds hcapacity i hi

/-- Two blocks of a partition on a ramdisk of zeros, written with zeros. -/
theorem ps_confined_zeros :
    Part.Confined ⟨1, 2, by decide, by decide⟩ (initrdDriver ⟨fun _ => 0, 2048, []⟩) 4
      (fun _ => 0) (fun _ => 0) 2 0 :=
  (ps_confined_iff (initrd_stores ⟨fun _ => 0, 2048, []⟩ (by decide))
    ⟨1, 2, by decide, by decide⟩ _ _ (by decide)).mpr
    (.inr ⟨by decide, fun _ _ _ => rfl⟩)

/-- The first block of a ramdisk of four, with a partition of the two in the middle. -/
def partitioned : Mem := fun x =>
  if x = 450 then 0x83 else if x = 454 then 1 else if x = 458 then 2
  else if x = 510 then 0x55 else if x = 511 then 0xAA else 0

/-- A block of sevens is written to the partition, and zeros are read. -/
theorem ps_write_reads : ¬ ∀ (σ : Type) (ops : BdDriverOps σ) (contents : σ → Mem)
    (capacity : Nat), StoresBlocks ops contents capacity →
    ∀ mbr, ∀ part ∈ partscanParts mbr, ∀ (s : σ) (data : Mem), ∀ count < word, ∀ lba < word,
      part.Confined ops capacity s data count lba := by
  intro h
  have hpart : Part.ofEntry partitioned 0 ∈ partscanParts (some partitioned) :=
    List.mem_map_of_mem (by decide)
  have hconfined := h Mem _ _ _ (initrd_stores ⟨partitioned, 2048, []⟩ (by decide)) _ _ hpart
    partitioned (fun _ => 7) 1 (by decide) 0 (by decide)
  exact absurd (hconfined.roundTrip (by decide) (by decide) (fun _ => 0) 0 (by decide))
    (by decide)

end UlmerOS
