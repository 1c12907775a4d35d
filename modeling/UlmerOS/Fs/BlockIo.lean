import UlmerOS.Fs.Fd
import UlmerOS.Fs.BlockDev

/-!
# Reads and writes of the block devices

`initrd_read` and `initrd_write` of `fs/ramdisk.c`, `ata_read` and `ata_write` of
`drivers/pc/ata.c`, and `ps_read` and `ps_write` of `fs/partscan.c`, with all they do to the
buffer.  A partition passes a call on to the disk it lies on, and `ps_write` passes it on as
a read.

`initrd_read` cuts a read off at the end of the disk.  A read that starts behind the end is
not cut off.  The difference is negative then, and almost all of memory is copied.
-/

namespace UlmerOS

open ByteMem
open BlockDev (Ramdisk)

/-! ## The drivers -/

/-- The count that is left at the end of a ramdisk. -/
def initrdCount (rd : Ramdisk) (count lba : Nat) : Nat :=
  if rd.blocks < wrap64 (lba + count) then wrap64 (rd.blocks + word - lba) else count

/-- `initrd_read`. -/
def initrdRead (rd : Ramdisk) (buffer : Mem) (count lba : Nat) : DriverRead :=
  let n := wrap64 (initrdCount rd count lba * 512)
  ⟨toSsize n, fun i => if i < n then rd.bytes (wrap64 (lba * 512 + i)) else buffer i, n⟩

/-- `initrd_write`.  What becomes of the ramdisk is left out. -/
def initrdWrite (rd : Ramdisk) (_ : Mem) (count lba : Nat) : DriverWrite :=
  let n := wrap64 (initrdCount rd count lba * 512)
  ⟨toSsize n, n⟩

/-- `BLOCKS_PER_PRD`. -/
def blocksPerPrd : Nat := 64 * 1024 / 512 - 1

/-- The loop of `ata_read`.  `transfer` is what the DMA buffer holds after a number of blocks
was read, or `none` if the status says that it failed. -/
def ataReadLoop (transfer : Nat → Nat → Option Mem) (lba : Nat) (buffer : Mem)
    (blocksRead blocksRemaining : Nat) : DriverRead :=
  if blocksRemaining = 0 then ⟨toSsize blocksRead, buffer, blocksRead * 512⟩
  else
    let trSize := min blocksRemaining blocksPerPrd
    match transfer (wrap64 (lba + blocksRead)) trSize with
    | none => ⟨toSsize blocksRead, buffer, blocksRead * 512⟩
    | some data =>
        let start := blocksRead * 512
        let buffer := fun i =>
          if start ≤ i ∧ i < start + trSize * 512 then data (i - start) else buffer i
        ataReadLoop transfer lba buffer (blocksRead + trSize) (blocksRemaining - trSize)
termination_by blocksRemaining
decreasing_by
  have : 0 < blocksPerPrd := by decide
  omega

/-- `ata_read`. -/
def ataRead (transfer : Nat → Nat → Option Mem) (buffer : Mem) (count lba : Nat) : DriverRead :=
  ataReadLoop transfer lba buffer 0 count

/-- `ata_write`. -/
def ataWrite (_ : Mem) (_ _ : Nat) : DriverWrite := ⟨-enosys, 0⟩

/-- A disk, with what its driver keeps.  `ramdisk_size` is a `size_t`. -/
inductive Disk where
  | ramdisk (rd : Ramdisk) (size : rd.size < word)
  | ata (transfer : Nat → Nat → Option Mem)

/-- `bd_ops.readblk` of a disk. -/
def Disk.readblk : Disk → Mem → Nat → Nat → DriverRead
  | .ramdisk rd _ => initrdRead rd
  | .ata transfer => ataRead transfer

/-- `bd_ops.writeblk` of a disk. -/
def Disk.writeblk : Disk → Mem → Nat → Nat → DriverWrite
  | .ramdisk rd _ => initrdWrite rd
  | .ata _ => ataWrite

/-- `ps_read`. -/
def psRead (blkdev : Disk) (blkOffset : Nat) (buffer : Mem) (count lba : Nat) : DriverRead :=
  blkdev.readblk buffer count (wrap64 (lba + blkOffset))

/-- `ps_write`.  It calls `readblk`, so that the buffer is stored to. -/
def psWrite (blkdev : Disk) (blkOffset : Nat) (buffer : Mem) (count lba : Nat) : DriverWrite :=
  let r := blkdev.readblk buffer count (wrap64 (lba + blkOffset))
  ⟨r.ret, r.stored⟩

/-- A block device.  Partitions are not scanned for partitions, and `lba_start` has 32 bits. -/
inductive BlkDev where
  | disk (disk : Disk)
  | part (blkdev : Disk) (blkOffset : Nat) (small : blkOffset < 2 ^ 32)

/-- `bd_ops.readblk` of a block device. -/
def BlkDev.readblk : BlkDev → Mem → Nat → Nat → DriverRead
  | .disk d => d.readblk
  | .part blkdev blkOffset _ => psRead blkdev blkOffset

/-- `bd_ops.writeblk` of a block device. -/
def BlkDev.writeblk : BlkDev → Mem → Nat → Nat → DriverWrite
  | .disk d => d.writeblk
  | .part blkdev blkOffset _ => psWrite blkdev blkOffset

/-- `bd_ops` of a block device. -/
def BlkDev.ops (bd : BlkDev) : BdOps where
  readblk := some bd.readblk
  writeblk := some bd.writeblk

/-! ## How much of the buffer they touch -/

/-- The first block of a device is not behind the end of its disk. -/
def Disk.Starts : Disk → Nat → Prop
  | .ramdisk rd _, lba => lba ≤ rd.blocks
  | .ata _, _ => True

/-- A partition does not start behind the end of its disk. -/
def BlkDev.Starts : BlkDev → Prop
  | .disk _ => True
  | .part blkdev blkOffset _ => blkdev.Starts blkOffset

theorem initrdCount_le {rd : Ramdisk} {count lba : Nat} (hsize : rd.size < word)
    (hlba : lba ≤ rd.blocks) (hcount : count * 512 ≤ userBreak) :
    wrap64 (initrdCount rd count lba * 512) ≤ count * 512 := by
  refine (Nat.mod_le _ _).trans (Nat.mul_le_mul_right 512 ?_)
  have hblocks : rd.blocks * 512 ≤ rd.size := Nat.div_mul_le_self rd.size 512
  rw [initrdCount]
  split
  next h =>
    simp only [wrap64, word, userBreak] at *
    omega
  next => exact Nat.le_refl count

/-- Behind the end of the disk, the number of bytes is negative. -/
theorem lt_initrdCount {rd : Ramdisk} {count lba : Nat} (hlba : rd.blocks < lba)
    (hsmall : lba < 2 ^ 32) (hcount : count * 512 ≤ userBreak) :
    userBreak < wrap64 (initrdCount rd count lba * 512) := by
  simp only [wrap64, word, userBreak] at *
  rw [initrdCount, if_pos (by simp only [wrap64, word]; omega)]
  simp only [wrap64, word]
  omega

/-- The loop of `ata_read` stores the blocks it says it read, and these are no more than
remained. -/
theorem ataReadLoop_cases (transfer : Nat → Nat → Option Mem) (lba : Nat) (buffer : Mem)
    (blocksRead blocksRemaining : Nat) :
    ∃ n ≤ blocksRead + blocksRemaining,
      (ataReadLoop transfer lba buffer blocksRead blocksRemaining).ret = toSsize n ∧
      (ataReadLoop transfer lba buffer blocksRead blocksRemaining).stored = n * 512 := by
  fun_induction ataReadLoop transfer lba buffer blocksRead blocksRemaining with
  | case1 buffer blocksRead => exact ⟨blocksRead, Nat.le_refl _, rfl, rfl⟩
  | case2 buffer blocksRead blocksRemaining hne trSize hnone =>
      exact ⟨blocksRead, Nat.le_add_right _ _, rfl, rfl⟩
  | case3 buffer blocksRead blocksRemaining hne trSize data hsome start buffer' ih =>
      have : trSize ≤ blocksRemaining := Nat.min_le_left _ _
      rwa [Nat.add_assoc, Nat.add_sub_cancel' this] at ih

/-- A read keeps to the buffer exactly if it starts on the disk. -/
theorem Disk.readblk_stored_iff (disk : Disk) (buffer : Mem) {len lba : Nat}
    (hlen : len ≤ userBreak) (hlba : lba < 2 ^ 32) :
    (disk.readblk buffer (len / 512) lba).stored ≤ len ↔ disk.Starts lba := by
  have hcount : len / 512 * 512 ≤ len := Nat.div_mul_le_self len 512
  cases disk with
  | ramdisk rd hsize =>
      constructor
      · intro h
        by_contra hlt
        have := lt_initrdCount (Nat.not_le.mp hlt) hlba (hcount.trans hlen)
        exact absurd (this.trans_le h) (Nat.not_lt.mpr hlen)
      · intro h
        exact (initrdCount_le hsize h (hcount.trans hlen)).trans hcount
  | ata transfer =>
      obtain ⟨n, hn, -, hstored⟩ := ataReadLoop_cases transfer lba buffer 0 (len / 512)
      refine iff_of_true ?_ trivial
      calc (ataRead transfer buffer (len / 512) lba).stored
        _ = n * 512 := hstored
        _ ≤ (0 + len / 512) * 512 := Nat.mul_le_mul_right 512 hn
        _ ≤ len := by rwa [Nat.zero_add]

/-- A write starts on the disk. -/
theorem Disk.writeblk_loaded_le (disk : Disk) (buffer : Mem) {len : Nat}
    (hlen : len ≤ userBreak) : (disk.writeblk buffer (len / 512) 0).loaded ≤ len := by
  have hcount : len / 512 * 512 ≤ len := Nat.div_mul_le_self len 512
  cases disk with
  | ramdisk rd hsize =>
      exact (initrdCount_le hsize (Nat.zero_le _) (hcount.trans hlen)).trans hcount
  | ata transfer => exact Nat.zero_le len

/-- No number of whole blocks reads as `-EINVAL`. -/
theorem toSsize_blocks_ne (n : Nat) : toSsize (wrap64 (n * 512)) ≠ -einval :=
  mt toSsize_eq_einval.mp (by simp only [wrap64, word]; omega)

theorem Disk.readblk_ret_ne (disk : Disk) (buffer : Mem) {len : Nat} (hlen : len < word)
    (lba : Nat) : (disk.readblk buffer (len / 512) lba).ret ≠ -einval := by
  cases disk with
  | ramdisk rd hsize => exact toSsize_blocks_ne _
  | ata transfer =>
      obtain ⟨n, hn, hret, -⟩ := ataReadLoop_cases transfer lba buffer 0 (len / 512)
      exact hret.trans_ne (mt toSsize_eq_einval.mp (by simp only [word] at *; omega))

theorem Disk.writeblk_ret_ne (disk : Disk) (buffer : Mem) (count lba : Nat) :
    (disk.writeblk buffer count lba).ret ≠ -einval := by
  cases disk with
  | ramdisk rd hsize => exact toSsize_blocks_ne _
  | ata transfer => simp [Disk.writeblk, ataWrite, enosys, einval]

/-! ## Calls from the first block on -/

theorem psRead_zero (blkdev : Disk) {blkOffset : Nat} (hsmall : blkOffset < 2 ^ 32)
    (buffer : Mem) (count : Nat) :
    psRead blkdev blkOffset buffer count 0 = blkdev.readblk buffer count blkOffset := by
  rw [psRead, Nat.zero_add, wrap64_of_lt (hsmall.trans (by decide))]

theorem psWrite_zero (blkdev : Disk) {blkOffset : Nat} (hsmall : blkOffset < 2 ^ 32)
    (buffer : Mem) (count : Nat) :
    psWrite blkdev blkOffset buffer count 0 =
      ⟨(blkdev.readblk buffer count blkOffset).ret,
        (blkdev.readblk buffer count blkOffset).stored⟩ := by
  rw [psWrite, Nat.zero_add, wrap64_of_lt (hsmall.trans (by decide))]

/-- A read of a device keeps to the buffer exactly if the device starts on its disk. -/
theorem BlkDev.readblk_stored_iff (bd : BlkDev) (buffer : Mem) {len : Nat}
    (hlen : len ≤ userBreak) :
    (bd.readblk buffer (len / 512) 0).stored ≤ len ↔ bd.Starts := by
  cases bd with
  | disk d =>
      have hzero : d.Starts 0 := by
        cases d with
        | ramdisk rd hsize => exact Nat.zero_le rd.blocks
        | ata transfer => trivial
      exact iff_of_true ((d.readblk_stored_iff buffer hlen (by decide)).mpr hzero) trivial
  | part d blkOffset hsmall =>
      rw [BlkDev.readblk, psRead_zero d hsmall]
      exact d.readblk_stored_iff buffer hlen hsmall

/-- So does a write. -/
theorem BlkDev.writeblk_loaded_iff (bd : BlkDev) (buffer : Mem) {len : Nat}
    (hlen : len ≤ userBreak) :
    (bd.writeblk buffer (len / 512) 0).loaded ≤ len ↔ bd.Starts := by
  cases bd with
  | disk d => exact iff_of_true (d.writeblk_loaded_le buffer hlen) trivial
  | part d blkOffset hsmall =>
      rw [BlkDev.writeblk, psWrite_zero d hsmall]
      exact d.readblk_stored_iff buffer hlen hsmall

theorem BlkDev.readblk_ret_ne (bd : BlkDev) (buffer : Mem) {len : Nat} (hlen : len < word)
    (lba : Nat) : (bd.readblk buffer (len / 512) lba).ret ≠ -einval := by
  cases bd with
  | disk d => exact d.readblk_ret_ne buffer hlen lba
  | part d blkOffset hsmall => exact d.readblk_ret_ne buffer hlen _

theorem BlkDev.writeblk_ret_ne (bd : BlkDev) (buffer : Mem) {len : Nat} (hlen : len < word)
    (lba : Nat) : (bd.writeblk buffer (len / 512) lba).ret ≠ -einval := by
  cases bd with
  | disk d => exact d.writeblk_ret_ne buffer _ lba
  | part d blkOffset hsmall => exact d.readblk_ret_ne buffer hlen _

end UlmerOS
