import UlmerOS.Fs.BlockIo

/-!
# What `bd_read` returns

`bd_read` multiplies the result of the driver with `BLOCK_SIZE`.  `ata_read` returns a number
of blocks, and `initrd_read` returns a number of bytes.  A partition returns what its disk
does.  So a read of a drive is right, however short it is, and a read of a ramdisk is right
only if it delivers nothing.
-/

namespace UlmerOS

open ByteMem

/-- The contents of a disk.  A drive delivers them in every transfer that does not fail. -/
def Disk.Holds : Disk → Mem → Prop
  | .ramdisk rd _, data => ∀ i, data i = rd.bytes i
  | .ata transfer, data => ∀ lba count block, transfer lba count = some block →
      ∀ i < count * 512, block i = data (lba * 512 + i)

namespace BlkDev

/-- The disk that a device is, or lies on. -/
def base : BlkDev → Disk
  | .disk d => d
  | .part blkdev _ _ => blkdev

/-- The first block of a device on its disk. -/
def first : BlkDev → Nat
  | .disk _ => 0
  | .part _ blkOffset _ => blkOffset

/-- A range lies within a device.  `lba_size` of a partition has 32 bits. -/
def Spans : BlkDev → Nat → Nat → Prop
  | .disk (.ramdisk rd _), off, size => off + size ≤ rd.blocks * 512
  | .disk (.ata _), off, size => off + size < word
  | .part _ _ _, off, size => off + size < 2 ^ 32 * 512

end BlkDev

/-- A read returns the number of bytes that were transferred, not more than were asked for,
and these are the bytes from a position on. -/
structure Transfers (r : DriverRead) (data : Mem) (size pos : Nat) : Prop where
  transferred : r.ret = r.stored
  le : r.ret ≤ size
  bytes : ∀ i < r.stored, r.buffer i = data (pos + i)

/-- A disk whose driver returns blocks, or a ramdisk of which nothing is read: no blocks are
asked for, or the first one is where the ramdisk ends. -/
def Disk.ReadsRight : Disk → Nat → Nat → Prop
  | .ata _, _, _ => True
  | .ramdisk rd _, lba, count => lba ≤ rd.blocks ∧ (count = 0 ∨ lba = rd.blocks)

/-! ## Drives -/

/-- The loop of `ata_read` leaves the blocks it says it read in the buffer, from the first one
on. -/
theorem ataReadLoop_bytes {transfer : Nat → Nat → Option Mem} {data : Mem}
    (hdata : (Disk.ata transfer).Holds data) {lba : Nat} (buffer : Mem)
    (blocksRead blocksRemaining : Nat) (hword : lba + blocksRead + blocksRemaining < word)
    (hread : ∀ i < blocksRead * 512, buffer i = data (lba * 512 + i)) :
    ∃ n ≤ blocksRead + blocksRemaining,
      (ataReadLoop transfer lba buffer blocksRead blocksRemaining).ret = toSsize n ∧
      (ataReadLoop transfer lba buffer blocksRead blocksRemaining).stored = n * 512 ∧
      ∀ i < n * 512, (ataReadLoop transfer lba buffer blocksRead blocksRemaining).buffer i =
        data (lba * 512 + i) := by
  fun_induction ataReadLoop transfer lba buffer blocksRead blocksRemaining with
  | case1 buffer blocksRead => exact ⟨blocksRead, Nat.le_refl _, rfl, rfl, hread⟩
  | case2 buffer blocksRead blocksRemaining hne trSize hnone =>
      exact ⟨blocksRead, Nat.le_add_right _ _, rfl, rfl, hread⟩
  | case3 buffer blocksRead blocksRemaining hne trSize block hsome start buffer' ih =>
      have hle : trSize ≤ blocksRemaining := Nat.min_le_left _ _
      have hstart : start = blocksRead * 512 := rfl
      have hbuffer : ∀ i, buffer' i =
        if start ≤ i ∧ i < start + trSize * 512 then block (i - start) else buffer i := fun _ => rfl
      clear_value buffer' start trSize
      rw [wrap64_of_lt (by omega)] at hsome
      obtain ⟨n, hn, hret, hstored, hbytes⟩ := ih (by omega) fun i hi => by
        rw [hbuffer]
        by_cases hnew : start ≤ i
        · rw [if_pos ⟨hnew, by omega⟩, hdata _ _ _ hsome (i - start) (by omega)]
          exact congrArg data (by omega)
        · rw [if_neg (fun h => hnew h.1)]
          exact hread i (hstart ▸ Nat.not_le.mp hnew)
      exact ⟨n, by omega, hret, hstored, hbytes⟩

/-- `bd_read` where the driver does not return an error. -/
theorem bdRead_of_nonneg {readblk : Mem → Nat → Nat → DriverRead} {buffer : Mem} {size off : Nat}
    {r : DriverRead} (hr : readblk buffer (size / 512) (off / 512) = r) (hret : 0 ≤ r.ret) :
    bdRead (some readblk) buffer size off = { r with ret := r.ret * 512 } := by
  subst hr
  exact if_neg (Int.not_lt.mpr hret)

/-- A read of a drive is right. -/
theorem ata_transfers {transfer : Nat → Nat → Option Mem} {data : Mem}
    (hdata : (Disk.ata transfer).Holds data) (buffer : Mem) {size pos : Nat} (hpos : 512 ∣ pos)
    (hword : pos / 512 + size / 512 < word) (hsize : size < word) :
    Transfers (bdRead (some (ataRead transfer)) buffer size pos) data size pos := by
  obtain ⟨n, hn, hret, hstored, hbytes⟩ := ataReadLoop_bytes hdata buffer 0 (size / 512)
    (show pos / 512 + 0 + size / 512 < word from hword) (by simp)
  obtain ⟨r, hr⟩ : ∃ r, ataReadLoop transfer (pos / 512) buffer 0 (size / 512) = r := ⟨_, rfl⟩
  rw [hr] at hret hstored hbytes
  rw [toSsize, if_pos (by simp only [word] at hsize; omega)] at hret
  rw [bdRead_of_nonneg (show ataRead transfer buffer _ _ = r from hr) (hret ▸ Int.natCast_nonneg n)]
  refine ⟨?_, ?_, fun i hi => ?_⟩
  · show r.ret * 512 = r.stored
    rw [hret, hstored, Int.natCast_mul]
    rfl
  · show r.ret * 512 ≤ size
    omega
  · show r.buffer i = _
    rw [hbytes i (hstored ▸ hi), Nat.div_mul_cancel hpos]

/-! ## Ramdisks -/

/-- A driver that returns the number of bytes is right only about none. -/
theorem transfers_bytes_iff {readblk : Mem → Nat → Nat → DriverRead} {buffer data : Mem}
    {size pos n : Nat} (hn : n < word)
    (hret : (readblk buffer (size / 512) (pos / 512)).ret = toSsize n)
    (hstored : (readblk buffer (size / 512) (pos / 512)).stored = n) :
    Transfers (bdRead (some readblk) buffer size pos) data size pos ↔ n = 0 := by
  constructor
  · intro h
    have hsigned : toSsize n < 0 ∨ toSsize n = n := by
      simp only [toSsize, word] at *
      split <;> omega
    have heq := h.transferred
    simp only [bdRead, hret] at heq
    split at heq
    · simp only [hret, hstored] at heq
      omega
    · simp only [hstored] at heq
      omega
  · rintro rfl
    have hzero : toSsize 0 = 0 := rfl
    rw [hzero] at hret
    simp only [bdRead, hret, lt_irrefl, if_false]
    refine ⟨?_, ?_, fun i hi => ?_⟩
    · rw [hstored]
      rfl
    · exact Int.natCast_nonneg size
    · rw [hstored] at hi
      cases hi

/-- Nothing is read of a ramdisk if no blocks are asked for, or the first one is where it
ends. -/
theorem initrd_none_iff {rd : BlockDev.Ramdisk} (hsize : rd.size < word) {count lba : Nat}
    (hspan : lba + count ≤ rd.blocks ∨ lba + count < 2 ^ 33) :
    wrap64 (initrdCount rd count lba * 512) = 0 ↔
      lba ≤ rd.blocks ∧ (count = 0 ∨ lba = rd.blocks) := by
  have hblocks : rd.blocks * 512 ≤ rd.size := Nat.div_mul_le_self rd.size 512
  rw [initrdCount]
  by_cases hend : rd.blocks < wrap64 (lba + count)
  · rw [if_pos hend]
    simp only [wrap64, word] at *
    omega
  · rw [if_neg hend]
    simp only [wrap64, word] at *
    omega

/-! ## Devices -/

/-- A read of a device is one of its disk. -/
theorem bdRead_base (bd : BlkDev) (buffer : Mem) {size off : Nat}
    (hword : off / 512 + bd.first < word) :
    bdRead bd.ops.readblk buffer size off =
      bdRead (some bd.base.readblk) buffer size (bd.first * 512 + off) := by
  have hlba : (bd.first * 512 + off) / 512 = off / 512 + bd.first := by omega
  cases bd with
  | disk d =>
      simp only [BlkDev.first, Nat.zero_mul, Nat.zero_add]
      rfl
  | part d blkOffset hsmall =>
      have hread : psRead d blkOffset buffer (size / 512) (off / 512) =
          d.readblk buffer (size / 512) (off / 512 + blkOffset) :=
        congrArg (d.readblk buffer (size / 512)) (wrap64_of_lt hword)
      simp only [bdRead, hlba, BlkDev.ops, BlkDev.readblk, hread]
      rfl

/-- **What `bd_read` returns.**  For every range of whole blocks within a device, it is the
number of the bytes that were transferred, these are those of the device, and there are no
more than were asked for, exactly if the disk is a drive or nothing is read of the ramdisk. -/
theorem bd_read_transfers_iff (bd : BlkDev) {data : Mem} (hdata : bd.base.Holds data)
    (buffer : Mem) {size off : Nat} (hoff : 512 ∣ off) (hsize : 512 ∣ size)
    (hspan : bd.Spans off size) :
    Transfers (bdRead bd.ops.readblk buffer size off) data size (bd.first * 512 + off) ↔
      bd.base.ReadsRight (bd.first + off / 512) (size / 512) := by
  have hsmall : bd.first < 2 ^ 32 := by
    cases bd with
    | disk d => exact Nat.two_pow_pos 32
    | part d blkOffset hsmall => exact hsmall
  have hword : off + size < word := by
    cases bd with
    | disk d =>
        cases d with
        | ramdisk rd hrd => exact hspan.trans_lt ((Nat.div_mul_le_self rd.size 512).trans_lt hrd)
        | ata transfer => exact hspan
    | part d blkOffset hsmall => exact hspan.trans (by decide)
  have hlba : (bd.first * 512 + off) / 512 = bd.first + off / 512 := by omega
  rw [bdRead_base bd buffer (by simp only [word] at *; omega)]
  cases hbase : bd.base with
  | ata transfer =>
      rw [hbase] at hdata
      exact iff_of_true (ata_transfers hdata buffer (by omega)
        (by simp only [word] at *; omega) (by omega)) trivial
  | ramdisk rd hrd =>
      rw [transfers_bytes_iff (wrap64_lt _) rfl rfl, initrd_none_iff hrd, hlba]
      · rfl
      · rw [hlba]
        cases bd with
        | disk d =>
            obtain rfl : d = .ramdisk rd hrd := hbase
            left
            simp only [BlkDev.Spans, BlkDev.first] at *
            omega
        | part d blkOffset hsmall =>
            right
            simp only [BlkDev.Spans] at *
            omega

/-- Two blocks from the second one on, of a drive whose transfers do not fail. -/
theorem bd_read_transfers_ata :
    Transfers (bdRead (BlkDev.disk (.ata fun lba _ =>
        some fun i => UInt8.ofNat (lba * 512 + i))).ops.readblk (fun _ => 0) 1024 512)
      UInt8.ofNat 1024 512 :=
  (bd_read_transfers_iff (.disk (.ata fun lba _ => some fun i => UInt8.ofNat (lba * 512 + i)))
    (by rintro lba count block ⟨⟩ i -; rfl) (fun _ => 0) (by decide) (by decide)
    (show 512 + 1024 < word by decide)).mpr trivial

/-- A read of one block of a ramdisk returns 512 times 512. -/
theorem ramdisk_read_too_long : ¬ ∀ (bd : BlkDev) (data : Mem), bd.base.Holds data →
    ∀ (buffer : Mem) (size off : Nat), 512 ∣ off → 512 ∣ size → bd.Spans off size →
      Transfers (bdRead bd.ops.readblk buffer size off) data size (bd.first * 512 + off) := by
  intro h
  have hread := h (.disk (.ramdisk ⟨fun _ => 7, 512, []⟩ (by decide))) (fun _ => 7) (fun _ => rfl)
    (fun _ => 0) 512 0 (by decide) (by decide) (show 0 + 512 ≤ 512 / 2 ^ 9 * 512 by decide)
  exact absurd hread.le (by decide)

end UlmerOS
