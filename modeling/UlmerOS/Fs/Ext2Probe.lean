import UlmerOS.Fs.Ext2Errors

/-!
# Probing a device, and where an inode lies

`ext2_probe` and `fetch_inode` of `fs/ext2fs.c`, with the superblock as it is on the disk and
the table of group descriptors as it was read.

The superblock is not checked beyond its signature.  Its fields are divisors, the count of a
shift and the bound of a table.  An operation that is not defined is a fault here: a division
by zero, a shift of an `int` by 32 or more, and an index behind the end of the table.
`harmless_iff` says which superblocks and inode numbers avoid them.

`fetch_inode` finds the sector of an inode from its place in the group and the size of an
inode.  The slot in the sector it takes from the inode number, in steps of the size of
`ext2_inode_t`.  `fetch_inode_iff` says when this is the place of the inode.
-/

namespace UlmerOS.Ext2

open ByteMem

/-! ## The superblock -/

/-- What is read of an `ext2_superblock_t`. -/
structure Superblock where
  totalInodes : UInt32
  totalBlocks : UInt32
  blockSizeLog : UInt32
  blocksPerGroup : UInt32
  inodesPerGroup : UInt32
  signature : UInt16
  majorVersion : UInt32
  inodeSize : UInt16
deriving DecidableEq, Repr

namespace Superblock

/-- The superblock in 1024 bytes. -/
def ofBytes (m : Mem) : Superblock where
  totalInodes := UInt32.ofNat (load m 0 4)
  totalBlocks := UInt32.ofNat (load m 4 4)
  blockSizeLog := UInt32.ofNat (load m 24 4)
  blocksPerGroup := UInt32.ofNat (load m 32 4)
  inodesPerGroup := UInt32.ofNat (load m 40 4)
  signature := UInt16.ofNat (load m 56 2)
  majorVersion := UInt32.ofNat (load m 76 4)
  inodeSize := UInt16.ofNat (load m 88 2)

variable (sb : Superblock)

/-- `0x400 << sb.block_size_log`, an `int` that becomes a `size_t`. -/
def blockSize : Nat := (((0x400#32) <<< sb.blockSizeLog.toNat).signExtend 64).toNat

/-- `gd_count`. -/
def gdCount : Nat :=
  sb.totalBlocks.toNat / sb.blocksPerGroup.toNat +
    if sb.totalBlocks.toNat % sb.blocksPerGroup.toNat ≠ 0 then 1 else 0

/-- `inode_size` of `fetch_inode`. -/
def sizeOfInode : Nat := if sb.majorVersion.toNat < 1 then 128 else sb.inodeSize.toNat

/-- `gdt_lba`. -/
def gdtLba : Nat := wrap64 ((if sb.blockSize = 0x400 then 2 else 1) * (sb.blockSize / 512))

/-- `gdt_lba_size`.  An `ext2_gd_t` has 32 bytes. -/
def gdtLbaSize : Nat :=
  sb.gdCount * 32 / 512 + if sb.gdCount * 32 % 512 ≠ 0 then 1 else 0

end Superblock

/-! ## The functions -/

/-- `ext2fs_t`, as `ext2_probe` makes it. -/
structure Ext2FsT where
  dev : Device
  sb : Superblock
  /-- The bytes that `group_descriptors` points to. -/
  groupDescriptors : Mem

namespace Ext2FsT

/-- `group_descriptors[i].bg_inode_table`. -/
def bgInodeTable (fs : Ext2FsT) (i : Nat) : Nat := load fs.groupDescriptors (32 * i + 8) 4

/-- The fields that reading from the device needs. -/
def mount (fs : Ext2FsT) : Mount where
  dev := fs.dev
  blockSizeLog := fs.sb.blockSizeLog.toNat
  totalInodes := fs.sb.totalInodes.toNat
  inodesPerGroup := fs.sb.inodesPerGroup.toNat
  majorVersion := fs.sb.majorVersion.toNat
  inodeSize := fs.sb.inodeSize.toNat
  bgInodeTable := fs.bgInodeTable

/-- `fetch_inode`, on the inode in memory: what it returns, and the inode afterwards. -/
def fetchInode (fs : Ext2FsT) (log : List DevRead) (inodeNo : Nat) (left inode : Mem) :
    Outcome (Int × Mem × List DevRead) :=
  let index := wrap64 (inodeNo + word - 1)
  let inodesPerGroup := fs.sb.inodesPerGroup.toNat
  let inodeSize := fs.sb.sizeOfInode
  if fs.sb.totalInodes.toNat < inodeNo then .ret (-enoent, inode, log)
  else if inodesPerGroup = 0 then .fault
  else if inodeSize = 0 ∨ 512 / inodeSize = 0 then .fault
  else if fs.sb.gdCount ≤ index / inodesPerGroup then .fault
  else
    let inodesPerSector := 512 / inodeSize
    let lbaOffset := index % inodesPerGroup / inodesPerSector
    let itable := wrap64 (fs.bgInodeTable (index / inodesPerGroup) * fs.sb.blockSize)
    let (ok, buffer, log) := getBlock fs.mount log left (wrap64 (lbaOffset + itable / 512)) 1
    if ok = false then .ret (-eio, inode, log)
    else .ret (0, memcpyFrom inode buffer 0 (128 * (index % inodesPerSector)) 128, log)

end Ext2FsT

/-- `ext2_probe`, on what the memory held before the superblock and the table were read into
it.  `none` is `NULL`. -/
def ext2Probe (dev : Device) (sbLeft gdtLeft : Mem) : Outcome (Option Ext2FsT × List DevRead) :=
  let r := dev.result 0 1024 1024
  let log := [⟨false, 1024, r.1⟩]
  let sb := Superblock.ofBytes (overlay sbLeft r.2 1024)
  if r.1 < 0 then .ret (none, log)
  else if sb.signature ≠ 0xef53 then .ret (none, log)
  else if 32 ≤ sb.blockSizeLog.toNat then .fault
  else if sb.blocksPerGroup = 0 then .fault
  else
    let fs : Ext2FsT := ⟨dev, sb, gdtLeft⟩
    let (ok, gdt, log) := getBlock fs.mount log gdtLeft sb.gdtLba sb.gdtLbaSize
    if ok = false then .ret (none, log) else .ret (some { fs with groupDescriptors := gdt }, log)

/-- Inside of the table of group descriptors, and for a block size that is not too large,
`fetch_inode` is the one that takes the table for unbounded. -/
theorem Ext2FsT.fetchInode_eq (fs : Ext2FsT) (log : List DevRead) {inodeNo : Nat}
    (left inode : Mem) (hlog : fs.sb.blockSizeLog.toNat ≤ 20)
    (hgroup : wrap64 (inodeNo + word - 1) / fs.sb.inodesPerGroup.toNat < fs.sb.gdCount) :
    fs.fetchInode log inodeNo left inode =
      Ext2.fetchInode fs.mount log inodeNo left inode := by
  have hsize : fs.sb.blockSize = fs.mount.blockSize := by
    have hall : ∀ n ≤ 20, (((0x400#32) <<< n).signExtend 64).toNat = 0x400 <<< n := by decide
    exact hall _ hlog
  rw [Ext2FsT.fetchInode, Ext2.fetchInode]
  simp only [if_neg (Nat.not_le.mpr hgroup), hsize]
  by_cases hgiven : fs.sb.totalInodes.toNat < inodeNo
  · rw [if_pos hgiven]
    exact (if_pos hgiven).symm
  rw [if_neg hgiven]
  refine Eq.trans ?_ (if_neg hgiven).symm
  by_cases hgroups : fs.sb.inodesPerGroup.toNat = 0
  · rw [if_pos hgroups]
    exact (if_pos (.inl hgroups)).symm
  rw [if_neg hgroups]
  by_cases hinode : fs.sb.sizeOfInode = 0 ∨ 512 / fs.sb.sizeOfInode = 0
  · rw [if_pos hinode]
    exact (if_pos (.inr hinode)).symm
  rw [if_neg hinode]
  exact (if_neg (not_or.mpr ⟨hgroups, hinode⟩)).symm

/-! ## Superblocks that are harmless -/

/-- What `ext2_probe` takes for the superblock. -/
def superblockRead (dev : Device) (sbLeft : Mem) : Superblock :=
  Superblock.ofBytes (overlay sbLeft (dev.result 0 1024 1024).2 1024)

/-- The read of the table of group descriptors is short. -/
def ShortTable (dev : Device) (sb : Superblock) : Prop :=
  0 ≤ (dev.result 1 (wrap64 (sb.gdtLba * 512)) (sb.gdtLbaSize * 512)).1 ∧
    (dev.result 1 (wrap64 (sb.gdtLba * 512)) (sb.gdtLbaSize * 512)).1 < sb.gdtLbaSize * 512

/-- There is no inode of this number, or there is a group of it, and the sizes are not zero
and not larger than a sector. -/
def Superblock.Serves (sb : Superblock) (inodeNo : Nat) : Prop :=
  sb.totalInodes.toNat < inodeNo ∨
    (sb.inodesPerGroup ≠ 0 ∧ 1 ≤ sb.sizeOfInode ∧ sb.sizeOfInode ≤ 512 ∧
      wrap64 (inodeNo + word - 1) / sb.inodesPerGroup.toNat < sb.gdCount)

/-- `ext2_probe` performs no operation that is not defined, and neither does `fetch_inode` for
the number of an inode, if there is a file system then. -/
def Harmless (dev : Device) (sbLeft gdtLeft : Mem) (inodeNo : Nat) : Prop :=
  ext2Probe dev sbLeft gdtLeft ≠ .fault ∧
    ∀ fs log, ext2Probe dev sbLeft gdtLeft = .ret (some fs, log) →
      ∀ log' left inode, fs.fetchInode log' inodeNo left inode ≠ .fault

/-- There are not more groups than blocks, and one at least if a block is left over. -/
theorem Superblock.gdCount_lt (sb : Superblock) : sb.gdCount < 2 ^ 32 := by
  have htotal := sb.totalBlocks.toNat_lt
  rw [gdCount]
  obtain ⟨t, ht⟩ : ∃ t, sb.totalBlocks.toNat = t := ⟨_, rfl⟩
  obtain ⟨b, hb⟩ : ∃ b, sb.blocksPerGroup.toNat = b := ⟨_, rfl⟩
  rw [ht] at htotal
  rw [ht, hb]
  have hdiv := Nat.div_le_self t b
  split
  next hmod =>
    rcases Nat.lt_or_ge 1 b with hbig | hone
    · -- a remainder means that the quotient is smaller than the number of blocks
      have hsplit := Nat.div_add_mod t b
      have := Nat.mul_le_mul_right (t / b) hbig
      omega
    · rcases Nat.le_one_iff_eq_zero_or_eq_one.mp hone with rfl | rfl
      · rw [Nat.div_zero]
        decide
      · exact absurd (Nat.mod_one t) hmod
  next => omega

/-- No superblock serves the inode 0. -/
theorem Superblock.not_serves_zero (sb : Superblock) : ¬ sb.Serves 0 := by
  rintro (hlt | ⟨hgroups, -, -, hgroup⟩)
  · exact absurd hlt (Nat.not_lt_zero _)
  · have hcount := sb.gdCount_lt
    have hper := sb.inodesPerGroup.toNat_lt
    have hpos : 0 < sb.inodesPerGroup.toNat :=
      Nat.pos_of_ne_zero fun h => hgroups (UInt32.toNat_inj.mp h)
    rw [Nat.div_lt_iff_lt_mul hpos] at hgroup
    have hmul : sb.gdCount * sb.inodesPerGroup.toNat ≤ 2 ^ 32 * (2 ^ 32 - 1) :=
      Nat.mul_le_mul hcount.le (by omega)
    simp only [wrap64, word] at hgroup
    omega

/-- `fetch_inode` performs no undefined operation exactly for the inodes that are served. -/
theorem Ext2FsT.fetchInode_ne_fault_iff (fs : Ext2FsT) (log : List DevRead) (inodeNo : Nat)
    (left inode : Mem) :
    fs.fetchInode log inodeNo left inode ≠ .fault ↔ fs.sb.Serves inodeNo := by
  have hzero : fs.sb.inodesPerGroup ≠ 0 ↔ fs.sb.inodesPerGroup.toNat ≠ 0 :=
    not_congr UInt32.toNat_inj.symm
  rw [Ext2FsT.fetchInode, Superblock.Serves, hzero]
  by_cases hgiven : fs.sb.totalInodes.toNat < inodeNo
  · rw [if_pos hgiven]
    exact iff_of_true nofun (.inl hgiven)
  rw [if_neg hgiven]
  by_cases hgroups : fs.sb.inodesPerGroup.toNat = 0
  · rw [if_pos hgroups]
    exact iff_of_false (fun h => h rfl) fun h => (h.resolve_left hgiven).1 hgroups
  rw [if_neg hgroups]
  by_cases hinode : fs.sb.sizeOfInode = 0 ∨ 512 / fs.sb.sizeOfInode = 0
  · rw [if_pos hinode]
    rw [Nat.div_eq_zero_iff] at hinode
    refine iff_of_false (fun h => h rfl) fun h => ?_
    have := h.resolve_left hgiven
    omega
  rw [if_neg hinode]
  rw [Nat.div_eq_zero_iff] at hinode
  by_cases hgroup : fs.sb.gdCount ≤ wrap64 (inodeNo + word - 1) / fs.sb.inodesPerGroup.toNat
  · rw [if_pos hgroup]
    exact iff_of_false (fun h => h rfl) fun h =>
      absurd (h.resolve_left hgiven).2.2.2 (Nat.not_lt.mpr hgroup)
  · rw [if_neg hgroup]
    refine iff_of_true ?_ (.inr ⟨hgroups, by omega, by omega, Nat.not_le.mp hgroup⟩)
    simp only
    split <;> nofun

/-- `ext2_probe` of a device with the signature. -/
theorem ext2Probe_cases {dev : Device} {sbLeft : Mem} (gdtLeft : Mem)
    (hread : 0 ≤ (dev.result 0 1024 1024).1)
    (hsignature : (superblockRead dev sbLeft).signature = 0xef53) :
    let sb := superblockRead dev sbLeft
    (ext2Probe dev sbLeft gdtLeft = .fault ∧
        (32 ≤ sb.blockSizeLog.toNat ∨ sb.blocksPerGroup = 0)) ∨
      sb.blockSizeLog.toNat < 32 ∧ sb.blocksPerGroup ≠ 0 ∧
        ((ShortTable dev sb ∧ ∃ log, ext2Probe dev sbLeft gdtLeft = .ret (none, log)) ∨
          ¬ ShortTable dev sb ∧ ∃ gdt log,
            ext2Probe dev sbLeft gdtLeft = .ret (some ⟨dev, sb, gdt⟩, log)) := by
  intro sb
  have hsig : ¬ sb.signature ≠ 0xef53 := not_not.mpr hsignature
  obtain ⟨r, hprobe⟩ : ∃ r, ext2Probe dev sbLeft gdtLeft = r := ⟨_, rfl⟩
  rw [hprobe]
  rw [ext2Probe, if_neg (Int.not_lt.mpr hread)] at hprobe
  rw [show Superblock.ofBytes (overlay sbLeft (dev.result 0 1024 1024).2 1024) = sb from rfl,
    if_neg hsig] at hprobe
  by_cases hshift : 32 ≤ sb.blockSizeLog.toNat
  · rw [if_pos hshift] at hprobe
    exact .inl ⟨hprobe.symm, .inl hshift⟩
  rw [if_neg hshift] at hprobe
  by_cases hblocks : sb.blocksPerGroup = 0
  · rw [if_pos hblocks] at hprobe
    exact .inl ⟨hprobe.symm, .inr hblocks⟩
  rw [if_neg hblocks] at hprobe
  refine .inr ⟨Nat.not_le.mp hshift, hblocks, ?_⟩
  have hcount : sb.gdtLbaSize * 512 < 2 ^ 63 := by
    have := sb.gdCount_lt
    rw [Superblock.gdtLbaSize]
    split <;> omega
  have hsize : wrap64 (sb.gdtLbaSize * 512) = sb.gdtLbaSize * 512 :=
    wrap64_of_lt (hcount.trans (by decide))
  have hshort := getBlock_fails_iff (⟨dev, sb, gdtLeft⟩ : Ext2FsT).mount
    [⟨false, 1024, (dev.result 0 1024 1024).1⟩] gdtLeft sb.gdtLba hcount
  rw [DevRead.Short, Mount.record, hsize] at hshort
  obtain ⟨⟨ok, gdt, log⟩, htable⟩ : ∃ x, getBlock (⟨dev, sb, gdtLeft⟩ : Ext2FsT).mount
    [⟨false, 1024, (dev.result 0 1024 1024).1⟩] gdtLeft sb.gdtLba sb.gdtLbaSize = x := ⟨_, rfl⟩
  rw [htable] at hshort
  simp only [htable] at hprobe
  cases ok with
  | false => exact .inl ⟨hshort.mp rfl, log, hprobe.symm⟩
  | true =>
      refine .inr ⟨fun h => ?_, gdt, log, hprobe.symm⟩
      cases hshort.mpr h

/-- **When a superblock is harmless.**  For every device that delivers a superblock with the
signature, and every inode number, `ext2_probe` and `fetch_inode` perform no operation that
is not defined exactly if the shift is one of `int`, a group has blocks, and the device is
refused because the table of group descriptors cannot be read, or the superblock serves the
inode. -/
theorem harmless_iff {dev : Device} {sbLeft : Mem} (gdtLeft : Mem) (inodeNo : Nat)
    (hread : 0 ≤ (dev.result 0 1024 1024).1)
    (hsignature : (superblockRead dev sbLeft).signature = 0xef53) :
    Harmless dev sbLeft gdtLeft inodeNo ↔
      (superblockRead dev sbLeft).blockSizeLog.toNat < 32 ∧
      (superblockRead dev sbLeft).blocksPerGroup ≠ 0 ∧
      (ShortTable dev (superblockRead dev sbLeft) ∨
        (superblockRead dev sbLeft).Serves inodeNo) := by
  rcases ext2Probe_cases gdtLeft hread hsignature with
    ⟨hfault, hbad⟩ | ⟨hshift, hblocks, ⟨hshort, log, hnull⟩ | ⟨hlong, gdt, log, hmount⟩⟩
  · refine iff_of_false (fun h => h.1 hfault) fun h => ?_
    rcases hbad with hbad | hbad
    · exact absurd h.1 (Nat.not_lt.mpr hbad)
    · exact h.2.1 hbad
  · refine iff_of_true ⟨by rw [hnull]; nofun, fun fs log' hfs => ?_⟩
      ⟨hshift, hblocks, .inl hshort⟩
    rw [hnull] at hfs
    cases hfs
  · constructor
    · intro h
      refine ⟨hshift, hblocks, .inr ?_⟩
      have hret := h.2 _ log hmount [] (fun _ => 0) (fun _ => 0)
      exact (Ext2FsT.fetchInode_ne_fault_iff ⟨dev, superblockRead dev sbLeft, gdt⟩ _ _ _ _).mp hret
    · rintro ⟨-, -, hserves⟩
      refine ⟨by rw [hmount]; nofun, fun fs log' hfs log'' left inode => ?_⟩
      rw [hmount] at hfs
      cases hfs
      exact (Ext2FsT.fetchInode_ne_fault_iff _ log'' inodeNo left inode).mpr
        (hserves.resolve_left hlong)

/-- A device without errors. -/
def diskDevice (disk : Mem) : Device where
  result := fun _ off size => (if size < 2 ^ 63 then size else 0, fun i => disk (off + i))
  ssize := fun _ _ size => by
    simp only
    split <;> omega

/-- A superblock of 16 inodes and 64 blocks of 1 KiB, in groups of 16 inodes. -/
def superblockDisk (blocksPerGroup : UInt8) : Mem := fun a =>
  if a = 1024 then 16 else if a = 1028 then 64 else if a = 1056 then blocksPerGroup
  else if a = 1064 then 16 else if a = 1080 then 0x53 else if a = 1081 then 0xef else 0

theorem harmless_root : Harmless (diskDevice (superblockDisk 64)) (fun _ => 0) (fun _ => 0) 2 :=
  (harmless_iff (fun _ => 0) 2 (by decide) (by decide)).mpr
    ⟨by decide, by decide, .inr (.inr ⟨by decide, by decide, by decide, by decide⟩)⟩

/-- Groups without blocks are a division by zero. -/
theorem groups_without_blocks : ¬ ∀ (dev : Device) (sbLeft gdtLeft : Mem) (inodeNo : Nat),
    0 ≤ (dev.result 0 1024 1024).1 → (superblockRead dev sbLeft).signature = 0xef53 →
      Harmless dev sbLeft gdtLeft inodeNo := by
  intro h
  have hharmless := h (diskDevice (superblockDisk 0)) (fun _ => 0) (fun _ => 0) 2 (by decide)
    (by decide)
  exact hharmless.1 rfl

/-! ## Where an inode lies -/

/-- The device delivers its contents, up to its end, as far as a `ssize_t` goes. -/
def Device.Delivers (dev : Device) (disk : Mem) (sectors : Nat) : Prop :=
  ∀ n lba count, lba + count ≤ sectors → count * 512 < 2 ^ 63 →
    (dev.result n (lba * 512) (count * 512)).1 = (count * 512 : Nat) ∧
      ∀ i < count * 512, (dev.result n (lba * 512) (count * 512)).2 i = disk (lba * 512 + i)

theorem diskDevice_delivers (disk : Mem) (sectors : Nat) :
    (diskDevice disk).Delivers disk sectors := by
  intro n lba count _ hsize
  exact ⟨if_pos hsize, fun i _ => rfl⟩

namespace Ext2FsT

/-- Sizes that `ext2` has: inodes of 128, 256 or 512 bytes, groups with inodes, and enough
groups for them.  The shift of an `int` gives a block size below `2^31`. -/
structure Geometry (fs : Ext2FsT) : Prop where
  inodeSize_ge : 128 ≤ fs.sb.sizeOfInode
  inodeSize_dvd : fs.sb.sizeOfInode ∣ 512
  inodesPerGroup_pos : 0 < fs.sb.inodesPerGroup.toNat
  blockSizeLog_le : fs.sb.blockSizeLog.toNat ≤ 20
  groups : fs.sb.totalInodes.toNat ≤ fs.sb.gdCount * fs.sb.inodesPerGroup.toNat

/-- The byte of the device at which an inode is stored. -/
def inodePos (fs : Ext2FsT) (inodeNo : Nat) : Nat :=
  fs.bgInodeTable ((inodeNo - 1) / fs.sb.inodesPerGroup.toNat) * fs.sb.blockSize +
    (inodeNo - 1) % fs.sb.inodesPerGroup.toNat * fs.sb.sizeOfInode

/-- Whatever is stored there, `fetch_inode` copies it. -/
def InodeCopied (fs : Ext2FsT) (inodeNo sectors : Nat) : Prop :=
  ∀ (dev : Device) (disk : Mem), dev.Delivers disk sectors → ∀ log left inode,
    ∃ inode' log', ({ fs with dev := dev }).fetchInode log inodeNo left inode =
        .ret (0, inode', log') ∧
      ∀ i < 128, inode' i = disk (fs.inodePos inodeNo + i)

/-- The byte that `fetch_inode` copies from. -/
def copyPos (fs : Ext2FsT) (inodeNo : Nat) : Nat :=
  fs.bgInodeTable ((inodeNo - 1) / fs.sb.inodesPerGroup.toNat) * fs.sb.blockSize +
    (inodeNo - 1) % fs.sb.inodesPerGroup.toNat / (512 / fs.sb.sizeOfInode) * 512 +
    128 * ((inodeNo - 1) % (512 / fs.sb.sizeOfInode))

/-- The sector is that of the inode. -/
theorem inodePos_eq (fs : Ext2FsT) (hdvd : fs.sb.sizeOfInode ∣ 512) (inodeNo : Nat) :
    fs.inodePos inodeNo =
      fs.bgInodeTable ((inodeNo - 1) / fs.sb.inodesPerGroup.toNat) * fs.sb.blockSize +
        (inodeNo - 1) % fs.sb.inodesPerGroup.toNat / (512 / fs.sb.sizeOfInode) * 512 +
        fs.sb.sizeOfInode *
          ((inodeNo - 1) % fs.sb.inodesPerGroup.toNat % (512 / fs.sb.sizeOfInode)) := by
  rw [inodePos]
  obtain ⟨slot, hslot⟩ : ∃ slot, (inodeNo - 1) % fs.sb.inodesPerGroup.toNat = slot := ⟨_, rfl⟩
  obtain ⟨s, hs⟩ : ∃ s, fs.sb.sizeOfInode = s := ⟨_, rfl⟩
  rw [hs] at hdvd
  rw [hslot, hs, Nat.add_assoc]
  congr 1
  calc slot * s
    _ = (512 / s * (slot / (512 / s)) + slot % (512 / s)) * s := by rw [Nat.div_add_mod]
    _ = slot / (512 / s) * (512 / s * s) + s * (slot % (512 / s)) := by
      rw [Nat.add_mul, Nat.mul_comm (512 / s), Nat.mul_assoc, Nat.mul_comm s]
    _ = slot / (512 / s) * 512 + s * (slot % (512 / s)) := by rw [Nat.div_mul_cancel hdvd]

end Ext2FsT

/-- Reading a sector. -/
theorem Device.Delivers.getBlock (fs : Mount) {disk : Mem} {sectors : Nat}
    (h : fs.dev.Delivers disk sectors) (lba : Nat) (hlba : lba < sectors)
    (hword : lba * 512 < word) (log : List DevRead) (left : Mem) :
    ∃ m log', Ext2.getBlock fs log left lba 1 = (true, m, log') ∧
      ∀ i < 512, m i = disk (lba * 512 + i) := by
  obtain ⟨hret, hdata⟩ := h log.length lba 1 hlba (by decide)
  have hone : wrap64 (1 * 512) = 1 * 512 := by decide
  refine ⟨_, _, Prod.ext ?_ rfl, fun i hi => ?_⟩
  · simp only [Ext2.getBlock, ext2GetBlock, hone, wrap64_of_lt hword, Mount.nth, hret]
    decide
  · simp only [hone, wrap64_of_lt hword, Mount.nth]
    rw [overlay, if_pos hi, hdata i hi]

namespace Ext2FsT

variable {fs : Ext2FsT} {inodeNo sectors : Nat}

theorem Geometry.blockSize_eq (hg : fs.Geometry) :
    fs.sb.blockSize = 512 * (2 * 2 ^ fs.sb.blockSizeLog.toNat) ∧ fs.sb.blockSize < 2 ^ 31 := by
  have hall : ∀ n ≤ 20, (((0x400#32) <<< n).signExtend 64).toNat = 512 * (2 * 2 ^ n) ∧
      (((0x400#32) <<< n).signExtend 64).toNat < 2 ^ 31 := by decide
  exact hall _ hg.blockSizeLog_le

/-- The sector that `fetch_inode` reads. -/
def copySector (fs : Ext2FsT) (inodeNo : Nat) : Nat :=
  fs.bgInodeTable ((inodeNo - 1) / fs.sb.inodesPerGroup.toNat) * fs.sb.blockSize / 512 +
    (inodeNo - 1) % fs.sb.inodesPerGroup.toNat / (512 / fs.sb.sizeOfInode)

/-- The table of the inodes of a group starts with a sector. -/
theorem Geometry.table_sectors (hg : fs.Geometry) (group : Nat) :
    fs.bgInodeTable group * fs.sb.blockSize / 512 * 512 =
        fs.bgInodeTable group * fs.sb.blockSize ∧
      fs.bgInodeTable group * fs.sb.blockSize ≤ 2 ^ 63 := by
  obtain ⟨hbs, hbs31⟩ := hg.blockSize_eq
  have htable : fs.bgInodeTable group < 2 ^ 32 := load_lt _ _ 4
  exact ⟨Nat.div_mul_cancel (Dvd.dvd.mul_left (Dvd.intro _ hbs.symm) _),
    (Nat.mul_le_mul htable.le hbs31.le).trans (by norm_num)⟩

theorem Geometry.copyPos_eq (hg : fs.Geometry) (inodeNo : Nat) :
    fs.copyPos inodeNo =
      fs.copySector inodeNo * 512 + 128 * ((inodeNo - 1) % (512 / fs.sb.sizeOfInode)) := by
  obtain ⟨hsectors, -⟩ := hg.table_sectors ((inodeNo - 1) / fs.sb.inodesPerGroup.toNat)
  rw [copyPos, copySector, Nat.add_mul, hsectors]

/-- It is where the inode is. -/
theorem Geometry.copySector_lt (hg : fs.Geometry)
    (hdisk : fs.inodePos inodeNo + fs.sb.sizeOfInode ≤ sectors * 512) :
    fs.copySector inodeNo < sectors := by
  obtain ⟨hsectors, -⟩ := hg.table_sectors ((inodeNo - 1) / fs.sb.inodesPerGroup.toNat)
  have hge := hg.inodeSize_ge
  rw [fs.inodePos_eq hg.inodeSize_dvd, ← hsectors, ← Nat.add_mul] at hdisk
  refine Nat.lt_of_mul_lt_mul_right (a := 512) ?_
  rw [copySector]
  omega

theorem Geometry.copySector_word (hg : fs.Geometry) (hn : inodeNo ≤ fs.sb.totalInodes.toNat) :
    fs.copySector inodeNo * 512 < word := by
  obtain ⟨hsectors, hle⟩ := hg.table_sectors ((inodeNo - 1) / fs.sb.inodesPerGroup.toNat)
  have htotal := fs.sb.totalInodes.toNat_lt
  have hplace : (inodeNo - 1) % fs.sb.inodesPerGroup.toNat / (512 / fs.sb.sizeOfInode) ≤
      inodeNo - 1 := (Nat.div_le_self _ _).trans (Nat.mod_le _ _)
  rw [copySector, Nat.add_mul, hsectors]
  simp only [word]
  omega

/-- At most four inodes are in a sector. -/
theorem Geometry.slot_lt (hg : fs.Geometry) (place : Nat) :
    place % (512 / fs.sb.sizeOfInode) < 4 := by
  have hle : fs.sb.sizeOfInode ≤ 512 := Nat.le_of_dvd (by decide) hg.inodeSize_dvd
  have hpos : 0 < 512 / fs.sb.sizeOfInode :=
    Nat.div_pos hle (Nat.lt_of_lt_of_le (by decide) hg.inodeSize_ge)
  have hper : 512 / fs.sb.sizeOfInode ≤ 512 / 128 := Nat.div_le_div_left hg.inodeSize_ge (by decide)
  exact Nat.lt_of_lt_of_le (Nat.mod_lt _ hpos) hper

/-- No check of `fetch_inode` fails, and no number is cut off. -/
theorem fetchInode_reads (hg : fs.Geometry) (hone : 1 ≤ inodeNo)
    (hn : inodeNo ≤ fs.sb.totalInodes.toNat) (log : List DevRead) (left inode : Mem) :
    fs.fetchInode log inodeNo left inode =
      let r := getBlock fs.mount log left (fs.copySector inodeNo) 1
      if r.1 = false then .ret (-eio, inode, r.2.2)
      else .ret (0, memcpyFrom inode r.2.1 0
        (128 * ((inodeNo - 1) % (512 / fs.sb.sizeOfInode))) 128, r.2.2) := by
  have htotal := fs.sb.totalInodes.toNat_lt
  have hindex : wrap64 (inodeNo + word - 1) = inodeNo - 1 := by
    simp only [wrap64, word]
    omega
  have hgroup : ¬ fs.sb.gdCount ≤ (inodeNo - 1) / fs.sb.inodesPerGroup.toNat := by
    refine Nat.not_le.mpr ((Nat.div_lt_iff_lt_mul hg.inodesPerGroup_pos).mpr ?_)
    exact Nat.lt_of_lt_of_le (by omega) hg.groups
  have hinode : ¬ (fs.sb.sizeOfInode = 0 ∨ 512 / fs.sb.sizeOfInode = 0) := by
    have hle : fs.sb.sizeOfInode ≤ 512 := Nat.le_of_dvd (by decide) hg.inodeSize_dvd
    have hge := hg.inodeSize_ge
    rw [Nat.div_eq_zero_iff]
    omega
  obtain ⟨-, htable⟩ := hg.table_sectors ((inodeNo - 1) / fs.sb.inodesPerGroup.toNat)
  have hlba : wrap64 ((inodeNo - 1) % fs.sb.inodesPerGroup.toNat / (512 / fs.sb.sizeOfInode) +
      wrap64 (fs.bgInodeTable ((inodeNo - 1) / fs.sb.inodesPerGroup.toNat) * fs.sb.blockSize) /
        512) = fs.copySector inodeNo := by
    have hsector := hg.copySector_word hn
    rw [wrap64_of_lt (Nat.lt_of_le_of_lt htable (by norm_num [word])), Nat.add_comm, ← copySector]
    exact wrap64_of_lt (by omega)
  rw [Ext2FsT.fetchInode, if_neg (Nat.not_lt.mpr hn), if_neg hg.inodesPerGroup_pos.ne',
    if_neg hinode, hindex, if_neg hgroup]
  simp only [hlba]

/-- What `fetch_inode` copies. -/
theorem fetchInode_ret (hg : fs.Geometry) (hone : 1 ≤ inodeNo)
    (hn : inodeNo ≤ fs.sb.totalInodes.toNat)
    (hdisk : fs.inodePos inodeNo + fs.sb.sizeOfInode ≤ sectors * 512) {disk : Mem}
    (hdev : fs.dev.Delivers disk sectors) (log : List DevRead) (left inode : Mem) :
    ∃ inode' log', fs.fetchInode log inodeNo left inode = .ret (0, inode', log') ∧
      ∀ i < 128, inode' i = disk (fs.copyPos inodeNo + i) := by
  obtain ⟨m, log', hread, hdata⟩ := Device.Delivers.getBlock fs.mount hdev (fs.copySector inodeNo)
    (hg.copySector_lt hdisk) (hg.copySector_word hn) log left
  refine ⟨memcpyFrom inode m 0 (128 * ((inodeNo - 1) % (512 / fs.sb.sizeOfInode))) 128, log', ?_,
    fun i hi => ?_⟩
  · rw [fetchInode_reads hg hone hn, hread]
    rfl
  · have hslot := hg.slot_lt (inodeNo - 1)
    rw [memcpyFrom, if_pos (by omega), hdata _ (by omega), hg.copyPos_eq, Nat.sub_zero,
      Nat.add_assoc]

/-- The inode is copied if it is where `fetch_inode` looks for it. -/
theorem inodeCopied_iff (hg : fs.Geometry) (hone : 1 ≤ inodeNo)
    (hn : inodeNo ≤ fs.sb.totalInodes.toNat)
    (hdisk : fs.inodePos inodeNo + fs.sb.sizeOfInode ≤ sectors * 512) :
    fs.InodeCopied inodeNo sectors ↔ fs.copyPos inodeNo = fs.inodePos inodeNo := by
  have hg' : ∀ dev : Device, ({ fs with dev := dev } : Ext2FsT).Geometry := fun _ =>
    ⟨hg.inodeSize_ge, hg.inodeSize_dvd, hg.inodesPerGroup_pos, hg.blockSizeLog_le, hg.groups⟩
  constructor
  · intro h
    -- a disk with one byte that is not zero, the first one of the inode
    obtain ⟨disk, hfirst, hzero⟩ : ∃ disk : Mem, disk (fs.inodePos inodeNo) = 1 ∧
        ∀ a, a ≠ fs.inodePos inodeNo → disk a = 0 :=
      ⟨fun a => if a = fs.inodePos inodeNo then 1 else 0, if_pos rfl, fun a ha => if_neg ha⟩
    have hdev := diskDevice_delivers disk sectors
    obtain ⟨inode1, log1, hret1, hdata1⟩ := h _ disk hdev [] (fun _ => 0) (fun _ => 0)
    obtain ⟨inode2, log2, hret2, hdata2⟩ := fetchInode_ret (hg' (diskDevice disk)) hone hn
      hdisk hdev [] (fun _ => 0) (fun _ => 0)
    rw [hret1] at hret2
    cases hret2
    by_contra hne
    have hbyte := (hdata2 0 (by decide)).symm.trans (hdata1 0 (by decide))
    have hcopied : disk (fs.copyPos inodeNo) = 1 := hbyte.trans hfirst
    rw [hzero _ hne] at hcopied
    cases hcopied
  · intro heq dev disk hdev log left inode
    rw [← heq]
    exact fetchInode_ret (hg' dev) hone hn hdisk hdev log left inode

/-- **Where `fetch_inode` finds an inode.**  For every geometry, table of group descriptors and
inode number, it copies the inode that is stored in the table of the group exactly if steps of
128 bytes by the inode number lead to where steps of the size of an inode lead by the place in
the group. -/
theorem fetch_inode_iff (hg : fs.Geometry) (hone : 1 ≤ inodeNo)
    (hn : inodeNo ≤ fs.sb.totalInodes.toNat)
    (hdisk : fs.inodePos inodeNo + fs.sb.sizeOfInode ≤ sectors * 512) :
    fs.InodeCopied inodeNo sectors ↔
      128 * ((inodeNo - 1) % (512 / fs.sb.sizeOfInode)) =
        fs.sb.sizeOfInode *
          ((inodeNo - 1) % fs.sb.inodesPerGroup.toNat % (512 / fs.sb.sizeOfInode)) := by
  rw [inodeCopied_iff hg hone hn hdisk, inodePos_eq fs hg.inodeSize_dvd, copyPos]
  exact Nat.add_left_cancel_iff

end Ext2FsT

/-- A group of 16 inodes of 256 bytes each, with the table in block 5. -/
def largeInodes : Ext2FsT where
  dev := diskDevice fun _ => 0
  sb :=
    { totalInodes := 16, totalBlocks := 64, blockSizeLog := 0, blocksPerGroup := 64
      inodesPerGroup := 16, signature := 0xef53, majorVersion := 1, inodeSize := 256 }
  groupDescriptors := fun a => if a = 8 then 5 else 0

theorem largeInodes_geometry : largeInodes.Geometry :=
  ⟨by decide, by decide, by decide, by decide, by decide⟩

theorem fetch_inode_third : largeInodes.InodeCopied 3 128 :=
  (Ext2FsT.fetch_inode_iff largeInodes_geometry (by decide) (by decide) (by decide)).mpr (by decide)

/-- The second inode, that of the root directory, is looked for 128 bytes behind the first
one. -/
theorem root_inode_missed : ¬ ∀ (fs : Ext2FsT) (inodeNo sectors : Nat), fs.Geometry →
    1 ≤ inodeNo → inodeNo ≤ fs.sb.totalInodes.toNat →
    fs.inodePos inodeNo + fs.sb.sizeOfInode ≤ sectors * 512 → fs.InodeCopied inodeNo sectors := by
  intro h
  have hcopied := h largeInodes 2 128 largeInodes_geometry (by decide) (by decide) (by decide)
  rw [Ext2FsT.inodeCopied_iff largeInodes_geometry (by decide) (by decide) (by decide)] at hcopied
  revert hcopied
  decide

end UlmerOS.Ext2
