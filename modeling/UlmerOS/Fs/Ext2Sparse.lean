import UlmerOS.Fs.Ext2Read

/-!
# Holes in a file

A block pointer of 0 says that there is no block, and such a part of a file is full of
zeros.  `ext2_get_file_block` returns the 0 like any other number, and takes a block of
pointers from block 0 as well if the pointer to it is 0.  So a hole reads as whatever is
there, and as zeros only if that is zeros (`sparse_read_iff`).
-/

namespace UlmerOS.Ext2

open ByteMem

section

variable (disk : Mem) (blockSize : Nat) (inode : Inode)

/-- The position is in a block that is not allocated: the pointer to the block is 0, or that to
the block of pointers. -/
def Hole (b : Nat) : Prop :=
  (12 ≤ b / blockSize ∧ inode.indirect = 0) ∨ blockPtr disk blockSize inode (b / blockSize) = 0

instance (b : Nat) : Decidable (Hole disk blockSize inode b) :=
  inferInstanceAs (Decidable (_ ∨ _))

/-- A byte of a file with holes. -/
def sparseByte (b : Nat) : UInt8 :=
  if Hole disk blockSize inode b then 0 else fileByte disk blockSize inode b

end

/-- The blocks of a file that are allocated lie on the device. -/
structure PartlyAllocated (disk : Mem) (sectors blockSize : Nat) (inode : Inode) (length : Nat) :
    Prop where
  data : ∀ b < length, b / blockSize < 12 + blockSize / 4 → ¬ Hole disk blockSize inode b →
    OnDevice sectors blockSize (blockPtr disk blockSize inode (b / blockSize))
  indirect : 12 * blockSize < length → inode.indirect ≠ 0 →
    OnDevice sectors blockSize inode.indirect.toNat

/-- Every read in the file delivers what a file with holes is. -/
def ReadsSparse (fs : Ext2Fs) (disk : Mem) (inode : Inode) (length : Nat) : Prop :=
  ∀ (left buffer : Mem) (len offset : Nat), offset ≤ length → offset + len < word →
    offset + min len (length - offset) ≤ (12 + fs.blockSize / 4) * fs.blockSize →
    ∃ buffer', ext2Read fs inode length left buffer len offset =
        .ret (.bytes (min len (length - offset)), buffer') ∧
      ∀ i < min len (length - offset),
        buffer' i = sparseByte disk fs.blockSize inode (offset + i)

/-- The blocks that are read for a position are there, and the byte is 0. -/
structure ReadsZero (disk : Mem) (sectors blockSize : Nat) (inode : Inode) (b : Nat) : Prop where
  pointers : 12 ≤ b / blockSize → OnDevice sectors blockSize inode.indirect.toNat
  data : OnDevice sectors blockSize (blockPtr disk blockSize inode (b / blockSize))
  zero : fileByte disk blockSize inode b = 0

/-- The blocks that are read for a position lie on the device. -/
structure Backed (disk : Mem) (sectors blockSize : Nat) (inode : Inode) (b : Nat) : Prop where
  pointers : 12 ≤ b / blockSize → OnDevice sectors blockSize inode.indirect.toNat
  data : OnDevice sectors blockSize (blockPtr disk blockSize inode (b / blockSize))

/-! ## A device that ends -/

/-- A device from which nothing is read behind its end. -/
def endingRead (disk : Mem) (sectors : Nat) : VfsRead := fun off size =>
  if off + size ≤ sectors * 512 then (size, fun i => disk (off + i)) else (0, fun _ => 0)

theorem endingRead_delivers (disk : Mem) (sectors : Nat) :
    Delivers (endingRead disk sectors) disk sectors := by
  intro lba count hfit
  have hsize : lba * 512 + count * 512 ≤ sectors * 512 := by
    rw [← Nat.add_mul]
    exact Nat.mul_le_mul_right 512 hfit
  rw [endingRead, if_pos hsize]
  exact ⟨rfl, fun _ _ => rfl⟩

section

variable {fs : Ext2Fs} {disk : Mem} {sectors : Nat} {inode : Inode} {length b : Nat}

/-- A round fails with the read of its block. -/
theorem ext2ReadBlock_fails (hb : b < word) {left m : Mem} {blockNo : Nat}
    (hfile : ext2GetFileBlock fs inode left (b / fs.blockSize) = .ret (blockNo, m))
    (hfail : (ext2GetBlock fs m (wrap64 (blockNo * fs.blockSize) / 512)
      (fs.blockSize / 512)).1 = false) (buffer : Mem) (n : Nat) :
    ∃ st, ext2ReadBlock fs inode b n ⟨0, left, buffer⟩ = .ret (false, st) := by
  rw [ext2ReadBlock]
  simp only [Nat.add_zero, wrap64_of_lt hb, hfile, Outcome.ret_bind, hfail, if_true]
  exact ⟨_, rfl⟩

variable (hbs : fs.blockSize < 2 ^ 31) (hread : fs.read = endingRead disk sectors)
include hbs hread

/-- It notices reads that go on behind the end. -/
theorem ext2GetBlock_behind (buffer : Mem) {lba : Nat} (hlba : lba * 512 < word)
    (h : sectors * 512 < lba * 512 + fs.blockSize) :
    ext2GetBlock fs buffer lba (fs.blockSize / 512) =
      (false, overlay buffer (fun _ => 0) fs.blockSize) := by
  have hsize : wrap64 (fs.blockSize / 512 * 512) = fs.blockSize := by
    rw [fs.sectors_mul]
    exact wrap64_of_lt (Nat.lt_trans hbs (by norm_num [word]))
  have hnone : fs.read (lba * 512) fs.blockSize = (0, fun _ => 0) := by
    rw [hread, endingRead, if_neg (Nat.not_le.mpr h)]
  simp only [ext2GetBlock, hsize, wrap64_of_lt hlba, hnone, fs.blockSize_pos, decide_true,
    Bool.not_true]

/-- A round fails if its block is behind the end. -/
theorem ext2ReadBlock_noData (hb : b < word) (hlimit : b / fs.blockSize < 12 + fs.blockSize / 4)
    (hpointers : 12 ≤ b / fs.blockSize → OnDevice sectors fs.blockSize inode.indirect.toNat)
    (hdata : ¬ OnDevice sectors fs.blockSize
      (blockPtr disk fs.blockSize inode (b / fs.blockSize))) (left buffer : Mem) (n : Nat) :
    ∃ st, ext2ReadBlock fs inode b n ⟨0, left, buffer⟩ = .ret (false, st) := by
  have hdev : Delivers fs.read disk sectors := hread ▸ endingRead_delivers disk sectors
  have hptr := blockPtr_lt disk fs.blockSize inode (b / fs.blockSize)
  obtain ⟨m, hm⟩ := ext2GetFileBlock_eq hbs hdev hlimit hpointers left
  refine ext2ReadBlock_fails hb hm ?_ buffer n
  generalize blockPtr disk fs.blockSize inode (b / fs.blockSize) = block at hdata hptr
  have hlba : block * (fs.blockSize / 512) * 512 = block * fs.blockSize := by
    rw [Nat.mul_assoc, fs.sectors_mul]
  rw [fs.lba_eq hptr hbs, ext2GetBlock_behind hbs hread m (hlba ▸ mul_blockSize_lt hptr hbs)]
  rw [hlba, ← Nat.succ_mul]
  exact Nat.not_le.mp hdata

/-- A round fails if it takes its pointers from block 0 and not even that is there: the number of
its block is then -1. -/
theorem ext2ReadBlock_noPointers (hb : b < word)
    (hlimit : b / fs.blockSize < 12 + fs.blockSize / 4) (hindirect : 12 ≤ b / fs.blockSize)
    (hzero : inode.indirect = 0) (hshort : sectors * 512 < fs.blockSize) (left buffer : Mem)
    (n : Nat) : ∃ st, ext2ReadBlock fs inode b n ⟨0, left, buffer⟩ = .ret (false, st) := by
  have hbehind : ∀ (m : Mem) (lba : Nat), lba * 512 < word →
      ext2GetBlock fs m lba (fs.blockSize / 512) =
        (false, overlay m (fun _ => 0) fs.blockSize) := fun m lba hlba =>
    ext2GetBlock_behind hbs hread m hlba (Nat.lt_add_left _ hshort)
  have hwrap : wrap64 (12 + fs.blockSize / 4) = 12 + fs.blockSize / 4 :=
    wrap64_of_lt (by unfold word; omega)
  have hfirst : wrap64 ((0 : UInt32).toNat * (fs.blockSize / 512)) = 0 := by
    rw [UInt32.toNat_zero, Nat.zero_mul]
    rfl
  have hfile : ext2GetFileBlock fs inode left (b / fs.blockSize) =
      .ret (minusOne, overlay left (fun _ => 0) fs.blockSize) := by
    rw [ext2GetFileBlock, dif_neg (Nat.not_lt.mpr hindirect), hwrap, if_pos hlimit]
    simp only [hzero, hfirst, hbehind left 0 (by decide), if_true]
  refine ext2ReadBlock_fails hb hfile ?_ buffer n
  have hle := Nat.div_mul_le_self (wrap64 (minusOne * fs.blockSize)) 512
  rw [hbehind _ _ (Nat.lt_of_le_of_lt hle (wrap64_lt _))]

/-- A round fails if one of the blocks it reads is behind the end. -/
theorem ext2ReadBlock_behind (hb : b < word) (hlimit : b / fs.blockSize < 12 + fs.blockSize / 4)
    (hpart : 12 ≤ b / fs.blockSize → inode.indirect ≠ 0 →
      OnDevice sectors fs.blockSize inode.indirect.toNat)
    (hoff : ¬ Backed disk sectors fs.blockSize inode b) (left buffer : Mem) (n : Nat) :
    ∃ st, ext2ReadBlock fs inode b n ⟨0, left, buffer⟩ = .ret (false, st) := by
  by_cases hpointers : 12 ≤ b / fs.blockSize →
      OnDevice sectors fs.blockSize inode.indirect.toNat
  · exact ext2ReadBlock_noData hbs hread hb hlimit hpointers (fun h => hoff ⟨hpointers, h⟩) left
      buffer n
  · obtain ⟨hindirect, hnone⟩ := Classical.not_imp.mp hpointers
    have hzero : inode.indirect = 0 := by
      by_contra hne
      exact hnone (hpart hindirect hne)
    have hshort : sectors * 512 < fs.blockSize := by
      rw [hzero] at hnone
      simpa [OnDevice] using hnone
    exact ext2ReadBlock_noPointers hbs hread hb hlimit hindirect hzero hshort left buffer n

/-- If a byte of the file can be read, the blocks that it takes are there. -/
theorem backed_of_read (hlength : length < word)
    (hpart : PartlyAllocated disk sectors fs.blockSize inode length) (hb : b < length)
    (hlimit : b / fs.blockSize < 12 + fs.blockSize / 4) {left buffer buffer' : Mem} {n : Nat}
    (h : ext2Read fs inode length left buffer 1 b = .ret (.bytes n, buffer')) :
    Backed disk sectors fs.blockSize inode b := by
  by_contra hoff
  have hreach : 12 ≤ b / fs.blockSize → 12 * fs.blockSize < length := fun h12 =>
    Nat.lt_of_le_of_lt ((Nat.le_div_iff_mul_le fs.blockSize_pos).mp h12) hb
  obtain ⟨st, hround⟩ := ext2ReadBlock_behind hbs hread (hb.trans hlength) hlimit
    (fun h12 => hpart.indirect (hreach h12)) hoff left buffer 1
  have hone : ¬ length < wrap64 (b + 1) := by
    rw [wrap64_of_lt (by omega)]
    omega
  have hloop : ext2ReadLoop fs inode b 1 (1 + 1) ⟨0, left, buffer⟩ = .ret (false, st) := by
    rw [ext2ReadLoop, if_pos Nat.one_pos, hround]
    rfl
  rw [ext2Read] at h
  simp only [if_neg hone, hloop, Outcome.ret_bind] at h
  cases h

end

/-! ## Reads with holes -/

section

variable {fs : Ext2Fs} {disk : Mem} {sectors : Nat} {inode : Inode} {length : Nat}

/-- If the blocks that are read for holes are there, all blocks that are read are. -/
theorem PartlyAllocated.allocated
    (hpart : PartlyAllocated disk sectors fs.blockSize inode length)
    (hholes : ∀ b < length, b / fs.blockSize < 12 + fs.blockSize / 4 →
      Hole disk fs.blockSize inode b → Backed disk sectors fs.blockSize inode b) :
    Allocated disk sectors fs.blockSize inode length := by
  have hpos := fs.blockSize_pos
  constructor
  · intro i hi hlt
    have hdiv : i * fs.blockSize / fs.blockSize = i := Nat.mul_div_cancel i hpos
    have hdata : OnDevice sectors fs.blockSize
        (blockPtr disk fs.blockSize inode (i * fs.blockSize / fs.blockSize)) := by
      by_cases hhole : Hole disk fs.blockSize inode (i * fs.blockSize)
      · exact (hholes (i * fs.blockSize) hlt (hdiv.symm ▸ hi) hhole).data
      · exact hpart.data (i * fs.blockSize) hlt (hdiv.symm ▸ hi) hhole
    rwa [hdiv] at hdata
  · intro hlt
    have hdiv : 12 * fs.blockSize / fs.blockSize = 12 := Nat.mul_div_cancel 12 hpos
    have hfour : 0 < fs.blockSize / 4 := by
      rw [fs.blockSize_eq]
      have := Nat.two_pow_pos fs.blockSizeLog
      omega
    by_cases hnone : inode.indirect = 0
    · have hle : 12 ≤ 12 * fs.blockSize / fs.blockSize := hdiv.ge
      exact (hholes (12 * fs.blockSize) hlt (by omega) (.inl ⟨hle, hnone⟩)).pointers hle
    · exact hpart.indirect hlt hnone

/-- A byte that is read is that of the file, hole or not. -/
theorem fileByte_of_read (hbs : fs.blockSize < 2 ^ 31) (hdev : Delivers fs.read disk sectors)
    (halloc : Allocated disk sectors fs.blockSize inode length) (hlength : length < word)
    {b : Nat} (hb : b < length) (hlimit : b / fs.blockSize < 12 + fs.blockSize / 4)
    {left buffer buffer' : Mem} {n : Nat}
    (h : ext2Read fs inode length left buffer 1 b = .ret (.bytes n, buffer')) :
    buffer' 0 = fileByte disk fs.blockSize inode b := by
  have hone : min 1 (length - b) = 1 := Nat.min_eq_left (Nat.sub_pos_of_lt hb)
  have hrange : b + min 1 (length - b) ≤ (12 + fs.blockSize / 4) * fs.blockSize := by
    rw [hone]
    exact (Nat.div_lt_iff_lt_mul fs.blockSize_pos).mp hlimit
  obtain ⟨_, _, hret, hfilled⟩ := ext2Read_filled left buffer hbs hdev halloc hlength hb.le
    (show b + 1 < word from Nat.lt_of_le_of_lt hb hlength) hrange
  rw [hret] at h
  cases h
  exact hfilled.filled 0 (Nat.lt_of_lt_of_eq Nat.one_pos hone.symm)

/-- A device that ends shows what the holes of a file are. -/
theorem ReadsSparse.zero (h : ReadsSparse fs disk inode length) (hbs : fs.blockSize < 2 ^ 31)
    (hread : fs.read = endingRead disk sectors) (hlength : length < word)
    (hpart : PartlyAllocated disk sectors fs.blockSize inode length) :
    ∀ b < length, b / fs.blockSize < 12 + fs.blockSize / 4 → Hole disk fs.blockSize inode b →
      ReadsZero disk sectors fs.blockSize inode b := by
  -- a byte at a time
  have hone : ∀ b < length, b / fs.blockSize < 12 + fs.blockSize / 4 →
      ∃ buffer', ext2Read fs inode length (fun _ => 0) (fun _ => 0) 1 b =
        .ret (.bytes 1, buffer') ∧ buffer' 0 = sparseByte disk fs.blockSize inode b := by
    intro b hb hlimit
    have hmin : min 1 (length - b) = 1 := Nat.min_eq_left (Nat.sub_pos_of_lt hb)
    have hrange := (Nat.div_lt_iff_lt_mul fs.blockSize_pos).mp hlimit
    have hbyte := h (fun _ => 0) (fun _ => 0) 1 b hb.le (Nat.lt_of_le_of_lt hb hlength)
    rw [hmin] at hbyte
    obtain ⟨buffer', hret, hdata⟩ := hbyte hrange
    exact ⟨buffer', hret, hdata 0 Nat.one_pos⟩
  have hbacked : ∀ b < length, b / fs.blockSize < 12 + fs.blockSize / 4 →
      Backed disk sectors fs.blockSize inode b := by
    intro b hb hlimit
    obtain ⟨buffer', hret, -⟩ := hone b hb hlimit
    exact backed_of_read hbs hread hlength hpart hb hlimit hret
  have hdev : Delivers fs.read disk sectors := hread ▸ endingRead_delivers disk sectors
  have halloc := hpart.allocated fun b hb hlimit _ => hbacked b hb hlimit
  intro b hb hlimit hhole
  obtain ⟨buffer', hret, hbyte⟩ := hone b hb hlimit
  have hfile := fileByte_of_read hbs hdev halloc hlength hb hlimit hret
  rw [sparseByte, if_pos hhole] at hbyte
  exact ⟨(hbacked b hb hlimit).pointers, (hbacked b hb hlimit).data, hfile.symm.trans hbyte⟩

/-- If there are zeros for all holes, reads are as they should be. -/
theorem readsSparse_of_zero (hbs : fs.blockSize < 2 ^ 31) (hdev : Delivers fs.read disk sectors)
    (hlength : length < word) (hpart : PartlyAllocated disk sectors fs.blockSize inode length)
    (h : ∀ b < length, b / fs.blockSize < 12 + fs.blockSize / 4 →
      Hole disk fs.blockSize inode b → ReadsZero disk sectors fs.blockSize inode b) :
    ReadsSparse fs disk inode length := by
  intro left buffer len offset hoffset hsum hrange
  have halloc := hpart.allocated fun b hb hlimit hhole =>
    ⟨(h b hb hlimit hhole).pointers, (h b hb hlimit hhole).data⟩
  obtain ⟨_, buffer', hret, hfilled⟩ :=
    ext2Read_filled left buffer hbs hdev halloc hlength hoffset hsum hrange
  refine ⟨buffer', hret, fun i hi => (hfilled.filled i hi).trans ?_⟩
  rw [sparseByte]
  split
  next hhole =>
    refine (h (offset + i) (by omega) ?_ hhole).zero
    exact (Nat.div_lt_iff_lt_mul fs.blockSize_pos).mpr (by omega)
  next => rfl

/-- **When holes read as zeros.**  For every file whose allocated blocks lie on the device, all
reads deliver zeros in the holes and the data elsewhere, whatever the device does behind its
end, exactly if for every position in a hole the blocks that are taken instead lie on the
device too and have a 0 there. -/
theorem sparse_read_iff (hbs : fs.blockSize < 2 ^ 31) (hlength : length < word)
    (hpart : PartlyAllocated disk sectors fs.blockSize inode length) :
    (∀ read : VfsRead, Delivers read disk sectors →
      ReadsSparse { fs with read := read } disk inode length) ↔
      ∀ b < length, b / fs.blockSize < 12 + fs.blockSize / 4 → Hole disk fs.blockSize inode b →
        ReadsZero disk sectors fs.blockSize inode b := by
  constructor
  · intro h
    exact (h _ (endingRead_delivers disk sectors)).zero hbs rfl hlength hpart
  · intro h read hdev
    exact readsSparse_of_zero hbs hdev hlength hpart h

end

/-- The inode of a file with a hole, a block of data and a hole behind it. -/
def sparseInode : Inode := ⟨#v[0, 1, 0, 0, 0, 0, 0, 0, 0, 0, 0, 0, 0, 0, 0]⟩

theorem sparseInode_allocated (disk : Mem) : PartlyAllocated disk 64 1024 sparseInode 3072 := by
  have hall : ∀ i < 3, OnDevice 64 1024 (blockPtr disk 1024 sparseInode i) := by
    intro i hi
    obtain rfl | rfl | rfl : i = 0 ∨ i = 1 ∨ i = 2 := by omega
    · exact (by decide : OnDevice 64 1024 0)
    · exact (by decide : OnDevice 64 1024 1)
    · exact (by decide : OnDevice 64 1024 0)
  exact ⟨fun b hb _ _ => hall _ (by omega), fun hlt => absurd hlt (by decide)⟩

/-- It is read as it should be if block 0 is full of zeros. -/
theorem sparse_read_zeros :
    ReadsSparse { smallFs with read := endingRead (fun a => if a < 1024 then 0 else 1) 64 }
      (fun a => if a < 1024 then 0 else 1) sparseInode 3072 := by
  refine (sparse_read_iff (show smallFs.blockSize < 2 ^ 31 by decide) (by decide)
    (sparseInode_allocated _)).mpr (fun b hb hlimit hhole => ?_) _ (endingRead_delivers _ 64)
  have hdirect : b / smallFs.blockSize < 12 := by
    show b / 1024 < 12
    omega
  have hptr := hhole.resolve_left fun h => Nat.not_le.mpr hdirect h.1
  refine ⟨fun h => absurd hdirect (Nat.not_lt.mpr h), ?_, ?_⟩
  · rw [hptr]
    decide
  · rw [fileByte, hptr, Nat.zero_mul, Nat.zero_add]
    exact if_pos (Nat.mod_lt b (by decide : 0 < 1024))

/-- The first byte of a file that starts with a hole is the first one of the disk. -/
theorem hole_reads_first_block : ¬ ∀ (fs : Ext2Fs) (disk : Mem) (sectors : Nat) (inode : Inode)
    (length : Nat), fs.blockSize < 2 ^ 31 → length < word →
    PartlyAllocated disk sectors fs.blockSize inode length → Delivers fs.read disk sectors →
    ReadsSparse fs disk inode length := by
  intro h
  have hsparse := h { smallFs with read := endingRead smallDisk 64 } smallDisk 64 sparseInode 3072
    (by decide) (by decide) (sparseInode_allocated _) (endingRead_delivers _ _)
  have hzero := hsparse.zero (by decide) rfl (by decide) (sparseInode_allocated _) 0 (by decide)
    (by decide) (.inr rfl)
  exact absurd hzero.zero (by decide)

end UlmerOS.Ext2
