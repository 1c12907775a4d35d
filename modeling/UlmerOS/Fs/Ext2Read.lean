import UlmerOS.Fs.Ext2

/-!
# The bytes read are those of the file

The invariant of the loop of `ext2_read` is `Filled`.  The bytes up to `bytes_read` are those
of the file, and unless the read is complete the next one is the first of a block, except in
the first round.  So in every round the bytes copied start at `(offset + bytes_read) %
block_size` in the block (`copySize_eq`), although the source computes that only once.

The shift `0x400 << block_size_log` is one of `int`, so a block has less than `2^31` bytes.
Then a file that needs no more than single indirection has less than `2^62`, and no sum of
the loop wraps.
-/

namespace UlmerOS.Ext2

open ByteMem

/-! ## Sizes -/

theorem Ext2Fs.blockSize_eq (fs : Ext2Fs) : fs.blockSize = 512 * (2 * 2 ^ fs.blockSizeLog) := by
  rw [blockSize, Nat.shiftLeft_eq, ← Nat.mul_assoc]

theorem Ext2Fs.blockSize_pos (fs : Ext2Fs) : 0 < fs.blockSize := by
  rw [blockSize_eq]
  positivity

theorem Ext2Fs.sectors_mul (fs : Ext2Fs) : fs.blockSize / 512 * 512 = fs.blockSize := by
  rw [blockSize_eq, Nat.mul_div_cancel_left _ (by norm_num), Nat.mul_comm]

/-- A file without double indirection is far from the end of a word. -/
theorem singleIndirect_lt {bs : Nat} (h : bs < 2 ^ 31) : (12 + bs / 4) * bs < 2 ^ 62 := by
  have h1 : 12 + bs / 4 ≤ 2 ^ 30 := by omega
  calc (12 + bs / 4) * bs ≤ 2 ^ 30 * 2 ^ 31 := Nat.mul_le_mul h1 h.le
    _ < 2 ^ 62 := by norm_num

theorem blockPtr_lt (disk : Mem) (bs : Nat) (inode : Inode) (index : Nat) :
    blockPtr disk bs inode index < 2 ^ 32 := by
  unfold blockPtr
  split
  · exact UInt32.toNat_lt _
  · exact load_lt disk _ 4

theorem mul_blockSize_lt {block bs : Nat} (h : block < 2 ^ 32) (hbs : bs < 2 ^ 31) :
    block * bs < word := by
  calc block * bs ≤ 2 ^ 32 * 2 ^ 31 := Nat.mul_le_mul h.le hbs.le
    _ < word := by norm_num [word]

/-- The first sector of a block. -/
theorem Ext2Fs.lba_eq (fs : Ext2Fs) {block : Nat} (h : block < 2 ^ 32)
    (hbs : fs.blockSize < 2 ^ 31) :
    wrap64 (block * fs.blockSize) / 512 = block * (fs.blockSize / 512) := by
  have hmul : block * fs.blockSize = block * (fs.blockSize / 512) * 512 := by
    rw [Nat.mul_assoc, fs.sectors_mul]
  rw [wrap64_of_lt (mul_blockSize_lt h hbs), hmul, Nat.mul_div_cancel _ (by norm_num)]

/-! ## Blocks -/

section

variable {fs : Ext2Fs} {disk : Mem} {sectors : Nat} (hbs : fs.blockSize < 2 ^ 31)
  (hdev : Delivers fs.read disk sectors)
include hbs hdev

/-- Reading a block of the device. -/
theorem ext2GetBlock_eq {block : Nat} (hb : block < 2 ^ 32)
    (hon : OnDevice sectors fs.blockSize block) (buffer : Mem) :
    ∃ m, ext2GetBlock fs buffer (block * (fs.blockSize / 512)) (fs.blockSize / 512) = (true, m) ∧
      ∀ i < fs.blockSize, m i = disk (block * fs.blockSize + i) := by
  have hs := fs.sectors_mul
  have hlba : block * (fs.blockSize / 512) * 512 = block * fs.blockSize := by
    rw [Nat.mul_assoc, hs]
  have hfit : block * (fs.blockSize / 512) + fs.blockSize / 512 ≤ sectors := by
    refine Nat.le_of_mul_le_mul_right (c := 512) ?_ (by norm_num)
    rw [Nat.add_mul, hlba, hs, ← Nat.succ_mul]
    exact hon
  obtain ⟨hret, hdata⟩ := hdev _ _ hfit
  rw [hlba, hs] at hret hdata
  unfold ext2GetBlock
  rw [hlba, hs, wrap64_of_lt (mul_blockSize_lt hb hbs),
    wrap64_of_lt (Nat.lt_trans hbs (by norm_num [word]))]
  refine ⟨overlay buffer (fs.read (block * fs.blockSize) fs.blockSize).2 fs.blockSize, ?_, ?_⟩
  · simp [hret]
  · intro i hi
    rw [overlay, if_pos hi, hdata i hi]

/-- The number of a block of the file. -/
theorem ext2GetFileBlock_eq {inode : Inode} {index : Nat} (hi : index < 12 + fs.blockSize / 4)
    (hind : 12 ≤ index → OnDevice sectors fs.blockSize inode.iBlock[12].toNat) (buffer : Mem) :
    ∃ m, ext2GetFileBlock fs inode buffer index =
      .ret (blockPtr disk fs.blockSize inode index, m) := by
  unfold ext2GetFileBlock blockPtr
  by_cases h : index < 12
  · simp only [h, dif_pos]
    exact ⟨buffer, rfl⟩
  · have hw : wrap64 (12 + fs.blockSize / 4) = 12 + fs.blockSize / 4 :=
      wrap64_of_lt (by unfold word; omega)
    have hptr : inode.iBlock[12].toNat < 2 ^ 32 := UInt32.toNat_lt _
    have hwl : wrap64 (inode.iBlock[12].toNat * (fs.blockSize / 512)) =
        inode.iBlock[12].toNat * (fs.blockSize / 512) := by
      refine wrap64_of_lt (Nat.lt_of_le_of_lt ?_ (mul_blockSize_lt hptr hbs))
      exact Nat.mul_le_mul_left _ (Nat.div_le_self _ _)
    obtain ⟨m, hm, hdata⟩ := ext2GetBlock_eq hbs hdev hptr (hind (by omega)) buffer
    refine ⟨m, ?_⟩
    rw [dif_neg h, dif_neg h, if_pos (by rw [hw]; exact hi), hwl, hm]
    -- The pointer is read before the buffer is used again.
    have hload : load m (4 * (index - 12)) 4 =
        load disk (inode.iBlock[12].toNat * fs.blockSize + 4 * (index - 12)) 4 := by
      refine load_eq_load fun j hj => ?_
      rw [hdata _ (by omega), Nat.add_assoc]
    simp [hload]

end

/-! ## Rounds -/

/-- Every round copies from where the next byte of the file is in its block, up to the end of
the block or of the read. -/
theorem copySize_eq {bs offset len r : Nat} (hbs : 0 < bs) (hr : r < len)
    (hw : r + bs < word) (hal : r = 0 ∨ (offset + r) % bs = 0) :
    copySize bs offset len r =
      ((offset + r) % bs, min (bs - (offset + r) % bs) (len - r)) := by
  have hbb : (if r = 0 then offset % bs else 0) = (offset + r) % bs := by
    rcases hal with rfl | h
    · rw [if_pos rfl, Nat.add_zero]
    · split
      · subst_vars
        rw [Nat.add_zero]
      · exact h.symm
  have hlt : (offset + r) % bs < bs := Nat.mod_lt _ hbs
  unfold copySize
  simp only [hbb]
  generalize (offset + r) % bs = o at hlt
  rw [wrap64_of_lt (show r + (bs - o) < word by omega)]
  split
  · have h1 : wrap64 (r + (bs - o) + word - len) = r + (bs - o) - len := by
      unfold wrap64
      unfold word at hw ⊢
      omega
    have h2 : wrap64 (bs - o + word - (r + (bs - o) - len)) = len - r := by
      unfold wrap64
      unfold word at hw ⊢
      omega
    rw [h1, h2]
    congr 1
    omega
  · congr 1
    omega

/-- The bytes of a file that are in the same block as the one at `a`. -/
theorem fileByte_block {disk : Mem} {bs : Nat} {inode : Inode} {a k : Nat} (hbs : 0 < bs)
    (hk : a % bs + k < bs) :
    fileByte disk bs inode (a + k) =
      disk (blockPtr disk bs inode (a / bs) * bs + (a % bs + k)) := by
  have hsplit := Nat.div_add_mod a bs
  have hbyte : a + k = bs * (a / bs) + (a % bs + k) := by omega
  have hdiv : (a + k) / bs = a / bs := by
    rw [hbyte, Nat.mul_add_div hbs, Nat.div_eq_of_lt hk, Nat.add_zero]
  have hmod : (a + k) % bs = a % bs + k := by
    rw [hbyte, Nat.mul_add_mod, Nat.mod_eq_of_lt hk]
  rw [fileByte, hdiv, hmod]

/-- What holds between the rounds of a read of `len` bytes. -/
structure Filled (disk : Mem) (bs : Nat) (inode : Inode) (offset len : Nat) (buffer : Mem)
    (st : ReadState) : Prop where
  le : st.bytesRead ≤ len
  aligned : st.bytesRead < len → st.bytesRead = 0 ∨ (offset + st.bytesRead) % bs = 0
  filled : ∀ i < st.bytesRead, st.buffer i = fileByte disk bs inode (offset + i)
  rest : ∀ i, st.bytesRead ≤ i → st.buffer i = buffer i

section

variable {fs : Ext2Fs} {disk : Mem} {sectors : Nat} {inode : Inode} {offset len : Nat}
  {buffer : Mem} (hbs : fs.blockSize < 2 ^ 31) (hdev : Delivers fs.read disk sectors)
  (halloc : Allocated disk sectors fs.blockSize inode (offset + len))
  (hrange : offset + len ≤ (12 + fs.blockSize / 4) * fs.blockSize)
include hbs hdev halloc hrange

/-- A round reads the block that the next byte is in, and copies from it. -/
theorem ext2ReadBlock_eq {st : ReadState} (hr : st.bytesRead < len)
    (hal : st.bytesRead = 0 ∨ (offset + st.bytesRead) % fs.blockSize = 0) {c : Nat}
    (hc : min (fs.blockSize - (offset + st.bytesRead) % fs.blockSize) (len - st.bytesRead) = c) :
    ∃ m, ext2ReadBlock fs inode offset len st = .ret (true, ⟨st.bytesRead + c, m,
        memcpyFrom st.buffer m st.bytesRead ((offset + st.bytesRead) % fs.blockSize) c⟩) ∧
      ∀ i < fs.blockSize, m i =
        disk (blockPtr disk fs.blockSize inode ((offset + st.bytesRead) / fs.blockSize) *
          fs.blockSize + i) := by
  have hpos := fs.blockSize_pos
  have hsmall := singleIndirect_lt hbs
  obtain ⟨r, bb, buf⟩ := st
  dsimp only at hr hal hc ⊢
  have hidx : (offset + r) / fs.blockSize < 12 + fs.blockSize / 4 :=
    (Nat.div_lt_iff_lt_mul hpos).2 (by omega)
  have hreach : (offset + r) / fs.blockSize * fs.blockSize < offset + len := by
    have := Nat.div_mul_le_self (offset + r) fs.blockSize
    omega
  have hind : 12 ≤ (offset + r) / fs.blockSize →
      OnDevice sectors fs.blockSize inode.iBlock[12].toNat := by
    intro h12
    refine halloc.indirect (Nat.lt_of_le_of_lt ?_ hreach)
    exact Nat.mul_le_mul_right _ h12
  have hptr := blockPtr_lt disk fs.blockSize inode ((offset + r) / fs.blockSize)
  obtain ⟨m, hm⟩ := ext2GetFileBlock_eq hbs hdev hidx hind bb
  obtain ⟨m', hm', hdata⟩ := ext2GetBlock_eq hbs hdev hptr (halloc.data _ hidx hreach) m
  have hcopy := copySize_eq hpos hr (by unfold word; omega) hal
  rw [hc] at hcopy
  refine ⟨m', ?_, hdata⟩
  unfold ext2ReadBlock
  simp only [wrap64_of_lt (show offset + r < word by unfold word; omega), hm,
    Outcome.ret_bind, fs.lba_eq hptr hbs, hm', hcopy,
    wrap64_of_lt (show r + c < word by unfold word; omega)]
  rfl

/-- A round copies one byte at least, and the bytes copied are those of the file. -/
theorem Filled.round {st : ReadState} (h : Filled disk fs.blockSize inode offset len buffer st)
    (hr : st.bytesRead < len) :
    ∃ st', ext2ReadBlock fs inode offset len st = .ret (true, st') ∧
      Filled disk fs.blockSize inode offset len buffer st' ∧ st.bytesRead < st'.bytesRead := by
  have hpos := fs.blockSize_pos
  obtain ⟨c, hc⟩ : ∃ c, min (fs.blockSize - (offset + st.bytesRead) % fs.blockSize)
    (len - st.bytesRead) = c := ⟨_, rfl⟩
  obtain ⟨m, hm, hdata⟩ := ext2ReadBlock_eq hbs hdev halloc hrange hr (h.aligned hr) hc
  obtain ⟨r, bb, buf⟩ := st
  dsimp only at hr hc hm hdata
  have hmod := Nat.mod_lt (offset + r) hpos
  refine ⟨_, hm, ⟨?_, ?_, ?_, ?_⟩, ?_⟩
  · show r + c ≤ len
    omega
  · intro hlt
    right
    -- The read goes on, so the copy went up to the end of the block.
    have hce : c = fs.blockSize - (offset + r) % fs.blockSize := by
      dsimp only at hlt
      omega
    have hend : offset + (r + c) = fs.blockSize * ((offset + r) / fs.blockSize + 1) := by
      have hsplit := Nat.div_add_mod (offset + r) fs.blockSize
      rw [Nat.mul_add, Nat.mul_one]
      omega
    show (offset + (r + c)) % fs.blockSize = 0
    rw [hend, Nat.mul_mod_right]
  · intro i hi
    dsimp only at hi ⊢
    unfold memcpyFrom
    by_cases hir : r ≤ i
    · have hoff : (offset + r) % fs.blockSize + (i - r) < fs.blockSize := by omega
      rw [if_pos ⟨hir, hi⟩, hdata _ hoff, show offset + i = offset + r + (i - r) by omega]
      exact (fileByte_block hpos hoff).symm
    · rw [if_neg (fun h => hir h.1)]
      exact h.filled i (by dsimp only; omega)
  · intro i hi
    dsimp only at hi ⊢
    rw [memcpyFrom, if_neg (by omega)]
    exact h.rest i (by dsimp only; omega)
  · show r < r + c
    omega

theorem Filled.loop (fuel : Nat) {st : ReadState}
    (h : Filled disk fs.blockSize inode offset len buffer st) (hf : len - st.bytesRead < fuel) :
    ∃ st', ext2ReadLoop fs inode offset len fuel st = .ret (true, st') ∧
      Filled disk fs.blockSize inode offset len buffer st' ∧ st'.bytesRead = len := by
  induction fuel generalizing st with
  | zero => cases hf
  | succ fuel ih =>
      by_cases hr : st.bytesRead < len
      · obtain ⟨st₁, hround, h₁, hlt⟩ := h.round hbs hdev halloc hrange hr
        obtain ⟨st', hloop, h', hend⟩ := ih h₁ (by omega)
        refine ⟨st', ?_, h', hend⟩
        rw [ext2ReadLoop, if_pos hr, hround, Outcome.ret_bind]
        exact hloop
      · refine ⟨st, ?_, h, ?_⟩
        · rw [ext2ReadLoop, if_neg hr]
        · have := h.le
          omega

end

/-! ## Reads of any file -/

/-- A round copies a byte at least and none behind the end. -/
theorem copySize_bounds {bs len bytesRead : Nat} (offset : Nat) (hbs : 0 < bs)
    (hr : bytesRead < len) (hlen : len < word) (hwrap : bytesRead + bs < word) :
    0 < (copySize bs offset len bytesRead).2 ∧
      bytesRead + (copySize bs offset len bytesRead).2 ≤ len ∧
      (copySize bs offset len bytesRead).2 ≤ bs := by
  have hoff : (if bytesRead = 0 then offset % bs else 0) < bs := by
    split
    · exact Nat.mod_lt _ hbs
    · exact hbs
  obtain ⟨o, ho⟩ : ∃ o, (if bytesRead = 0 then offset % bs else 0) = o := ⟨_, rfl⟩
  simp only [copySize, ho] at hoff ⊢
  have hsum : wrap64 (bytesRead + (bs - o)) = bytesRead + (bs - o) := wrap64_of_lt (by omega)
  rw [hsum]
  split
  · simp only [wrap64, word] at *
    omega
  · simp only
    omega

section

variable {fs : Ext2Fs} {inode : Inode} (hbs : fs.blockSize < 2 ^ 31)
include hbs

/-- `ext2_get_file_block` returns, or panics behind the pointers there are. -/
theorem ext2GetFileBlock_cases (inode : Inode) (blockBuffer : Mem) (index : Nat) :
    ext2GetFileBlock fs inode blockBuffer index =
        .panic "ext2fs: indirect pointers are unimplemented" ∨
      index < 12 + fs.blockSize / 4 ∧ ∃ blockNo buffer,
        ext2GetFileBlock fs inode blockBuffer index = .ret (blockNo, buffer) := by
  have hwrap : wrap64 (12 + fs.blockSize / 4) = 12 + fs.blockSize / 4 :=
    wrap64_of_lt (by unfold word; omega)
  unfold ext2GetFileBlock
  by_cases hdirect : index < 12
  · exact .inr ⟨by omega, inode.iBlock[index].toNat, blockBuffer, by simp [hdirect]⟩
  rw [dif_neg hdirect, hwrap]
  by_cases hlimit : index < 12 + fs.blockSize / 4
  · right
    rw [if_pos hlimit]
    refine ⟨hlimit, ?_⟩
    simp only
    rw [Outcome.ret_ite]
    exact ⟨_, _, congrArg Outcome.ret Prod.mk.eta.symm⟩
  · exact .inl (if_neg hlimit)

/-- A round panics, or it stores nothing behind the end and goes on unless there is an error. -/
theorem ext2ReadBlock_cases (inode : Inode) {offset len : Nat} {st : ReadState}
    (hlen : len < word) (hr : st.bytesRead < len) (hpos : offset + st.bytesRead < word) :
    ext2ReadBlock fs inode offset len st =
        .panic "ext2fs: indirect pointers are unimplemented" ∨
      ∃ ok st', ext2ReadBlock fs inode offset len st = .ret (ok, st') ∧ st'.bytesRead ≤ len ∧
        (ok = true → st.bytesRead < st'.bytesRead ∧ offset + st'.bytesRead < word) := by
  have hbpos := fs.blockSize_pos
  have hsmall := singleIndirect_lt hbs
  rw [ext2ReadBlock]
  simp only [wrap64_of_lt hpos]
  rcases ext2GetFileBlock_cases hbs inode st.blockBuffer
    ((offset + st.bytesRead) / fs.blockSize) with hpanic | ⟨hlimit, blockNo, bb, hfile⟩
  · left
    rw [hpanic]
    rfl
  · right
    -- the block is one that can be reached, so the position is far from the end of a word
    have hreach : offset + st.bytesRead < 2 ^ 62 :=
      Nat.lt_trans ((Nat.div_lt_iff_lt_mul hbpos).mp hlimit) hsmall
    obtain ⟨hone, hend, hcopy⟩ := copySize_bounds offset hbpos hr hlen
      (show st.bytesRead + fs.blockSize < word by unfold word; omega)
    rw [hfile]
    simp only [Outcome.ret_bind]
    cases (ext2GetBlock fs bb (wrap64 (blockNo * fs.blockSize) / 512) (fs.blockSize / 512)).1 with
    | false => exact ⟨false, _, rfl, hr.le, nofun⟩
    | true =>
        have hnext := wrap64_of_lt (show st.bytesRead +
          (copySize fs.blockSize offset len st.bytesRead).2 < word by omega)
        refine ⟨true, _, rfl, ?_, fun _ => ?_⟩
        · simp only [hnext]
          exact hend
        · simp only [hnext]
          unfold word
          omega

/-- The loop panics, or it ends and has stored no more than it should. -/
theorem ext2ReadLoop_cases (inode : Inode) (offset : Nat) {len : Nat} (hlen : len < word)
    (fuel : Nat) (st : ReadState) (hfuel : len - st.bytesRead < fuel) (hle : st.bytesRead ≤ len)
    (hpos : offset + st.bytesRead < word) :
    ext2ReadLoop fs inode offset len fuel st =
        .panic "ext2fs: indirect pointers are unimplemented" ∨
      ∃ ok st', ext2ReadLoop fs inode offset len fuel st = .ret (ok, st') ∧
        st'.bytesRead ≤ len := by
  induction fuel generalizing st with
  | zero => cases hfuel
  | succ fuel ih =>
      rw [ext2ReadLoop]
      by_cases hr : st.bytesRead < len
      · rw [if_pos hr]
        rcases ext2ReadBlock_cases hbs inode hlen hr hpos with
          hpanic | ⟨ok, st1, hround, hend, hnext⟩
        · left
          rw [hpanic]
          rfl
        · rw [hround, Outcome.ret_bind]
          cases ok with
          | false => exact .inr ⟨false, st1, rfl, hend⟩
          | true =>
              obtain ⟨hmore, hpos1⟩ := hnext rfl
              exact ih st1 (by omega) hend hpos1
      · rw [if_neg hr]
        exact .inr ⟨true, st, rfl, hle⟩

end

/-! ## The read -/

/-- A read in a file goes on until all its bytes are there. -/
theorem ext2Read_filled {fs : Ext2Fs} {disk : Mem} {sectors : Nat} {inode : Inode}
    {length len offset : Nat} (left buffer : Mem) (hbs : fs.blockSize < 2 ^ 31)
    (hdev : Delivers fs.read disk sectors)
    (halloc : Allocated disk sectors fs.blockSize inode length)
    (hlength : length < word) (hoffset : offset ≤ length) (hsum : offset + len < word)
    (hrange : offset + min len (length - offset) ≤ (12 + fs.blockSize / 4) * fs.blockSize) :
    ∃ blockBuffer buffer', ext2Read fs inode length left buffer len offset =
        .ret (.bytes (min len (length - offset)), buffer') ∧
      Filled disk fs.blockSize inode offset (min len (length - offset)) buffer
        ⟨min len (length - offset), blockBuffer, buffer'⟩ := by
  have hlen : (if length < wrap64 (offset + len) then wrap64 (length + word - offset) else len) =
      min len (length - offset) := by
    rw [wrap64_of_lt hsum]
    split
    · unfold wrap64
      unfold word at hlength ⊢
      omega
    · omega
  generalize hn : min len (length - offset) = n at hrange hlen
  have halloc' : Allocated disk sectors fs.blockSize inode (offset + n) :=
    ⟨fun i hi h => halloc.data i hi (by omega), fun h => halloc.indirect (by omega)⟩
  have h0 : Filled disk fs.blockSize inode offset n buffer ⟨0, left, buffer⟩ :=
    ⟨Nat.zero_le _, fun _ => .inl rfl, fun i hi => absurd hi (Nat.not_lt_zero i), fun _ _ => rfl⟩
  obtain ⟨⟨_, bb, buffer'⟩, hloop, hst, hend⟩ := h0.loop hbs hdev halloc' hrange (n + 1) (by simp)
  dsimp only at hend
  subst hend
  refine ⟨bb, buffer', ?_, hst⟩
  unfold ext2Read
  simp only [hlen, hloop, Outcome.ret_bind, if_true]

/-- A read returns the bytes of the file from the offset on, as many as there are. -/
theorem ext2_read_file {fs : Ext2Fs} {disk : Mem} {sectors : Nat} {inode : Inode}
    {length len offset : Nat} (left buffer : Mem) (hbs : fs.blockSize < 2 ^ 31)
    (hdev : Delivers fs.read disk sectors)
    (halloc : Allocated disk sectors fs.blockSize inode length)
    (hlength : length < word) (hoffset : offset ≤ length) (hsum : offset + len < word)
    (hrange : offset + min len (length - offset) ≤ (12 + fs.blockSize / 4) * fs.blockSize) :
    ∃ buffer', ext2Read fs inode length left buffer len offset =
        .ret (.bytes (min len (length - offset)), buffer') ∧
      (∀ i < min len (length - offset),
        buffer' i = fileByte disk fs.blockSize inode (offset + i)) ∧
      ∀ i, min len (length - offset) ≤ i → buffer' i = buffer i := by
  obtain ⟨_, buffer', hret, hst⟩ :=
    ext2Read_filled left buffer hbs hdev halloc hlength hoffset hsum hrange
  exact ⟨buffer', hret, hst.filled, hst.rest⟩

/-- A disk of 32 blocks of 1 KiB, where every pointer in block 6 is 7. -/
def smallDisk : Mem := fun a =>
  if a / 1024 = 6 ∧ a % 4 ≠ 0 then 0 else if a / 1024 = 6 then 7 else 1

/-- The file system on it. -/
def smallFs : Ext2Fs where
  read := fun off size => (size, fun i => smallDisk (off + i))
  blockSizeLog := 0

/-- An inode whose direct blocks are all 5, and whose block of pointers is 6. -/
def smallInode : Inode := ⟨#v[5, 5, 5, 5, 5, 5, 5, 5, 5, 5, 5, 5, 6, 0, 0]⟩

/-- A read of 100 bytes from three bytes before the first indirect block on. -/
theorem ext2_read_file_indirect :
    ∃ buffer', ext2Read smallFs smallInode 13322 (fun _ => 0) (fun _ => 0) 100 12285 =
        .ret (.bytes 100, buffer') ∧
      (∀ i < 100, buffer' i = fileByte smallDisk 1024 smallInode (12285 + i)) ∧
      ∀ i, 100 ≤ i → buffer' i = 0 := by
  have halloc : Allocated smallDisk 64 smallFs.blockSize smallInode 13322 := by
    refine ⟨fun i hi h => ?_, fun _ => by decide⟩
    have hi' : i < 14 := by
      have hbs : smallFs.blockSize = 1024 := rfl
      rw [hbs] at h
      omega
    have hall : ∀ i < 14, OnDevice 64 1024 (blockPtr smallDisk 1024 smallInode i) := by decide
    exact hall i hi'
  exact ext2_read_file (fun _ => 0) (fun _ => 0) (show smallFs.blockSize < 2 ^ 31 by decide)
    (fun _ _ _ => ⟨rfl, fun _ _ => rfl⟩) halloc (by decide) (by decide) (by decide) (by decide)

end UlmerOS.Ext2
