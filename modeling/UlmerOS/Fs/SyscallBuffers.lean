import UlmerOS.Fs.BlockIo
import UlmerOS.Fs.Ext2Read

/-!
# The buffers of `sys_read` and `sys_write`

`SYS_BUFFER_RANGE_CHECK` compares the sum of the address and the length with `USER_BREAK`.
The sum is one of 64 bits, so a buffer whose end wraps around passes.  Where it does not wrap
around, a call keeps to the buffer if what is behind it does.  `ext2_read` keeps to the length
at the position a file is opened at (`ext2FRead_cases`), `ext2_write` touches nothing, and a
block device is given the whole blocks that fit.  A partition that starts behind the end of a
ramdisk makes `initrd_read` copy far more than that.  A write to descriptor 1 prints the buffer
as a string, which goes on to the next byte that is zero, wherever that is.

`StaysInBuffer` is what a call should do, and `ReadStays` and `WriteStays` are when it does.
-/

namespace UlmerOS

open ByteMem

/-! ## Descriptors of a process -/

/-- A file that a process has open, at the position where it was opened: no system call moves
it.  The length of a regular file comes from the 32 bits of its inode. -/
inductive OpenFile where
  | regular (fs : Ext2.Ext2Fs) (inode : Ext2.Inode) (length : Nat)
      (small : fs.blockSize < 2 ^ 31) (size : length < 2 ^ 32)
  | block (bd : BlkDev) (length : Nat)

namespace OpenFile

/-- The descriptor that `vfs_open` makes. -/
def fd : OpenFile → Fd
  | .regular fs inode length _ _ => vfsOpenRegular fs inode length
  | .block bd length => bdOpen bd.ops length

/-- A partition does not start behind the end of its disk. -/
def Starts : OpenFile → Prop
  | .regular _ _ _ _ _ => True
  | .block bd _ => bd.Starts

/-- The file that is open under a number. -/
def lookup (files : List (Nat × OpenFile)) (fd : Int) : Option (Nat × OpenFile) :=
  if fd < 0 then none else files.find? fun f => decide ((f.1 : Int) = fd)

/-- `fd_list` of the process. -/
def fdList (files : List (Nat × OpenFile)) : List (Nat × Fd) :=
  files.map fun f => (f.1, f.2.fd)

end OpenFile

theorem procGetFd_fdList (files : List (Nat × OpenFile)) (fd : Int) :
    (procGetFd (OpenFile.fdList files) fd).1 =
      (OpenFile.lookup files fd).map fun f => (f.1, f.2.fd) := by
  rw [procGetFd, OpenFile.lookup]
  split
  · rfl
  · rw [OpenFile.fdList, List.find?_map]
    rfl

/-! ## Staying in the buffer -/

/-- What is touched lies in the buffer. -/
def SysEffect.Within (buffer len : Nat) : SysEffect → Prop
  | .touch addr n => ∀ i < n, buffer ≤ wrap64 (addr + i) ∧ wrap64 (addr + i) < buffer + len
  | _ => True

/-- Unless it returns `-EINVAL`, the buffer lies in user space and nothing else is touched.  A
call that hangs is one that looks for the end of a string in all of memory.  What a call that
panics did before is not in its outcome. -/
def StaysInBuffer (buffer len : Nat) : Outcome SysResult → Prop
  | .ret res => res.ret ≠ -einval →
      buffer + len ≤ userBreak ∧ ∀ e ∈ res.effects, e.Within buffer len
  | .hang => False
  | _ => buffer + len ≤ userBreak

/-- In a buffer in user space, the first `n` bytes are touched exactly if there are so many. -/
theorem within_touch_iff {buffer len n : Nat} (h : buffer + len ≤ userBreak) :
    (SysEffect.touch buffer n).Within buffer len ↔ n ≤ len := by
  simp only [SysEffect.Within, wrap64, word, userBreak] at h ⊢
  constructor
  · intro hall
    by_contra hlt
    have := hall len (by omega)
    omega
  · intro hle i hi
    omega

theorem procGetFd_within (fdList : List (Nat × Fd)) (fd : Int) (buffer len : Nat) :
    ∀ e ∈ (procGetFd fdList fd).2, e.Within buffer len := by
  rw [procGetFd]
  split
  · simp
  · simp [SysEffect.Within]

/-- A call that looks up a descriptor, touches the first `n` bytes, if any, and unlocks. -/
theorem stays_iff {fdList : List (Nat × Fd)} {fd ret : Int} {buffer len n k : Nat}
    (hret : ret ≠ -einval) :
    StaysInBuffer buffer len
        (.ret ⟨ret, (procGetFd fdList fd).2 ++ [.touch buffer n, .unlock (.fdmod k)]⟩) ↔
      buffer + len ≤ userBreak ∧ n ≤ len := by
  have hlook := procGetFd_within fdList fd buffer len
  constructor
  · intro h
    obtain ⟨huser, htouch⟩ := h hret
    exact ⟨huser, (within_touch_iff huser).mp (htouch _ (by simp))⟩
  · rintro ⟨huser, hn⟩ _
    refine ⟨huser, fun e he => ?_⟩
    rcases List.mem_append.mp he with he | he
    · exact hlook e he
    · simp only [List.mem_cons, List.not_mem_nil, or_false] at he
      rcases he with rfl | rfl
      · exact (within_touch_iff huser).mpr hn
      · trivial

/-- A call that fails after it looked up the descriptor. -/
theorem fails_iff {fdList : List (Nat × Fd)} {fd ret : Int} {buffer len : Nat}
    (hret : ret ≠ -einval) :
    StaysInBuffer buffer len (.ret ⟨ret, (procGetFd fdList fd).2⟩) ↔
      buffer + len ≤ userBreak :=
  ⟨fun h => (h hret).1, fun h _ => ⟨h, procGetFd_within fdList fd buffer len⟩⟩

/-! ## The drivers -/

/-- A read of a regular file from its start panics, or it stores no more than was asked for. -/
theorem ext2FRead_cases {fs : Ext2.Ext2Fs} (inode : Ext2.Inode) {length len : Nat}
    (hbs : fs.blockSize < 2 ^ 31) (hlength : length < 2 ^ 32) (hlen : len < word)
    (left buffer : Mem) :
    ext2FRead fs inode length left buffer len 0 =
        .panic "ext2fs: indirect pointers are unimplemented" ∨
      ∃ r, ext2FRead fs inode length left buffer len 0 = .ret r ∧ r.stored ≤ len ∧
        r.ret ≠ -einval := by
  obtain ⟨n, hn, hle, hnl⟩ : ∃ n, (if length < wrap64 (0 + len) then
      wrap64 (length + word - 0) else len) = n ∧ n ≤ len ∧ n < 2 ^ 32 := by
    rw [Nat.zero_add, wrap64_of_lt hlen]
    refine ⟨_, rfl, ?_⟩
    simp only [wrap64, word]
    split <;> omega
  rw [ext2FRead]
  simp only [hn]
  rcases Ext2.ext2ReadLoop_cases hbs inode 0 (show n < word by omega) (n + 1)
    ⟨0, left, buffer⟩ (Nat.lt_succ_self n) (Nat.zero_le n) (show 0 < word by decide)
    with hpanic | ⟨ok, st, hloop, hst⟩
  · left
    rw [hpanic]
    rfl
  · right
    rw [hloop]
    refine ⟨_, rfl, hst.trans hle, ?_⟩
    cases ok with
    | false => simp [eio, einval]
    | true =>
        have hword : n < word - 22 := hnl.trans (by decide)
        exact mt toSsize_eq_einval.mp (hst.trans_lt hword).ne

/-- `bd_read` passes the number of bytes on, and multiplies what the driver returns. -/
theorem bdRead_some (readblk : Mem → Nat → Nat → DriverRead) (buffer : Mem) (size off : Nat) :
    (bdRead (some readblk) buffer size off).stored =
        (readblk buffer (size / 512) (off / 512)).stored ∧
      ((readblk buffer (size / 512) (off / 512)).ret ≠ -einval →
        (bdRead (some readblk) buffer size off).ret ≠ -einval) := by
  rw [bdRead]
  split
  next => exact ⟨rfl, id⟩
  next => exact ⟨rfl, fun _ => by simp only [einval]; omega⟩

theorem bdWrite_some (writeblk : Mem → Nat → Nat → DriverWrite) (buffer : Mem)
    (size off : Nat) :
    (bdWrite (some writeblk) buffer size off).loaded =
        (writeblk buffer (size / 512) (off / 512)).loaded ∧
      ((writeblk buffer (size / 512) (off / 512)).ret ≠ -einval →
        (bdWrite (some writeblk) buffer size off).ret ≠ -einval) := by
  rw [bdWrite]
  split
  next => exact ⟨rfl, id⟩
  next => exact ⟨rfl, fun _ => by simp only [einval]; omega⟩

/-! ## The string that is printed -/

/-- Printing a buffer stays in it exactly if it has a zero byte.  It ends if there is a zero
byte anywhere. -/
theorem debugStdout_stays_iff {ram : Mem} {buffer len : Nat} {ret : Int} (hlen : len < word) :
    StaysInBuffer buffer len (debugStdout ram buffer >>= fun effects => .ret ⟨ret, effects⟩) ↔
      (ret = -einval ∧ ∃ i < word, bytesAt ram buffer i = 0) ∨
        buffer + len ≤ userBreak ∧ ∃ i < len, bytesAt ram buffer i = 0 := by
  rw [debugStdout]
  rcases strlen_cases (bytesAt ram buffer) word with
    ⟨n, hnw, hstr, hzero, hbefore⟩ | ⟨hhang, hall⟩
  · rw [hstr]
    simp only [Outcome.ret_bind, StaysInBuffer]
    constructor
    · intro h
      by_cases hret : ret = -einval
      · exact .inl ⟨hret, n, hnw, hzero⟩
      · obtain ⟨huser, htouch⟩ := h hret
        have hn := (within_touch_iff huser).mp (htouch (.touch buffer (n + 1)) (by simp))
        exact .inr ⟨huser, n, hn, hzero⟩
    · rintro (⟨rfl, -⟩ | ⟨huser, i, hi, hz⟩) hret
      · exact absurd rfl hret
      have hni : n ≤ i := by
        by_contra hlt
        exact hbefore i (by omega) hz
      refine ⟨huser, fun e he => ?_⟩
      simp only [List.mem_cons, List.not_mem_nil, or_false] at he
      rcases he with rfl | rfl | rfl
      · trivial
      · exact (within_touch_iff huser).mpr (by omega)
      · trivial
  · rw [hhang]
    refine iff_of_false (fun h => h) ?_
    rintro (⟨-, i, hi, hz⟩ | ⟨-, i, hi, hz⟩)
    · exact hall i hi hz
    · exact hall i (Nat.lt_trans hi hlen) hz

/-! ## The calls -/

/-- When `sys_read` stays in the buffer. -/
def ReadStays (files : List (Nat × OpenFile)) (fd : Int) (buffer len : Nat) : Prop :=
  sysBufferRangeCheck buffer len = true ∨
    buffer + len ≤ userBreak ∧ ∀ f ∈ OpenFile.lookup files fd, f.2.Starts

/-- When `sys_write` stays in the buffer.  What a write to descriptor 1 returns is the length,
and one length reads as `-EINVAL`. -/
def WriteStays (files : List (Nat × OpenFile)) (ram : Mem) (fd : Int) (buffer len : Nat) : Prop :=
  sysBufferRangeCheck buffer len = true ∨
    if fd = 1 then
      (len = word - 22 ∧ ∃ i < word, bytesAt ram buffer i = 0) ∨
        buffer + len ≤ userBreak ∧ ∃ i < len, bytesAt ram buffer i = 0
    else
      buffer + len ≤ userBreak ∧ ∀ f ∈ OpenFile.lookup files fd, f.2.Starts

theorem rejected_stays (buffer len : Nat) :
    StaysInBuffer buffer len (.ret ⟨-einval, []⟩) := fun h => absurd rfl h

theorem sysRead_stays_iff (files : List (Nat × OpenFile)) (left ram : Mem) (fd : Int)
    {buffer len : Nat} (hlen : len < word) :
    StaysInBuffer buffer len
        (sysRead (OpenFile.fdList files) left ram fd buffer len >>= fun r => .ret r.1) ↔
      ReadStays files fd buffer len := by
  rw [sysRead, ReadStays]
  cases hcheck : sysBufferRangeCheck buffer len with
  | true => exact iff_of_true (rejected_stays buffer len) (.inl rfl)
  | false =>
      rw [if_neg nofun, or_iff_right nofun]
      simp only [procGetFd_fdList]
      cases OpenFile.lookup files fd with
      | none => simpa using fails_iff (by simp [ebadf, einval])
      | some f =>
          obtain ⟨k, f⟩ := f
          cases f with
          | regular fs inode length hbs hlength =>
              simp only [Option.map_some, OpenFile.fd, vfsOpenRegular, ext2FOps,
                Option.mem_some_iff, forall_eq', OpenFile.Starts, and_true]
              rcases ext2FRead_cases inode hbs hlength hlen left
                (bytesAt ram buffer) with hpanic | ⟨r, hr, hstored, hret⟩
              · rw [hpanic]
                rfl
              · rw [hr]
                exact (stays_iff hret).trans (and_iff_left hstored)
          | block bd length =>
              simp only [Option.map_some, OpenFile.fd, bdOpen, BlkDev.ops, Option.mem_some_iff,
                forall_eq', OpenFile.Starts]
              obtain ⟨hstored, hret⟩ := bdRead_some bd.readblk (bytesAt ram buffer) len 0
              refine (stays_iff (hret (bd.readblk_ret_ne _ hlen _))).trans ?_
              refine and_congr_right fun huser => ?_
              rw [hstored]
              exact bd.readblk_stored_iff _ (Nat.le_of_add_left_le huser)

theorem sysWrite_stays_iff (files : List (Nat × OpenFile)) (ram : Mem) (fd : Int)
    {buffer len : Nat} (hlen : len < word) :
    StaysInBuffer buffer len (sysWrite (OpenFile.fdList files) ram fd buffer len) ↔
      WriteStays files ram fd buffer len := by
  rw [sysWrite, WriteStays]
  cases hcheck : sysBufferRangeCheck buffer len with
  | true => exact iff_of_true (rejected_stays buffer len) (.inl rfl)
  | false =>
      rw [if_neg nofun, or_iff_right nofun]
      by_cases hfd : fd = 1
      · rw [if_pos hfd, if_pos hfd]
        rw [← toSsize_eq_einval]
        exact debugStdout_stays_iff hlen
      · rw [if_neg hfd, if_neg hfd]
        simp only [procGetFd_fdList]
        cases OpenFile.lookup files fd with
        | none => simpa using fails_iff (by simp [ebadf, einval])
        | some f =>
            obtain ⟨k, f⟩ := f
            cases f with
            | regular fs inode length hbs hlength =>
                simp only [Option.map_some, OpenFile.fd, vfsOpenRegular, ext2FOps,
                  Option.mem_some_iff, forall_eq', OpenFile.Starts, and_true]
                exact (stays_iff (by simp [enosys, einval])).trans
                  (and_iff_left (Nat.zero_le len))
            | block bd length =>
                simp only [Option.map_some, OpenFile.fd, bdOpen, BlkDev.ops,
                  Option.mem_some_iff, forall_eq', OpenFile.Starts]
                obtain ⟨hloaded, hret⟩ := bdWrite_some bd.writeblk (bytesAt ram buffer) len 0
                refine (stays_iff (hret (bd.writeblk_ret_ne _ hlen _))).trans ?_
                refine and_congr_right fun huser => ?_
                rw [hloaded]
                exact bd.writeblk_loaded_iff _ (Nat.le_of_add_left_le huser)

/-- The system calls stay in the buffer of the caller in these cases and no others. -/
theorem syscall_buffers (files : List (Nat × OpenFile)) (left ram : Mem) (fd : Int)
    {buffer len : Nat} (hlen : len < word) :
    (StaysInBuffer buffer len
        (sysRead (OpenFile.fdList files) left ram fd buffer len >>= fun r => .ret r.1) ↔
      ReadStays files fd buffer len) ∧
    (StaysInBuffer buffer len (sysWrite (OpenFile.fdList files) ram fd buffer len) ↔
      WriteStays files ram fd buffer len) :=
  ⟨sysRead_stays_iff files left ram fd hlen, sysWrite_stays_iff files ram fd hlen⟩

/-- A ramdisk that is open as descriptor 3. -/
def openRamdisk : List (Nat × OpenFile) :=
  [(3, .block (.disk (.ramdisk ⟨fun _ => 0, 2 ^ 20, []⟩ (by decide))) 0)]

theorem syscall_buffers_ramdisk :
    StaysInBuffer 0x400000 512
      (sysRead (OpenFile.fdList openRamdisk) (fun _ => 0) (fun _ => 0) 3 0x400000 512
        >>= fun r => .ret r.1) :=
  (syscall_buffers openRamdisk _ _ 3 (by decide)).1.mpr
    (.inr ⟨by decide, fun f hf => by cases hf; trivial⟩)

/-- A memory with the string `"a"`. -/
def ramWithString : Mem := fun i => if i = 0x400000 then 97 else 0

/-- The last byte of the address space passes the check, and a string of one character is read
to its end. -/
theorem writes_leave_buffer :
    ¬ StaysInBuffer (word - 1) 1 (sysWrite [] (fun _ => 0) 1 (word - 1) 1) ∧
    ¬ StaysInBuffer 0x400000 1 (sysWrite [] ramWithString 1 0x400000 1) := by
  constructor
  · intro h
    rcases (sysWrite_stays_iff [] _ 1 (by decide)).mp h with hcheck | ⟨hlen, -⟩ | ⟨huser, -⟩
    · exact absurd hcheck (by decide)
    · exact absurd hlen (by decide)
    · exact absurd huser (by decide)
  · intro h
    rcases (sysWrite_stays_iff [] _ 1 (by decide)).mp h with hcheck | ⟨hlen, -⟩ | ⟨-, i, hi, hz⟩
    · exact absurd hcheck (by decide)
    · exact absurd hlen (by decide)
    · obtain rfl := Nat.lt_one_iff.mp hi
      exact absurd hz (by decide)

end UlmerOS
