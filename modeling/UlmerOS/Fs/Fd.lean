import UlmerOS.Fs.Ext2
import UlmerOS.Sched.MutexMemory

/-!
# File descriptors and their system calls

`vfs_read`, `vfs_seek` and `vfs_open` of `fs/vfs.c`, `fs/blkdev_ops.c`, `proc_get_fd` of
`sched/proc.c`, and `sys_read` and `sys_write` of `fs/fs_syscall.c`.

A driver is the two functions of `f_ops_t`, applied to `fs_data`.  It gets the bytes that
are in the buffer, a length and an offset.  It says what it returns, what is in the buffer
then, and how many bytes of the buffer it stored or loaded, from the first one on.  `left` is
what the memory held that the driver takes from the heap.  `ext2FOps` and `bdOpen` are the
two that there are.  The mutexes that a driver takes and gives back itself are left out.

What a system call does besides is recorded: the mutexes it locks and unlocks, and the bytes
it touches through the buffer of the caller.  `SysResult.exec` does what it does to `fdmod`,
which nobody initialises or locks; `fd_list_lock` is in order.  The assertion that there is a
process is left out.
-/

namespace UlmerOS

open ByteMem

/-! ## Drivers -/

/-- What a call of `f_ops.read` does. -/
structure DriverRead where
  ret : Int
  /-- The buffer afterwards. -/
  buffer : Mem
  /-- The number of bytes stored into the buffer. -/
  stored : Nat

/-- What a call of `f_ops.write` does. -/
structure DriverWrite where
  ret : Int
  /-- The number of bytes loaded from the buffer, or stored by a driver that writes with its
  read. -/
  loaded : Nat

/-- `f_ops_t`, with `fs_data`.  A function that is `none` is `NULL`. -/
structure FOps where
  read : Option (Mem → Mem → Nat → Nat → Outcome DriverRead)
  write : Option (Mem → Nat → Nat → Outcome DriverWrite)

/-- The bytes that a read delivers. -/
def DriverRead.data (r : DriverRead) : List UInt8 := (List.range r.ret.toNat).map r.buffer

/-- `fd_t`.  `length` is `file->length`. -/
structure Fd where
  length : Nat
  fpos : Nat
  fOps : FOps

/-- `SEEK_SET`, `SEEK_CUR` and `SEEK_END`. -/
def seekSet : Int := 1
def seekCur : Int := 2
def seekEnd : Int := 3

/-- `vfs_read`.  The descriptor is not changed. -/
def vfsRead (fd : Fd) (left buffer : Mem) (length : Nat) : Outcome DriverRead :=
  match fd.fOps.read with
  | none => .ret ⟨-enotsup, buffer, 0⟩
  | some read => read left buffer length fd.fpos

/-- `vfs_seek`. -/
def vfsSeek (fd : Fd) (offset : Nat) (whence : Int) : Nat × Fd :=
  let fd :=
    if whence = seekSet then { fd with fpos := offset }
    else if whence = seekCur then { fd with fpos := wrap64 (fd.fpos + offset) }
    else if whence = seekEnd then { fd with fpos := wrap64 (fd.length + offset) }
    else fd
  (offset, fd)

@[simp] theorem vfsSeek_ret (fd : Fd) (offset : Nat) (whence : Int) :
    (vfsSeek fd offset whence).1 = offset := rfl

@[simp] theorem vfsSeek_length (fd : Fd) (offset : Nat) (whence : Int) :
    (vfsSeek fd offset whence).2.length = fd.length := by
  simp only [vfsSeek, apply_ite Fd.length, ite_self]

@[simp] theorem vfsSeek_fOps (fd : Fd) (offset : Nat) (whence : Int) :
    (vfsSeek fd offset whence).2.fOps = fd.fOps := by
  simp only [vfsSeek, apply_ite Fd.fOps, ite_self]

@[simp] theorem vfsSeek_fpos (fd : Fd) (offset : Nat) (whence : Int) :
    (vfsSeek fd offset whence).2.fpos =
      if whence = seekSet then offset
      else if whence = seekCur then wrap64 (fd.fpos + offset)
      else if whence = seekEnd then wrap64 (fd.length + offset)
      else fd.fpos := by
  simp only [vfsSeek, apply_ite Fd.fpos]

/-! ## The driver of ext2 -/

/-- `ext2_read`, with all it does. -/
def ext2FRead (fs : Ext2.Ext2Fs) (inode : Ext2.Inode) (length : Nat) (left buffer : Mem)
    (len offset : Nat) : Outcome DriverRead := do
  let len := if length < wrap64 (offset + len) then wrap64 (length + word - offset) else len
  let (ok, st) ← Ext2.ext2ReadLoop fs inode offset len (len + 1)
    { bytesRead := 0, blockBuffer := left, buffer := buffer }
  .ret ⟨if ok then toSsize st.bytesRead else -eio, st.buffer, st.bytesRead⟩

/-- `ext2_write`. -/
def ext2FWrite (_ : Mem) (_ _ : Nat) : Outcome DriverWrite := .ret ⟨-enosys, 0⟩

/-- `ext2fs.f_ops`, for a file. -/
def ext2FOps (fs : Ext2.Ext2Fs) (inode : Ext2.Inode) (length : Nat) : FOps where
  read := some (ext2FRead fs inode length)
  write := some ext2FWrite

/-- `vfs_open` of a regular file. -/
def vfsOpenRegular (fs : Ext2.Ext2Fs) (inode : Ext2.Inode) (length : Nat) : Fd where
  length := length
  fpos := 0
  fOps := ext2FOps fs inode length

/-- A read that succeeds is one of `ext2_read`. -/
theorem ext2FRead_of_bytes {fs : Ext2.Ext2Fs} {inode : Ext2.Inode} {length len offset n : Nat}
    {left buffer buffer' : Mem}
    (h : Ext2.ext2Read fs inode length left buffer len offset = .ret (.bytes n, buffer')) :
    ext2FRead fs inode length left buffer len offset = .ret ⟨toSsize n, buffer', n⟩ := by
  obtain ⟨⟨ok, st⟩, hloop, hret⟩ := Outcome.bind_eq_ret.mp h
  cases ok with
  | false => cases hret
  | true =>
      cases hret
      rw [ext2FRead, hloop]
      rfl

/-! ## The driver of block devices -/

/-- `bd_ops_t`, with `data` and `minor`.  A function gets the bytes in the buffer, the number
of blocks and the first one, and returns a number of blocks. -/
structure BdOps where
  readblk : Option (Mem → Nat → Nat → DriverRead)
  writeblk : Option (Mem → Nat → Nat → DriverWrite)

/-- `bd_read`. -/
def bdRead (readblk : Option (Mem → Nat → Nat → DriverRead)) (buffer : Mem) (size off : Nat) :
    DriverRead :=
  match readblk with
  | none => ⟨-enotsup, buffer, 0⟩
  | some readblk =>
      let lba := off / 512
      let count := size / 512
      let r := readblk buffer count lba
      if r.ret < 0 then r else { r with ret := r.ret * 512 }

/-- `bd_write`. -/
def bdWrite (writeblk : Option (Mem → Nat → Nat → DriverWrite)) (buffer : Mem)
    (size off : Nat) : DriverWrite :=
  match writeblk with
  | none => ⟨-enotsup, 0⟩
  | some writeblk =>
      let lba := off / 512
      let count := size / 512
      let r := writeblk buffer count lba
      if r.ret < 0 then r else { r with ret := r.ret * 512 }

/-- `bd_open`.  It does not set `file`, whose length is what the memory held. -/
def bdOpen (bd : BdOps) (length : Nat) : Fd where
  length := length
  fpos := 0
  fOps :=
    { read := some fun _ buffer size off => .ret (bdRead bd.readblk buffer size off)
      write := some fun buffer size off => .ret (bdWrite bd.writeblk buffer size off) }

/-! ## System calls -/

/-- The mutexes of a system call.  That of a descriptor goes by the number of the descriptor. -/
inductive SysMutex where
  /-- `process->fd_list_lock`. -/
  | fdList
  /-- `fdp->fdmod`. -/
  | fdmod (fd : Nat)
  /-- `kprintf_buffer_lock`. -/
  | kprintfBuffer
deriving DecidableEq, Repr

/-- What a system call does besides. -/
inductive SysEffect where
  | lock (mtx : SysMutex)
  | unlock (mtx : SysMutex)
  /-- `n` bytes from the address on are loaded or stored. -/
  | touch (addr n : Nat)
deriving DecidableEq, Repr

/-- What a system call returns, and what it does in this order. -/
structure SysResult where
  ret : Int
  effects : List SysEffect

/-- What an effect does to `fdmod` of the descriptor, at an address of the kernel's memory. -/
def SysEffect.exec (debug : Bool) (fdmod current : Nat) (mem : Mem) : SysEffect → Outcome Mem
  | .lock (.fdmod _) => mutexLock debug mem fdmod current
  | .unlock (.fdmod _) => mutexUnlock debug mem fdmod current
  | _ => .ret mem

/-- What the effects do to it, in this order. -/
def SysResult.exec (debug : Bool) (fdmod current : Nat) (mem : Mem) (res : SysResult) :
    Outcome Mem := res.effects.foldlM (SysEffect.exec debug fdmod current) mem

/-- The condition of `SYS_BUFFER_RANGE_CHECK`. -/
def sysBufferRangeCheck (buf size : Nat) : Bool := decide (wrap64 (buf + size) > userBreak)

/-- `proc_get_fd`, on the numbers and descriptors of `fd_list`. -/
def procGetFd (fdList : List (Nat × Fd)) (fd : Int) : Option (Nat × Fd) × List SysEffect :=
  if fd < 0 then (none, [])
  else (fdList.find? fun userFd => decide ((userFd.1 : Int) = fd), [.lock .fdList, .unlock .fdList])

/-- The bytes at a pointer. -/
def bytesAt (ram : Mem) (ptr : Nat) : Mem := fun i => ram (wrap64 (ptr + i))

/-- `sys_read`: what it returns and does, and the buffer of the caller afterwards.
`sysReadUnlock` executes the `mutex_unlock` that it ends with. -/
def sysRead (fdList : List (Nat × Fd)) (left ram : Mem) (fd : Int) (buffer len : Nat) :
    Outcome (SysResult × Mem) :=
  if sysBufferRangeCheck buffer len then .ret (⟨-einval, []⟩, bytesAt ram buffer)
  else
    let (fdp, effects) := procGetFd fdList fd
    match fdp with
    | none => .ret (⟨-ebadf, effects⟩, bytesAt ram buffer)
    | some (n, fdp) =>
        match fdp.fOps.read with
        | none => .ret (⟨-enotsup, effects ++ [.unlock (.fdmod n)]⟩, bytesAt ram buffer)
        | some read => do
            let r ← read left (bytesAt ram buffer) len fdp.fpos
            .ret (⟨r.ret, effects ++ [.touch buffer r.stored, .unlock (.fdmod n)]⟩, r.buffer)

/-- `sys_read` by the task `current`, with what it does to `fdmod`. -/
def sysReadUnlock (debug : Bool) (fdmod current : Nat) (mem : Mem) (fdList : List (Nat × Fd))
    (left ram : Mem) (fd : Int) (buffer len : Nat) : Outcome (SysResult × Mem × Mem) := do
  let (res, buffer) ← sysRead fdList left ram fd buffer len
  let mem ← res.exec debug fdmod current mem
  .ret (res, buffer, mem)

/-- `strlen`, which gives up after `fuel` bytes that are not zero. -/
def strlen (s : Mem) : Nat → Outcome Nat
  | 0 => .hang
  | fuel + 1 => if s 0 = 0 then .ret 0 else do
      let n ← strlen (fun i => s (i + 1)) fuel
      .ret (n + 1)

/-- `strlen` stops at the first byte that is zero. -/
theorem strlen_cases (s : Mem) (fuel : Nat) :
    (∃ n < fuel, strlen s fuel = .ret n ∧ s n = 0 ∧ ∀ i < n, s i ≠ 0) ∨
      (strlen s fuel = .hang ∧ ∀ i < fuel, s i ≠ 0) := by
  induction fuel generalizing s with
  | zero => exact .inr ⟨rfl, by simp⟩
  | succ fuel ih =>
      rw [strlen]
      by_cases h0 : s 0 = 0
      · rw [if_pos h0]
        exact .inl ⟨0, Nat.succ_pos fuel, rfl, h0, by simp⟩
      · rw [if_neg h0]
        rcases ih fun i => s (i + 1) with ⟨n, hn, hlen, hzero, hbefore⟩ | ⟨hhang, hall⟩
        · refine .inl ⟨n + 1, Nat.succ_lt_succ hn, by rw [hlen]; rfl, hzero, fun i hi => ?_⟩
          cases i with
          | zero => exact h0
          | succ i => exact hbefore i (Nat.lt_of_succ_lt_succ hi)
        · refine .inr ⟨by rw [hhang]; rfl, fun i hi => ?_⟩
          cases i with
          | zero => exact h0
          | succ i => exact hall i (Nat.lt_of_succ_lt_succ hi)

/-- `debug(VFS, "write() to stdout: %s\n", str)`: `_sprintf` reads the string with its
terminator. -/
def debugStdout (ram : Mem) (str : Nat) : Outcome (List SysEffect) := do
  let len ← strlen (bytesAt ram str) word
  .ret [.lock .kprintfBuffer, .touch str (len + 1), .unlock .kprintfBuffer]

/-- `sys_write`. -/
def sysWrite (fdList : List (Nat × Fd)) (ram : Mem) (fd : Int) (buffer len : Nat) :
    Outcome SysResult :=
  if sysBufferRangeCheck buffer len then .ret ⟨-einval, []⟩
  else if fd = 1 then do
    let effects ← debugStdout ram buffer
    .ret ⟨toSsize len, effects⟩
  else
    let (fdp, effects) := procGetFd fdList fd
    match fdp with
    | none => .ret ⟨-ebadf, effects⟩
    | some (n, fdp) =>
        match fdp.fOps.write with
        | none => .ret ⟨-enotsup, effects ++ [.unlock (.fdmod n)]⟩
        | some write => do
            let r ← write (bytesAt ram buffer) len fdp.fpos
            .ret ⟨r.ret, effects ++ [.touch buffer r.loaded, .unlock (.fdmod n)]⟩

end UlmerOS
