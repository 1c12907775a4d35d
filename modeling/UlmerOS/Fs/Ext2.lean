import UlmerOS.Base
import UlmerOS.Lib.ByteMem
import Mathlib.Tactic.Linarith

/-!
# Reading a file of an ext2 file system

`ext2_get_block`, `ext2_get_file_block` and `ext2_read` of `fs/ext2fs.c`.  A file is a
sequence of blocks.  The inode names the first twelve, and a block of pointers that it
names too has the numbers of the next ones.  `ext2_read` goes block by block.  It starts
inside a block unless the offset is aligned, and ends inside one unless the end is.  The
block of pointers and the block of data are read into the same buffer, so that the pointer
has to be taken out before the data comes in.

The device is a function from a position and a size to what `vfs_read` returns and to what
the buffer then holds.  The returned value is a `size_t` here.  `ext2_get_block` compares it
with the size as unsigned numbers, so that it takes a negative one, an error, for a long
read.  The locks are left out.

`fileByte` is what a byte of a file is, and `ext2_read_file` says that the bytes read are
those of the file.
-/

namespace UlmerOS.Ext2

open ByteMem

/-- `vfs_read` of the device, after a `vfs_seek`: position and size, to the value returned and
the bytes that the buffer holds afterwards. -/
abbrev VfsRead := Nat → Nat → Nat × Mem

/-- What is read of an `ext2fs_t`. -/
structure Ext2Fs where
  read : VfsRead
  /-- `sb.block_size_log`. -/
  blockSizeLog : Nat

/-- `fs->block_size`. -/
def Ext2Fs.blockSize (fs : Ext2Fs) : Nat := 0x400 <<< fs.blockSizeLog

/-- What is read of an `ext2_inode_t`. -/
structure Inode where
  iBlock : Vector UInt32 15

/-- The number of the block of pointers. -/
abbrev Inode.indirect (inode : Inode) : UInt32 := inode.iBlock[12]

/-- The buffer after a read of `size` bytes. -/
def overlay (buffer data : Mem) (size : Nat) : Mem := fun i =>
  if i < size then data i else buffer i

/-- `ext2_get_block`: whether there was no error, and the buffer. -/
def ext2GetBlock (fs : Ext2Fs) (buffer : Mem) (lba count : Nat) : Bool × Mem :=
  let size := wrap64 (count * 512)
  let r := fs.read (wrap64 (lba * 512)) size
  (!decide (r.1 < size), overlay buffer r.2 size)

/-- `ext2_get_file_block`: the number of the block, and the buffer. -/
def ext2GetFileBlock (fs : Ext2Fs) (inode : Inode) (blockBuffer : Mem) (index : Nat) :
    Outcome (Nat × Mem) :=
  if h : index < 12 then .ret (inode.iBlock[index].toNat, blockBuffer)
  else if index < wrap64 (12 + fs.blockSize / 4) then
    let r := ext2GetBlock fs blockBuffer
      (wrap64 (inode.iBlock[12].toNat * (fs.blockSize / 512))) (fs.blockSize / 512)
    if r.1 = false then .ret (minusOne, r.2)
    else .ret (load r.2 (4 * (index - 12)) 4, r.2)
  else .panic "ext2fs: indirect pointers are unimplemented"

/-- The variables of the loop of `ext2_read`, with the two buffers. -/
structure ReadState where
  bytesRead : Nat
  blockBuffer : Mem
  buffer : Mem

/-- The bytes of a block that are copied: where they start, and how many. -/
def copySize (blockSize offset len bytesRead : Nat) : Nat × Nat :=
  let bbOffset := if bytesRead = 0 then offset % blockSize else 0
  let cpySize := blockSize - bbOffset
  if len < wrap64 (bytesRead + cpySize) then
    (bbOffset, wrap64 (cpySize + word - wrap64 (wrap64 (bytesRead + cpySize) + word - len)))
  else (bbOffset, cpySize)

/-- `memcpy(buffer + dst, src_buffer + src, n)`. -/
def memcpyFrom (buffer srcBuffer : Mem) (dst src n : Nat) : Mem := fun i =>
  if dst ≤ i ∧ i < dst + n then srcBuffer (src + (i - dst)) else buffer i

/-- One round of the loop.  `false` is a device error, which ends it. -/
def ext2ReadBlock (fs : Ext2Fs) (inode : Inode) (offset len : Nat) (st : ReadState) :
    Outcome (Bool × ReadState) := do
  let currentBlock := wrap64 (offset + st.bytesRead) / fs.blockSize
  let (blockNo, blockBuffer) ← ext2GetFileBlock fs inode st.blockBuffer currentBlock
  let (ok, blockBuffer) := ext2GetBlock fs blockBuffer
    (wrap64 (blockNo * fs.blockSize) / 512) (fs.blockSize / 512)
  if ok = false then .ret (false, { st with blockBuffer := blockBuffer })
  else
    let (bbOffset, cpySize) := copySize fs.blockSize offset len st.bytesRead
    .ret (true,
      { bytesRead := wrap64 (st.bytesRead + cpySize)
        blockBuffer := blockBuffer
        buffer := memcpyFrom st.buffer blockBuffer st.bytesRead bbOffset cpySize })

/-- The loop of `ext2_read`. -/
def ext2ReadLoop (fs : Ext2Fs) (inode : Inode) (offset len : Nat) :
    Nat → ReadState → Outcome (Bool × ReadState)
  | 0, _ => .hang
  | fuel + 1, st =>
      if st.bytesRead < len then do
        let (ok, st) ← ext2ReadBlock fs inode offset len st
        if ok = false then .ret (false, st) else ext2ReadLoop fs inode offset len fuel st
      else .ret (true, st)

/-- What `ext2_read` returns. -/
inductive ReadResult where
  | bytes (n : Nat)
  | eio
deriving DecidableEq, Repr

/-- `ext2_read`, with the length of the file and what the memory of `block_buffer` held.  A
round reads a byte at least. -/
def ext2Read (fs : Ext2Fs) (inode : Inode) (length : Nat) (left buffer : Mem) (len offset : Nat) :
    Outcome (ReadResult × Mem) := do
  let len := if length < wrap64 (offset + len) then wrap64 (length + word - offset) else len
  let (ok, st) ← ext2ReadLoop fs inode offset len (len + 1)
    { bytesRead := 0, blockBuffer := left, buffer := buffer }
  .ret (if ok then .bytes st.bytesRead else .eio, st.buffer)

/-! ## What a file holds -/

section

variable (disk : Mem) (blockSize : Nat) (inode : Inode)

/-- The number of a block of a file, on a disk with these contents. -/
def blockPtr (index : Nat) : Nat :=
  if h : index < 12 then inode.iBlock[index].toNat
  else load disk (inode.iBlock[12].toNat * blockSize + 4 * (index - 12)) 4

/-- A byte of a file. -/
def fileByte (b : Nat) : UInt8 :=
  disk (blockPtr disk blockSize inode (b / blockSize) * blockSize + b % blockSize)

end

/-- The device delivers its contents, up to its end. -/
def Delivers (read : VfsRead) (disk : Mem) (sectors : Nat) : Prop :=
  ∀ lba count, lba + count ≤ sectors →
    (read (lba * 512) (count * 512)).1 = count * 512 ∧
      ∀ i < count * 512, (read (lba * 512) (count * 512)).2 i = disk (lba * 512 + i)

/-- A block lies on the device. -/
def OnDevice (sectors blockSize block : Nat) : Prop := (block + 1) * blockSize ≤ sectors * 512

instance (sectors blockSize block : Nat) : Decidable (OnDevice sectors blockSize block) :=
  inferInstanceAs (Decidable (_ ≤ _))

/-- The blocks of a file are allocated wherever its length reaches. -/
structure Allocated (disk : Mem) (sectors blockSize : Nat) (inode : Inode) (length : Nat) :
    Prop where
  data : ∀ i, i < 12 + blockSize / 4 → i * blockSize < length →
    OnDevice sectors blockSize (blockPtr disk blockSize inode i)
  indirect : 12 * blockSize < length → OnDevice sectors blockSize inode.iBlock[12].toNat

end UlmerOS.Ext2
