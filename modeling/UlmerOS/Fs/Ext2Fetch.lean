import UlmerOS.Fs.Ext2

/-!
# Reading ext2 from a device that may fail

`ext2_read`, `fetch_inode`, `ext2_fetch_file`, `ext2_fetch_dir` and `ext2_fetch` of
`fs/ext2fs.c`.

A device answers each read as it likes: `Device.result` is what the `n`-th read returns, and
what the buffer holds then.  The reads that were made are recorded in order, with the size
that was asked for and the value that was returned.  A record is `Bad` if less came back than
was asked for, or an error.

Each function here is that of `Fs/Ext2.lean` for the read it makes next, so that on a device
whose answers do not change `ext2ReadOn` is `ext2Read`.
-/

namespace UlmerOS.Ext2

open ByteMem

/-! ## The device -/

/-- A device: the value that the `n`-th read returns for a position and a size, and the bytes
that the buffer holds afterwards. -/
structure Device where
  result : Nat → Nat → Nat → Int × Mem
  ssize : ∀ n off size, -2 ^ 63 ≤ (result n off size).1 ∧ (result n off size).1 < 2 ^ 63

/-- A read that was made: of a block of pointers or of something else, how many bytes were
asked for, and what was returned. -/
structure DevRead where
  pointers : Bool
  size : Nat
  ret : Int

/-- Less was read than was asked for, or there was an error. -/
def DevRead.Bad (r : DevRead) : Prop := r.ret < r.size

instance (r : DevRead) : Decidable r.Bad := inferInstanceAs (Decidable (_ < _))

/-- The read was short, and there was no error. -/
def DevRead.Short (r : DevRead) : Prop := 0 ≤ r.ret ∧ r.ret < r.size

/-- `ext2fs_t`, on a device that may fail. -/
structure Mount where
  dev : Device
  blockSizeLog : Nat
  totalInodes : Nat
  inodesPerGroup : Nat
  majorVersion : Nat
  inodeSize : Nat
  /-- `group_descriptors[i].bg_inode_table`. -/
  bgInodeTable : Nat → Nat

/-- The file system as the `n`-th read finds it. -/
def Mount.nth (fs : Mount) (n : Nat) : Ext2Fs where
  read := fun off size => (toSize (fs.dev.result n off size).1, (fs.dev.result n off size).2)
  blockSizeLog := fs.blockSizeLog

/-- `fs->block_size`. -/
def Mount.blockSize (fs : Mount) : Nat := 0x400 <<< fs.blockSizeLog

@[simp] theorem Mount.nth_blockSize (fs : Mount) (n : Nat) : (fs.nth n).blockSize = fs.blockSize :=
  rfl

/-- The record of the `n`-th read, of `count` sectors. -/
def Mount.record (fs : Mount) (n : Nat) (pointers : Bool) (lba count : Nat) : DevRead where
  pointers := pointers
  size := wrap64 (count * 512)
  ret := (fs.dev.result n (wrap64 (lba * 512)) (wrap64 (count * 512))).1

/-! ## Blocks and files -/

/-- `ext2_get_block`, as the next read. -/
def getBlock (fs : Mount) (log : List DevRead) (buffer : Mem) (lba count : Nat) :
    Bool × Mem × List DevRead :=
  let (ok, buffer) := ext2GetBlock (fs.nth log.length) buffer lba count
  (ok, buffer, log ++ [fs.record log.length false lba count])

/-- `ext2_get_file_block`.  It reads from the device behind the direct blocks. -/
def getFileBlock (fs : Mount) (log : List DevRead) (inode : Inode) (blockBuffer : Mem)
    (index : Nat) : Outcome (Nat × Mem × List DevRead) := do
  let (blockNo, blockBuffer) ← ext2GetFileBlock (fs.nth log.length) inode blockBuffer index
  let lba := wrap64 (inode.indirect.toNat * (fs.blockSize / 512))
  .ret (blockNo, blockBuffer,
    if index < 12 then log
    else log ++ [fs.record log.length true lba (fs.blockSize / 512)])

/-- One round of the loop of `ext2_read`. -/
def readBlockOn (fs : Mount) (inode : Inode) (offset len : Nat) (st : ReadState)
    (log : List DevRead) : Outcome (Bool × ReadState × List DevRead) := do
  let currentBlock := wrap64 (offset + st.bytesRead) / fs.blockSize
  let (blockNo, blockBuffer, log) ← getFileBlock fs log inode st.blockBuffer currentBlock
  let (ok, blockBuffer, log) := getBlock fs log blockBuffer
    (wrap64 (blockNo * fs.blockSize) / 512) (fs.blockSize / 512)
  if ok = false then .ret (false, { st with blockBuffer := blockBuffer }, log)
  else
    let (bbOffset, cpySize) := copySize fs.blockSize offset len st.bytesRead
    .ret (true,
      { bytesRead := wrap64 (st.bytesRead + cpySize)
        blockBuffer := blockBuffer
        buffer := memcpyFrom st.buffer blockBuffer st.bytesRead bbOffset cpySize }, log)

/-- The loop of `ext2_read`. -/
def readLoopOn (fs : Mount) (inode : Inode) (offset len : Nat) :
    Nat → ReadState → List DevRead → Outcome (Bool × ReadState × List DevRead)
  | 0, _, _ => .hang
  | fuel + 1, st, log =>
      if st.bytesRead < len then do
        let (ok, st, log) ← readBlockOn fs inode offset len st log
        if ok = false then .ret (false, st, log) else readLoopOn fs inode offset len fuel st log
      else .ret (true, st, log)

/-- `ext2_read`: what it returns, the buffer, and the reads that were made. -/
def ext2ReadOn (fs : Mount) (log : List DevRead) (inode : Inode) (length : Nat)
    (left buffer : Mem) (len offset : Nat) : Outcome (ReadResult × Mem × List DevRead) := do
  let len := if length < wrap64 (offset + len) then wrap64 (length + word - offset) else len
  let (ok, st, log) ← readLoopOn fs inode offset len (len + 1)
    { bytesRead := 0, blockBuffer := left, buffer := buffer } log
  .ret (if ok then .bytes st.bytesRead else .eio, st.buffer, log)

/-! ## A device whose answers do not change -/

section

variable {fs : Mount} {fs0 : Ext2Fs} (hfs : ∀ n, fs.nth n = fs0)
include hfs

theorem readBlockOn_const (inode : Inode) (offset len : Nat) (st : ReadState)
    (log : List DevRead) :
    (readBlockOn fs inode offset len st log >>= fun r => .ret (r.1, r.2.1)) =
      ext2ReadBlock fs0 inode offset len st := by
  have hsize : fs.blockSize = fs0.blockSize := by rw [← hfs 0, Mount.nth_blockSize]
  simp only [readBlockOn, ext2ReadBlock, getFileBlock, getBlock, hfs, hsize]
  cases ext2GetFileBlock fs0 inode st.blockBuffer
      (wrap64 (offset + st.bytesRead) / fs0.blockSize) with
  | ret r =>
      simp only [Outcome.ret_bind]
      cases (ext2GetBlock fs0 r.2 (wrap64 (r.1 * fs0.blockSize) / 512)
        (fs0.blockSize / 512)).1 <;> rfl
  | _ => rfl

theorem readLoopOn_const (inode : Inode) (offset len fuel : Nat) (st : ReadState)
    (log : List DevRead) :
    (readLoopOn fs inode offset len fuel st log >>= fun r => .ret (r.1, r.2.1)) =
      ext2ReadLoop fs0 inode offset len fuel st := by
  induction fuel generalizing st log with
  | zero => rfl
  | succ fuel ih =>
      rw [readLoopOn, ext2ReadLoop]
      split
      · rw [← readBlockOn_const hfs inode offset len st log]
        cases readBlockOn fs inode offset len st log with
        | ret r =>
            simp only [Outcome.ret_bind]
            split
            · rfl
            · exact ih _ _
        | _ => rfl
      · rfl

/-- The bytes read and the value returned are those of `ext2Read`. -/
theorem ext2ReadOn_const (log : List DevRead) (inode : Inode) (length : Nat)
    (left buffer : Mem) (len offset : Nat) :
    (ext2ReadOn fs log inode length left buffer len offset >>= fun r => .ret (r.1, r.2.1)) =
      ext2Read fs0 inode length left buffer len offset := by
  rw [ext2ReadOn, ext2Read]
  simp only [← readLoopOn_const hfs inode offset _ _ _ log]
  cases readLoopOn fs inode offset
    (if length < wrap64 (offset + len) then wrap64 (length + word - offset) else len)
    ((if length < wrap64 (offset + len) then wrap64 (length + word - offset) else len) + 1)
    { bytesRead := 0, blockBuffer := left, buffer := buffer } log <;> rfl

end

/-! ## Inodes -/

/-- `fetch_inode`, on the inode in memory: what it returns, and the inode afterwards.  A
divisor that is zero is a fault of the processor. -/
def fetchInode (fs : Mount) (log : List DevRead) (inodeNo : Nat) (left inode : Mem) :
    Outcome (Int × Mem × List DevRead) :=
  let index := wrap64 (inodeNo + word - 1)
  let inodeSize := if fs.majorVersion < 1 then 128 else fs.inodeSize
  if inodeNo > fs.totalInodes then .ret (-enoent, inode, log)
  else if fs.inodesPerGroup = 0 ∨ inodeSize = 0 ∨ 512 / inodeSize = 0 then .fault
  else
    let groupNo := index / fs.inodesPerGroup
    let inodesPerSector := 512 / inodeSize
    let lbaOffset := index % fs.inodesPerGroup / inodesPerSector
    let itableLba := wrap64 (lbaOffset + wrap64 (fs.bgInodeTable groupNo * fs.blockSize) / 512)
    let (ok, buffer, log) := getBlock fs log left itableLba 1
    if ok = false then .ret (-eio, inode, log)
    else
      let bufferIndex := index % inodesPerSector
      .ret (0, memcpyFrom inode buffer 0 (128 * bufferIndex) 128, log)

/-- The pointers of an inode in memory. -/
def inodeOf (inode : Mem) : Inode where
  iBlock := Vector.ofFn fun i => UInt32.ofNat (load inode (40 + 4 * i) 4)

/-- `direntry_t`. -/
structure DirEntry where
  name : Mem
  inode : Nat

/-- `F_DIR`. -/
def fDir : Nat := 0x4000

/-- What `ext2_fetch_file` sets of a `file_t`. -/
structure FetchedFile where
  type : Nat
  mode : Nat
  uid : Nat
  gid : Nat
  tLastAccessed : Nat
  tLastModified : Nat
  tCreated : Nat
  length : Nat
  inode : Nat
  /-- The inode that `driver2` points to. -/
  driver2 : Mem
  /-- The entries of `special.directory`, if the file is one. -/
  directory : Option (List DirEntry)

/-- What the memory held that `kmalloc` returned: for the inode, for the sector it is in, for
the data of a directory, for a block, and for a name. -/
structure Left where
  inode : Mem
  sector : Mem
  data : Mem
  block : Mem
  name : Mem

/-- `strnlen(s, size)`, which counts the terminator. -/
def strnlen (s : Mem) : Nat → Nat
  | 0 => 0
  | size + 1 => if s 0 = 0 then 1 else strnlen (fun i => s (i + 1)) size + 1

/-- `strncpy(name, src, length)` and the terminator behind it. -/
def entryName (left src : Mem) (length : Nat) : Mem := fun i =>
  if i = length then 0 else if i < strnlen src length then src i else left i

/-- The bytes of the buffer that are read for the record at `index`: `size` and `inode`, and
`name_length` and the name if the inode is not zero. -/
def recordReads (buffer : Mem) (index : Nat) : List Nat :=
  List.range' index 6 ++
    if load buffer index 4 = 0 then []
    else
      (index + 6) :: List.range' (index + 8)
        (strnlen (fun i => buffer (index + 8 + i)) (load buffer (index + 6) 1))

/-- The entry that is added for the record at `index`, if its inode is not zero. -/
def recordEntry (left buffer : Mem) (index : Nat) : List DirEntry :=
  let entryInode := load buffer index 4
  let nameLength := load buffer (index + 6) 1
  if entryInode = 0 then []
  else [⟨entryName left (fun i => buffer (index + 8 + i)) nameLength, entryInode⟩]

/-- The loop of `ext2_fetch_dir`: the entries, and the bytes of the buffer that are read. -/
def parseDir (left buffer : Mem) (length : Nat) : Nat → Nat → List DirEntry → List Nat →
    Outcome (List DirEntry × List Nat)
  | 0, _, _, _ => .hang
  | fuel + 1, index, files, reads =>
      if index < length then
        parseDir left buffer length fuel (wrap64 (index + load buffer (index + 4) 2))
          (files ++ recordEntry left buffer index) (reads ++ recordReads buffer index)
      else .ret (files, reads)

/-- `ext2_fetch_dir`.  What `ext2_read` returns is not looked at. -/
def fetchDir (fs : Mount) (log : List DevRead) (left : Left) (inode : Mem) (length : Nat) :
    Outcome (List DirEntry × List DevRead) := do
  let (_, buffer, log) ← ext2ReadOn fs log (inodeOf inode) length left.block left.data length 0
  let (files, _) ← parseDir left.name buffer length (length + 1) 0 [] []
  .ret (files, log)

/-- `ext2_fetch_file`.  What `fetch_inode` returns is not looked at. -/
def fetchFile (fs : Mount) (left : Left) (inodeNo : Nat) :
    Outcome (FetchedFile × List DevRead) := do
  let (_, inode, log) ← fetchInode fs [] inodeNo left.sector left.inode
  let iMode := load inode 0 2
  let file : FetchedFile :=
    { type := iMode &&& 0xf000
      mode := iMode &&& 0x0fff
      uid := load inode 2 2
      gid := load inode 24 2
      tLastAccessed := load inode 8 4
      tLastModified := load inode 16 4
      tCreated := load inode 12 4
      length := load inode 4 4
      inode := inodeNo
      driver2 := inode
      directory := none }
  if file.type = fDir then do
    let (files, log) ← fetchDir fs log left inode file.length
    .ret ({ file with directory := some files }, log)
  else .ret (file, log)

/-- `ext2_fetch`: the file that `direntry->file` points to afterwards. -/
def ext2Fetch (fs : Mount) (left : Left) (direntry : DirEntry) :
    Outcome (Option FetchedFile × List DevRead) := do
  let (file, log) ← fetchFile fs left direntry.inode
  .ret (some file, log)

end UlmerOS.Ext2
