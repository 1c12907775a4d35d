import UlmerOS.Base
import Mathlib.Logic.Function.Basic

/-!
# Path lookup

`fs/ffind.c`, the string functions it uses, and `vfs_mknod` and `vfs_mkdir` of `fs/vfs.c`.

A path is the list of its bytes up to the terminator, and a pointer into it is an index.
`ffind_recursive` looks back at `rem[-1]`, so it needs the whole string and not only what
is left of it.  `file_t` and `dir_t` are records at addresses, and following a pointer to
an address without one is a fault.  Directory entries have no pointers to them other than
those in the list of their directory, so they stand in that list.

The list of a directory is a list of `void*`.  `ffind_recursive` takes every payload for a
`direntry_t`, but what `ffind_noent` adds is the new `file_t` itself.  So a payload is a
`Slot`, which is one or the other.  Taken for a `direntry_t`, a `file_t` has as its name
the bytes of its mode, the padding behind them and the type, whose low byte is zero.  Its
`file` field lies behind the end of the `file_t`, in memory that is not part of it.

`fetch` is the function of the file system.  What `kmalloc` returns, and what the memory
held, are arguments.  The tree lock is left out.
-/

namespace UlmerOS.Fs

/-! ## Strings -/

/-- The bytes of a string before its terminator. -/
abbrev CString := List UInt8

/-- `'/'`. -/
def slash : UInt8 := 47

/-- `"."`. -/
def dot : CString := [46]

/-- `strclen`. -/
def strclen (terminator : UInt8) : CString → Nat
  | [] => 0
  | c :: cs => if c = terminator then 0 else strclen terminator cs + 1

/-- `strccpy`: the bytes copied, and how far the source pointer moves. -/
def strccpy (terminator : UInt8) : CString → CString × Nat
  | [] => ([], 0)
  | c :: cs =>
      if c = terminator then ([], 1)
      else (c :: (strccpy terminator cs).1, (strccpy terminator cs).2 + 1)

/-- `strccpy(current_name, src, '/')`, where `current_name` has 256 bytes. -/
def copyName (src : CString) : Outcome (CString × Nat) :=
  if (strccpy slash src).1.length + 1 ≤ 256 then .ret (strccpy slash src) else .fault

/-- `*(rem - 1)`. -/
def lookBack (str : CString) (rem : Nat) : Outcome UInt8 :=
  if rem = 0 then .fault
  else
    match str[rem - 1]? with
    | none => .fault
    | some c => .ret c

/-! ## Files and directories -/

/-- `ftype_t`. -/
inductive FType where
  | fifo
  | char
  | dir
  | block
  | regular
  | symlink
  | socket
  | unknown
deriving DecidableEq, Repr

/-- `file_t`.  `special` is the word of the union, and `padding` the two bytes between
`mode` and `type`. -/
structure FileT where
  mode : Nat
  padding : UInt8 × UInt8
  type : FType
  uid : Nat
  gid : Nat
  tLastModified : Nat
  tLastAccessed : Nat
  tCreated : Nat
  length : Nat
  inode : Nat
  driver1 : Nat
  driver2 : Nat
  parent : Nat
  special : Nat
deriving DecidableEq, Repr

/-- `direntry_t`. -/
structure DirEntry where
  name : CString
  inode : Nat
  file : Nat
deriving DecidableEq, Repr

/-- A payload of the list of a directory. -/
inductive Slot where
  | dentry (entry : DirEntry)
  | file (file : Nat)
deriving DecidableEq, Repr

/-- `dir_t`. -/
structure DirT where
  file : Nat
  files : List Slot
  parent : Nat
  mounted : Nat
  fstype : Nat
  driver : Nat
deriving DecidableEq, Repr

/-- The memory of the file system tree. -/
structure Vfs where
  files : Nat → Option FileT
  dirs : Nat → Option DirT
  /-- `VFS_ROOT`. -/
  root : Nat
  /-- The word where a `file_t` would have its `file` field, if it were a `direntry_t`. -/
  behind : Nat → Nat

/-- Follow a pointer to a `file_t`. -/
def Vfs.file (s : Vfs) (a : Nat) : Outcome FileT :=
  match s.files a with
  | none => .fault
  | some f => .ret f

/-- Follow a pointer to a `dir_t`. -/
def Vfs.dir (s : Vfs) (a : Nat) : Outcome DirT :=
  match s.dirs a with
  | none => .fault
  | some d => .ret d

/-- Write a `file_t`. -/
def Vfs.setFile (s : Vfs) (a : Nat) (f : FileT) : Vfs :=
  { s with files := Function.update s.files a (some f) }

/-- Write a `dir_t`. -/
def Vfs.setDir (s : Vfs) (a : Nat) (d : DirT) : Vfs :=
  { s with dirs := Function.update s.dirs a (some d) }

/-- The payload at a place of the list of a directory. -/
def Vfs.slot (s : Vfs) (dir i : Nat) : Outcome Slot := do
  let d ← s.dir dir
  match d.files[i]? with
  | none => .fault
  | some slot => .ret slot

/-- The string at the start of a `file_t`. -/
def FileT.asName (f : FileT) : CString :=
  [UInt8.ofNat f.mode, UInt8.ofNat (f.mode / 256), f.padding.1, f.padding.2].takeWhile (· ≠ 0)

/-- `entry->name`. -/
def slotName (s : Vfs) : Slot → Outcome CString
  | .dentry entry => .ret entry.name
  | .file file => do
      let f ← s.file file
      .ret f.asName

/-- `entry->file`. -/
def slotFile (s : Vfs) : Slot → Nat
  | .dentry entry => entry.file
  | .file file => s.behind file

/-! ## Lookup -/

/-- What the functions return, `SUCCESS` or a negative error number. -/
inductive Status where
  | success
  | enoent
  | eexist
  | enotdir
  | einval
  | enametoolong
deriving DecidableEq, Repr

/-- `fetch` of each file system, given the directory and the place of the entry. -/
abbrev Fetch := Nat → Vfs → Nat → Nat → Outcome Vfs

/-- `fs_fetch`. -/
def fsFetch (debug : Bool) (fetch : Fetch) (s : Vfs) (parent i : Nat) : Outcome Vfs := do
  let d ← s.dir parent
  let slot ← s.slot parent i
  if slotFile s slot ≠ 0 then .ret s
  else if debug ∧ d.fstype = 0 then .panic "assert failed: no filesystem info in directory"
  else if d.fstype = 0 then .fault
  else do
    let s ← fetch d.fstype s parent i
    let slot ← s.slot parent i
    let f ← s.file (slotFile s slot)
    .ret (s.setFile (slotFile s slot) { f with parent := parent })

/-- `*node`. -/
def derefNode : Option Nat → Outcome Nat
  | none => .fault
  | some file => .ret file

/-- `ffind_noent`. -/
def ffindNoent (s : Vfs) (parent : Nat) (create : Bool) (newFile : Nat) :
    Outcome (Status × Vfs) :=
  if create = false then .ret (.enoent, s)
  else do
    let d ← s.dir parent
    let s := s.setDir parent { d with files := d.files ++ [.file newFile] }
    let f ← s.file newFile
    let pf ← s.file d.file
    let f := { f with parent := parent, driver1 := pf.driver1, driver2 := 0 }
    let s := s.setFile newFile f
    if f.type = .dir then do
      let nd ← s.dir f.special
      .ret (.success, s.setDir f.special { nd with parent := parent, driver := f.driver1 })
    else .ret (.success, s)

/-- `ffind_success`. -/
def ffindSuccess (create : Bool) : Status := if create then .eexist else .success

/-- The loop over the entries: the place of the first one with this name. -/
def findEntry (s : Vfs) (name : CString) : List Slot → Nat → Outcome (Option Nat)
  | [], _ => .ret none
  | slot :: slots, i => do
      let n ← slotName s slot
      if n = name then .ret (some i) else findEntry s name slots (i + 1)

/-- `return ffind_noent(working_dir, flags, file)`. -/
def noent (s : Vfs) (workingDir : Nat) (node : Option Nat) (create : Bool) (file : Nat) :
    Outcome (Status × Option Nat × Vfs) := do
  let r ← ffindNoent s workingDir create file
  .ret (r.1, node, r.2)

/-- The end of the path: `*node = entry->file`. -/
def storeNode (s : Vfs) (file : Nat) (node : Option Nat) (create : Bool) :
    Outcome (Status × Option Nat × Vfs) := do
  let target ← derefNode node
  .ret (ffindSuccess create, some (if target ≠ 0 then file else target), s)

/-- The branch of `ffind_recursive` for the last component. -/
def ffindLast (s : Vfs) (str : CString) (rem file : Nat) (node : Option Nat) (create : Bool) :
    Outcome (Status × Option Nat × Vfs) := do
  let c ← lookBack str rem
  if c = slash then do
    let f ← s.file file
    if f.type ≠ .dir then .ret (.enotdir, node, s) else storeNode s file node create
  else storeNode s file node create

/-- `mounted` is followed once. -/
def mountPoint (wd : DirT) (workingDir : Nat) : Nat :=
  if wd.mounted ≠ 0 then wd.mounted else workingDir

/-- `ffind_recursive`.  `pathname` is a place in `str`, and the depth of the recursion is
bounded by the fuel. -/
def ffindRecursiveWith (debug : Bool) (fetch : Fetch) : Nat → Vfs → CString → Nat → Nat →
    Option Nat → Bool → Outcome (Status × Option Nat × Vfs)
  | 0, _, _, _, _, _, _ => .hang
  | fuel + 1, s, str, pathname, workingDir, node, create =>
      if 255 < strclen slash (str.drop pathname) then .ret (.enametoolong, node, s)
      else do
        let (copied, n) ← copyName (str.drop pathname)
        let rem := pathname + n
        let currentName := if copied.length = 0 then dot else copied
        let wd ← s.dir workingDir
        let workingDir := mountPoint wd workingDir
        let wd ← s.dir workingDir
        if wd.files.length = 0 then do
          let file ← derefNode node
          noent s workingDir node create file
        else do
          let found ← findEntry s currentName wd.files 0
          match found with
          | none => noent s workingDir node create (node.getD 0)
          | some i => do
              let s ← fsFetch debug fetch s workingDir i
              let slot ← s.slot workingDir i
              if str.length ≤ rem then ffindLast s str rem (slotFile s slot) node create
              else do
                let f ← s.file (slotFile s slot)
                if f.type ≠ .dir then do
                  let file ← derefNode node
                  noent s workingDir node create file
                else ffindRecursiveWith debug fetch fuel s str rem f.special node create

/-- `ffind_recursive`.  Each level takes a byte of the path at least. -/
def ffindRecursive (debug : Bool) (fetch : Fetch) (s : Vfs) (str : CString)
    (pathname workingDir : Nat) (node : Option Nat) (create : Bool) :
    Outcome (Status × Option Nat × Vfs) :=
  ffindRecursiveWith debug fetch (str.length - pathname + 1) s str pathname workingDir node create

/-- A byte of a string, its terminator, or what lies behind it. -/
def byteAt (str : CString) (past : UInt8) (i : Nat) : UInt8 :=
  if i < str.length then str.getD i 0 else if i = str.length then 0 else past

/-- `ffind`. -/
def ffind (debug : Bool) (fetch : Fetch) (past : UInt8) (s : Vfs) (workingDir : Nat)
    (str : CString) (node : Option Nat) (create : Bool) : Outcome (Status × Option Nat × Vfs) :=
  if byteAt str past 0 = slash then
    -- `pathname` was moved behind the slash, and its second byte is read.
    if byteAt str past 2 = 0 then
      if create then .ret (.eexist, node, s)
      else do
        let target ← derefNode node
        let rd ← s.dir s.root
        .ret (.success, some (if target ≠ 0 then rd.file else target), s)
    else ffindRecursive debug fetch s str 1 s.root node create
  else ffindRecursive debug fetch s str 0 workingDir node create

/-! ## Creation -/

/-- What is read of a `proc_t`. -/
structure Caller where
  workingDir : Nat
  uid : Nat
  gid : Nat
deriving DecidableEq, Repr

/-- `get_working_dir`. -/
def getWorkingDir (s : Vfs) : Option Caller → Nat
  | none => s.root
  | some proc => if proc.workingDir ≠ 0 then proc.workingDir else s.root

/-- `falloc`, in memory that held `left`. -/
def falloc (now : Nat) (proc : Option Caller) (type : FType) (mode : Nat) (left : FileT) : FileT :=
  { left with
    mode := mode
    uid := (proc.map Caller.uid).getD 0
    gid := (proc.map Caller.gid).getD 0
    inode := 0
    driver1 := 0
    driver2 := 0
    tCreated := now
    tLastAccessed := now
    tLastModified := now
    type := type
    length := 0 }

/-- `kfree(file)`. -/
def Vfs.freeFile (s : Vfs) (a : Nat) : Vfs := { s with files := Function.update s.files a none }

/-- `kfree(dir)`. -/
def Vfs.freeDir (s : Vfs) (a : Nat) : Vfs := { s with dirs := Function.update s.dirs a none }

/-- What a creation needs of its surroundings: the build, the file systems, the byte behind
the path, the time, and what `kmalloc` returns and the memory there held. -/
structure Env where
  debug : Bool
  fetch : Fetch
  past : UInt8
  now : Nat
  fileAddr : Nat
  fileLeft : FileT
  dirAddr : Nat
  dirLeft : DirT

/-- `special.device`. -/
def deviceSpecial (major minor : Nat) : Nat := major % 2 ^ 32 + 2 ^ 32 * (minor % 2 ^ 32)

/-- `vfs_mknod`. -/
def vfsMknod (e : Env) (s : Vfs) (proc : Option Caller) (pathname : CString) (type : FType)
    (mode major minor : Nat) : Outcome (Status × Vfs) :=
  if type ≠ .block ∧ type ≠ .char ∧ type ≠ .fifo ∧ type ≠ .socket then .ret (.einval, s)
  else do
    let workingDir := getWorkingDir s proc
    let (status, _, s) ← ffind e.debug e.fetch e.past s workingDir pathname none false
    if status ≠ .enoent then
      .ret (if status ≠ .success then status else .eexist, s)
    else do
      let file := { falloc e.now proc type mode e.fileLeft with
        inode := 0, special := deviceSpecial major minor }
      let s := s.setFile e.fileAddr file
      let (status, node, s) ←
        ffind e.debug e.fetch e.past s workingDir pathname (some e.fileAddr) true
      .ret (status, if status ≠ .success then s.freeFile (node.getD 0) else s)

/-- `vfs_mkdir`. -/
def vfsMkdir (e : Env) (s : Vfs) (proc : Option Caller) (pathname : CString) (mode : Nat) :
    Outcome (Status × Vfs) := do
  let workingDir := getWorkingDir s proc
  let (status, _, s) ← ffind e.debug e.fetch e.past s workingDir pathname none false
  if status ≠ .enoent then
    .ret (if status ≠ .success then status else .eexist, s)
  else do
    let dir := { e.dirLeft with
      driver := 0, files := [], fstype := 0, mounted := 0, file := e.fileAddr }
    let file := { falloc e.now proc .dir mode e.fileLeft with special := e.dirAddr, inode := 0 }
    let s := (s.setDir e.dirAddr dir).setFile e.fileAddr file
    let (status, node, s) ←
      ffind e.debug e.fetch e.past s workingDir pathname (some e.fileAddr) true
    .ret (status,
      if status ≠ .success then (s.freeFile (node.getD 0)).freeDir e.dirAddr else s)

end UlmerOS.Fs
