import UlmerOS.Arch.VspaceMap

/-!
# The ELF loader

`kernel/sched/loader.c`.  A loader holds the file of a program, its ELF header and
its program header table.  `loader_load` maps a page of the program into an address
space, with what the file has for it.

A file is what `vfs_read` delivers of it, at an offset and for a length, with the
value it returns.  Whether a driver writes no more than it is asked for is not a matter
of the loader (`ext2_read` does not, when the offset is behind the end of the file), so
that `File.Bounded` is said where it is needed.

Both buffers that the loader reads into come from `kmalloc`, which does not clear
them, so that the header and the table are what was read over what was there.

`load_heap_brk` and `loader_load` return with the lock of the loader held when the
program header table cannot be read.  `locked` says so: who takes the lock then
waits for ever.

`load_heap_brk` asserts that there is a segment to load (`invalid heap break`).  The
assertion is left out: in the debug build, a program without one ends in a panic.
-/

namespace UlmerOS

open ByteMem

/-- A file, as `vfs_seek` and `vfs_read` deliver it: the value that is returned for an
offset and a length, and the bytes that are written to the buffer. -/
structure File where
  read : Nat → Nat → Int × List UInt8

/-- No more is written than was asked for. -/
def File.Bounded (file : File) : Prop :=
  ∀ offset length, (file.read offset length).2.length ≤ length

/-- A file that is its bytes, up to its end. -/
def File.ofBytes (bytes : List UInt8) : File where
  read := fun offset length =>
    (((bytes.drop offset).take length).length, (bytes.drop offset).take length)

theorem File.ofBytes_bounded (bytes : List UInt8) : (File.ofBytes bytes).Bounded :=
  fun offset length => List.length_take_le length (bytes.drop offset)

/-- The fields of `elf64_t` that are used. -/
structure Elf64 where
  magic : Nat
  endianness : Nat
  isa : Nat
  phtPos : Nat
  phtEntrySize : Nat
  phtEntries : Nat
deriving DecidableEq, Repr

/-- The packed header in a buffer. -/
def Elf64.ofBuf (buf : Mem) : Elf64 where
  magic := load buf 0 4
  endianness := load buf 5 1
  isa := load buf 18 2
  phtPos := load buf 32 8
  phtEntrySize := load buf 54 2
  phtEntries := load buf 56 2

/-- The fields of `elf64_phte_t` that are used. -/
structure Phte where
  type : Nat
  flags : Nat
  pOffset : Nat
  pVaddr : Nat
  pFilesz : Nat
  pMemsz : Nat
deriving DecidableEq, Repr

/-- `sizeof(elf64_phte_t)`. -/
def phteSize : Nat := 56

/-- An entry of the packed table in a buffer. -/
def Phte.ofBuf (buf : Mem) (i : Nat) : Phte where
  type := load buf (phteSize * i) 4
  flags := load buf (phteSize * i + 4) 4
  pOffset := load buf (phteSize * i + 8) 8
  pVaddr := load buf (phteSize * i + 16) 8
  pFilesz := load buf (phteSize * i + 32) 8
  pMemsz := load buf (phteSize * i + 40) 8

/-- `p_vaddr + p_memsz`. -/
def Phte.endAddr (phte : Phte) : Nat := wrap64 (phte.pVaddr + phte.pMemsz)

/-- A segment of the type `LOAD`. -/
def Phte.isLoad (phte : Phte) : Bool := decide (phte.type = 1)

/-- `loader_t`.  `phtBuf` is what is in the buffer for the table before it is read. -/
structure Loader where
  file : File
  header : Elf64
  pht : Option Mem
  phtBuf : Mem
  locked : Bool
  minHeapBreak : Nat

/-- The entries of the program header table. -/
def Loader.phtes (ldr : Loader) (pht : Mem) : List Phte :=
  (List.range ldr.header.phtEntries).map (Phte.ofBuf pht)

/-! ## Creating a loader -/

/-- `load_pht`.  The result of `vfs_read` is compared as a `size_t`. -/
def loadPht (ldr : Loader) : Int × Loader :=
  let phtSize := ldr.header.phtEntries * ldr.header.phtEntrySize
  if ldr.header.phtEntrySize ≠ phteSize then (-enoexec, ldr)
  else
    let (ret, bytes) := ldr.file.read ldr.header.phtPos phtSize
    if toSize ret < phtSize then (-enoexec, ldr)
    else (0, { ldr with pht := some (write ldr.phtBuf 0 bytes) })

/-- The table is read unless it is there. -/
def Loader.ready (ldr : Loader) : Int × Loader := if ldr.pht.isNone then loadPht ldr else (0, ldr)

/-- The loop of `load_heap_brk`. -/
def heapBreakAfter (phtes : List Phte) : Nat :=
  phtes.foldl (fun minHeapBreak phte =>
    if phte.isLoad ∧ phte.endAddr > minHeapBreak then
      wrap64 ((phte.endAddr >>> pageShift + 1) <<< pageShift)
    else minHeapBreak) 0

/-- `load_heap_brk`, on a loader whose lock is free. -/
def loadHeapBrk (ldr : Loader) : Int × Loader :=
  let (status, ldr) := ldr.ready
  if status < 0 then (status, { ldr with locked := true })
  else
    match ldr.pht with
    | none => (status, ldr) -- the table was read or was there
    | some pht =>
        let minHeapBreak := heapBreakAfter (ldr.phtes pht)
        (0, { ldr with minHeapBreak := if minHeapBreak = 0 then minusOne else minHeapBreak })

/-- `loader_create`.  `hdrBuf` and `phtBuf` are what is in the two buffers. -/
def loaderCreate (hdrBuf phtBuf : Mem) (file : File) : Option Loader :=
  let (ret, bytes) := file.read 0 64
  if ret < 0 then none
  else
    let header := Elf64.ofBuf (write hdrBuf 0 bytes)
    if header.magic ≠ 0x464c457f then none
    else if header.isa ≠ 0x3e ∨ header.endianness ≠ 1 then none
    else
      let (status, ldr) := loadHeapBrk
        { file := file, header := header, pht := none, phtBuf := phtBuf, locked := false,
          minHeapBreak := 0 }
      some (if status < 0 then { ldr with minHeapBreak := minusOne } else ldr)

/-! ## Loading a page -/

/-- The flags of a page of a segment. -/
def Phte.pageFlags (phte : Phte) : Nat :=
  pgUser ||| (if phte.flags &&& 1 = 0 then pgNoexec else 0)
    ||| (if phte.flags &&& 2 ≠ 0 then pgWrite else 0)

/-- The number of bytes that are read for the page at `fAddr`. -/
def Phte.readSize (phte : Phte) (fAddr : Nat) : Nat :=
  if phte.endAddr < wrap64 (fAddr + pageSize) then wrap64 (phte.endAddr + (word - fAddr))
  else pageSize

/-- The offset in the file that is read from for the page at `fAddr`. -/
def Phte.readOffset (phte : Phte) (fAddr : Nat) : Nat :=
  wrap64 (phte.pOffset + fAddr + (word - phte.pVaddr))

/-- What `vfs_read` returns and delivers for a page of the segment. -/
def Phte.contents (phte : Phte) (file : File) (virtPage : Nat) : Int × List UInt8 :=
  let fAddr := wrap64 (virtPage <<< pageShift)
  if phte.endAddr > fAddr then file.read (phte.readOffset fAddr) (phte.readSize fAddr) else (0, [])

/-- `loader_map_page`. -/
def loaderMapPage (m : PhysMem) (file : File) (phte : Phte) (virtPage : Nat) (vspace : Vspace) :
    Outcome (Int × PhysMem) := do
  let (ppn, m) ← allocPage m
  let (ret, bytes) := phte.contents file virtPage
  let m := { m with ram := write m.ram (pageSize * ppn) bytes }
  if ret < 0 then .ret (-eio, freePage m ppn)
  else do
    let m ← vspaceMap m vspace virtPage ppn phte.pageFlags
    .ret (0, m)

/-- The page is in the segment: its first byte is. -/
def Phte.covers (phte : Phte) (virtPage : Nat) : Bool :=
  decide (wrap64 (virtPage <<< pageShift) ≥ phte.pVaddr ∧
    wrap64 (virtPage <<< pageShift) < phte.endAddr)

/-- The loop of `loader_load`: the first segment to load that the page is in. -/
def Loader.segment (ldr : Loader) (pht : Mem) (virtPage : Nat) : Option Phte :=
  (ldr.phtes pht).find? fun phte => phte.isLoad && phte.covers virtPage

/-- `loader_load`. -/
def loaderLoad (m : PhysMem) (ldr : Loader) (virtPage : Nat) (vspace : Vspace) :
    Outcome (Int × Loader × PhysMem) :=
  if ldr.locked then .blocked
  else
    let (status, ldr) := ldr.ready
    if status < 0 then .ret (status, { ldr with locked := true }, m)
    else
      match ldr.pht with
      | none => .fault
      | some pht =>
          match ldr.segment pht virtPage with
          | none => .ret (-enoent, ldr, m)
          | some phte => do
              let (status, m) ← loaderMapPage m ldr.file phte virtPage vspace
              .ret (status, ldr, m)

/-! ## Programs -/

/-- The `n` bytes of a number, least significant first. -/
def bytesOf (n v : Nat) : List UInt8 := (List.range n).map fun i => UInt8.ofNat (v / 256 ^ i)

/-- An entry of the program header table as it is in a file. -/
def Phte.bytes (phte : Phte) : List UInt8 :=
  bytesOf 4 phte.type ++ bytesOf 4 phte.flags ++ bytesOf 8 phte.pOffset ++ bytesOf 8 phte.pVaddr
    ++ bytesOf 8 phte.pVaddr ++ bytesOf 8 phte.pFilesz ++ bytesOf 8 phte.pMemsz ++ bytesOf 8 4096

/-- A file with an ELF header, this table behind it, and then the rest. -/
def elfImage (phtes : List Phte) (rest : List UInt8) : List UInt8 :=
  bytesOf 4 0x464c457f ++ [2, 1, 1, 0] ++ bytesOf 8 0
    ++ bytesOf 2 2 ++ bytesOf 2 0x3e ++ bytesOf 4 1 ++ bytesOf 8 0x400000
    ++ bytesOf 8 64 ++ bytesOf 8 0 ++ bytesOf 4 0
    ++ bytesOf 2 64 ++ bytesOf 2 phteSize ++ bytesOf 2 phtes.length ++ bytesOf 6 0
    ++ phtes.flatMap Phte.bytes ++ rest

/-! ## What a loader has after it is created -/

theorem loadPht_cases (ldr : Loader) :
    loadPht ldr = (-enoexec, ldr) ∨ ∃ pht, loadPht ldr = (0, { ldr with pht := some pht }) := by
  simp only [loadPht]
  split
  · exact .inl rfl
  · split
    · exact .inl rfl
    · exact .inr ⟨_, rfl⟩

/-- The table could not be read, or it is there. -/
theorem Loader.ready_cases (ldr : Loader) :
    ldr.ready = (-enoexec, ldr) ∨ ∃ pht, ldr.ready = (0, { ldr with pht := some pht }) := by
  rw [ready]
  cases hpht : ldr.pht with
  | none => exact loadPht_cases ldr
  | some pht =>
      refine .inr ⟨pht, ?_⟩
      rw [Option.isNone_some, if_neg (by nofun), ← hpht]

theorem Loader.ready_file (ldr : Loader) : ldr.ready.2.file = ldr.file := by
  rcases ldr.ready_cases with hready | ⟨pht, hready⟩
  · rw [hready]
  · rw [hready]

theorem loadHeapBrk_cases (ldr : Loader) :
    loadHeapBrk ldr = (-enoexec, { ldr with locked := true }) ∨
      ∃ pht brk, loadHeapBrk ldr = (0, { ldr with pht := some pht, minHeapBreak := brk }) := by
  rw [loadHeapBrk]
  rcases ldr.ready_cases with hready | ⟨pht, hready⟩
  · rw [hready]
    exact .inl rfl
  · rw [hready]
    exact .inr ⟨pht, _, rfl⟩

/-- A loader of the file has its table, or its lock is held for ever. -/
theorem loaderCreate_cases {hdrBuf phtBuf : Mem} {file : File} {ldr : Loader}
    (h : loaderCreate hdrBuf phtBuf file = some ldr) :
    ldr.file = file ∧ ((ldr.locked = false ∧ ∃ pht, ldr.pht = some pht) ∨
      (ldr.locked = true ∧ ldr.minHeapBreak = minusOne)) := by
  simp only [loaderCreate] at h
  split at h
  · cases h
  split at h
  · cases h
  split at h
  · cases h
  rcases loadHeapBrk_cases
    ⟨file, Elf64.ofBuf (write hdrBuf 0 (file.read 0 64).2), none, phtBuf, false, 0⟩
    with hbrk | ⟨pht, brk, hbrk⟩
  · rw [hbrk] at h
    cases h
    exact ⟨rfl, .inr ⟨rfl, rfl⟩⟩
  · rw [hbrk] at h
    cases h
    exact ⟨rfl, .inl ⟨rfl, pht, rfl⟩⟩

end UlmerOS
