import UlmerOS.Fs.Ext2Read
import UlmerOS.Fs.Fd
import UlmerOS.Lib.LockTrace
import UlmerOS.Proc.Loader

/-!
# The locks of the loader and of the file system calls

Two pieces of code give their locks back on most paths only.  `load_heap_brk` and
`loader_load` lock `ldr->lock` and call `load_pht`, and they return from there when the program
header table cannot be loaded.  Whoever locks it next waits for ever.  `sys_read` and
`sys_write` unlock the mutex of the descriptor they found, which `proc_get_fd` does not lock.

The functions of the loader are written again with what they do to `ldr->lock`, and are
otherwise those of `Proc/Loader.lean`.  What `kmalloc`, `vfs_read`, `alloc_page` and
`vspace_map` lock they unlock themselves, and it is left out.
-/

namespace UlmerOS

open ByteMem
open LockTrace (Op Disciplined not_disciplined_lock not_disciplined_unlock disciplined_nil
  disciplined_pair)

/-! ## The loader -/

/-- The lock of a loader. -/
inductive LoaderMutex where
  /-- `ldr->lock`. -/
  | ldr
deriving DecidableEq, Repr

/-- `load_heap_brk`, with what it does to the lock. -/
def loadHeapBrkLocks (ldr : Loader) : (Int × Loader) × List (Op LoaderMutex) :=
  let (status, ldr) := ldr.ready
  if status < 0 then ((status, { ldr with locked := true }), [.lock .ldr])
  else
    match ldr.pht with
    | none => ((status, ldr), [.lock .ldr]) -- the table was read or was there
    | some pht =>
        let minHeapBreak := heapBreakAfter (ldr.phtes pht)
        let ldr := { ldr with minHeapBreak := if minHeapBreak = 0 then minusOne else minHeapBreak }
        ((0, ldr), [.lock .ldr, .unlock .ldr])

/-- The header that `loader_create` reads, unless it returns `NULL` for it. -/
def acceptedHeader (hdrBuf : Mem) (file : File) : Option Elf64 :=
  let (ret, bytes) := file.read 0 64
  if ret < 0 then none
  else
    let header := Elf64.ofBuf (write hdrBuf 0 bytes)
    if header.magic ≠ 0x464c457f then none
    else if header.isa ≠ 0x3e ∨ header.endianness ≠ 1 then none
    else some header

/-- `loader_create`, with what it does to the lock. -/
def loaderCreateLocks (hdrBuf phtBuf : Mem) (file : File) :
    Option Loader × List (Op LoaderMutex) :=
  match acceptedHeader hdrBuf file with
  | none => (none, [])
  | some header =>
      let ((status, ldr), ops) := loadHeapBrkLocks
        { file := file, header := header, pht := none, phtBuf := phtBuf, locked := false,
          minHeapBreak := 0 }
      (some (if status < 0 then { ldr with minHeapBreak := minusOne } else ldr), ops)

/-- `loader_load`, with what it does to the lock. -/
def loaderLoadLocks (m : PhysMem) (ldr : Loader) (virtPage : Nat) (vspace : Vspace) :
    Outcome ((Int × Loader × PhysMem) × List (Op LoaderMutex)) :=
  if ldr.locked then .blocked
  else
    let (status, ldr) := ldr.ready
    if status < 0 then .ret ((status, { ldr with locked := true }, m), [.lock .ldr])
    else
      match ldr.pht with
      | none => .fault
      | some pht =>
          match ldr.segment pht virtPage with
          | none => .ret ((-enoent, ldr, m), [.lock .ldr, .unlock .ldr])
          | some phte => do
              let (status, m) ← loaderMapPage m ldr.file phte virtPage vspace
              .ret ((status, ldr, m), [.lock .ldr, .unlock .ldr])

/-- Apart from the lock, they are the functions of the loader. -/
theorem loadHeapBrkLocks_fst (ldr : Loader) : (loadHeapBrkLocks ldr).1 = loadHeapBrk ldr := by
  rw [loadHeapBrkLocks, loadHeapBrk]
  rcases ldr.ready_cases with hready | ⟨pht, hready⟩
  · rw [hready]
    rfl
  · rw [hready]
    rfl

theorem loaderCreateLocks_fst (hdrBuf phtBuf : Mem) (file : File) :
    (loaderCreateLocks hdrBuf phtBuf file).1 = loaderCreate hdrBuf phtBuf file := by
  rw [loaderCreateLocks, loaderCreate, acceptedHeader]
  by_cases hret : (file.read 0 64).1 < 0
  · simp only [if_pos hret]
  · simp only [if_neg hret]
    by_cases hmagic : (Elf64.ofBuf (write hdrBuf 0 (file.read 0 64).2)).magic ≠ 0x464c457f
    · simp only [if_pos hmagic]
    · simp only [if_neg hmagic]
      by_cases harch : (Elf64.ofBuf (write hdrBuf 0 (file.read 0 64).2)).isa ≠ 0x3e ∨
          (Elf64.ofBuf (write hdrBuf 0 (file.read 0 64).2)).endianness ≠ 1
      · simp only [if_pos harch]
      · simp only [if_neg harch, ← loadHeapBrkLocks_fst]

theorem loaderLoadLocks_fst (m : PhysMem) (ldr : Loader) (virtPage : Nat) (vspace : Vspace) :
    (loaderLoadLocks m ldr virtPage vspace >>= fun r => .ret r.1) =
      loaderLoad m ldr virtPage vspace := by
  rw [loaderLoadLocks, loaderLoad]
  by_cases hlocked : ldr.locked = true
  · rw [if_pos hlocked, if_pos hlocked]
    rfl
  · rw [if_neg hlocked, if_neg hlocked]
    rcases ldr.ready_cases with hready | ⟨pht, hready⟩
    · rw [hready]
      rfl
    · rw [hready]
      simp only [Int.lt_irrefl, if_false]
      cases Loader.segment { ldr with pht := some pht } pht virtPage with
      | none => rfl
      | some phte =>
          dsimp only
          cases loaderMapPage m ldr.file phte virtPage vspace <;> rfl

/-! ## When the table is read -/

/-- The program header table is in the file, with entries of the right size. -/
def TableReads (file : File) (header : Elf64) : Prop :=
  header.phtEntrySize = phteSize ∧
    header.phtEntries * header.phtEntrySize ≤
      toSize (file.read header.phtPos (header.phtEntries * header.phtEntrySize)).1

theorem loadPht_fails_iff (ldr : Loader) :
    (loadPht ldr).1 < 0 ↔ ¬ TableReads ldr.file ldr.header := by
  have hneg : -enoexec < 0 := by decide
  rw [loadPht, TableReads]
  by_cases hsize : ldr.header.phtEntrySize ≠ phteSize
  · rw [if_pos hsize]
    exact iff_of_true hneg fun hreads => hsize hreads.1
  · rw [if_neg hsize]
    by_cases hshort : toSize (ldr.file.read ldr.header.phtPos
        (ldr.header.phtEntries * ldr.header.phtEntrySize)).1 <
          ldr.header.phtEntries * ldr.header.phtEntrySize
    · simp only [if_pos hshort]
      exact iff_of_true hneg fun hreads => Nat.not_lt.mpr hreads.2 hshort
    · simp only [if_neg hshort]
      exact iff_of_false (Int.lt_irrefl 0)
        (not_not.mpr ⟨not_not.mp hsize, Nat.not_lt.mp hshort⟩)

/-- The table has been read before, or it can be read now. -/
def Loader.HasTable (ldr : Loader) : Prop :=
  ldr.pht.isSome ∨ TableReads ldr.file ldr.header

theorem Loader.ready_fails_iff (ldr : Loader) : ldr.ready.1 < 0 ↔ ¬ ldr.HasTable := by
  rw [Loader.ready, Loader.HasTable]
  cases hpht : ldr.pht with
  | none => simpa [hpht] using loadPht_fails_iff ldr
  | some pht => simp

theorem Loader.ready_of_hasTable {ldr : Loader} (h : ldr.HasTable) :
    ∃ pht, ldr.ready = (0, { ldr with pht := some pht }) := by
  rcases ldr.ready_cases with hready | hready
  · have hneg : -enoexec < 0 := by decide
    exact absurd h (ldr.ready_fails_iff.mp (by rw [hready]; exact hneg))
  · exact hready

theorem Loader.ready_of_not_hasTable {ldr : Loader} (h : ¬ ldr.HasTable) :
    ldr.ready = (-enoexec, ldr) := by
  rcases ldr.ready_cases with hready | ⟨pht, hready⟩
  · exact hready
  · have hfails := ldr.ready_fails_iff.mpr h
    rw [hready] at hfails
    exact absurd hfails (Int.lt_irrefl 0)

/-- `load_heap_brk` gives the lock back exactly if the table is read. -/
theorem loadHeapBrkLocks_disciplined_iff (ldr : Loader) :
    Disciplined (loadHeapBrkLocks ldr).2 ↔ ldr.HasTable := by
  rw [loadHeapBrkLocks]
  by_cases h : ldr.HasTable
  · obtain ⟨pht, hready⟩ := Loader.ready_of_hasTable h
    rw [hready]
    exact iff_of_true (disciplined_pair _) h
  · rw [Loader.ready_of_not_hasTable h]
    exact iff_of_false (not_disciplined_lock _) h

/-- So does `loader_create`, unless it does not get that far. -/
theorem loaderCreateLocks_disciplined_iff (hdrBuf phtBuf : Mem) (file : File) :
    Disciplined (loaderCreateLocks hdrBuf phtBuf file).2 ↔
      ∀ header ∈ acceptedHeader hdrBuf file, TableReads file header := by
  rw [loaderCreateLocks]
  cases acceptedHeader hdrBuf file with
  | none => simpa using disciplined_nil
  | some header =>
      simpa [Loader.HasTable] using loadHeapBrkLocks_disciplined_iff
        { file := file, header := header, pht := none, phtBuf := phtBuf, locked := false,
          minHeapBreak := 0 }

/-- A load that returns has the table and gives the lock back, or neither. -/
theorem loaderLoadLocks_ret {m : PhysMem} {ldr : Loader} {virtPage : Nat} {vspace : Vspace}
    {r : Int × Loader × PhysMem} {ops : List (Op LoaderMutex)}
    (h : loaderLoadLocks m ldr virtPage vspace = .ret (r, ops)) :
    (ldr.HasTable ∧ ops = [.lock .ldr, .unlock .ldr] ∧ r.2.1.locked = false) ∨
      (¬ ldr.HasTable ∧ ops = [.lock .ldr] ∧ r.2.1.locked = true) := by
  rw [loaderLoadLocks] at h
  by_cases hlocked : ldr.locked = true
  · rw [if_pos hlocked] at h
    cases h
  · rw [if_neg hlocked] at h
    have hfree := Bool.eq_false_iff.mpr hlocked
    by_cases htable : ldr.HasTable
    · left
      obtain ⟨pht, hready⟩ := Loader.ready_of_hasTable htable
      rw [hready] at h
      simp only [Int.lt_irrefl, if_false] at h
      cases hseg : Loader.segment { ldr with pht := some pht } pht virtPage with
      | none =>
          rw [hseg] at h
          cases h
          exact ⟨htable, rfl, hfree⟩
      | some phte =>
          rw [hseg] at h
          obtain ⟨⟨status, m'⟩, -, hret⟩ := Outcome.bind_eq_ret.mp h
          cases hret
          exact ⟨htable, rfl, hfree⟩
    · right
      rw [Loader.ready_of_not_hasTable htable] at h
      cases h
      exact ⟨htable, rfl, rfl⟩

/-! ## The loader afterwards -/

theorem allocPage_ne_blocked (m : PhysMem) : allocPage m ≠ .blocked := by
  rcases allocPage_cases m with h | ⟨p, m', h, -⟩
  · rw [h]; nofun
  · rw [h]; nofun

theorem ensureTable_ne_blocked (vspace : Vspace) (virt : Nat) (entry : Vaddr → Option GptePtr)
    (m : PhysMem) (vaddr : Vaddr) : ensureTable vspace virt entry m vaddr ≠ .blocked := by
  rw [ensureTable]
  split
  next => simp
  next ptr _ =>
    split
    next => simp
    next => exact Outcome.bind_ne_blocked (allocPage_ne_blocked _) fun _ => by simp

theorem mapEntry_ne_blocked (ptble : Option GptePtr) (phys flags : Nat) (m : PhysMem) :
    mapEntry ptble phys flags m ≠ .blocked := by
  cases ptble with
  | none => simp [mapEntry]
  | some ptr =>
      rw [mapEntry, Outcome.ret_ite]
      simp

theorem vspaceMap_ne_blocked (m : PhysMem) (vspace : Vspace) (virt phys flags : Nat) :
    vspaceMap m vspace virt phys flags ≠ .blocked := by
  refine Outcome.bind_ne_blocked (ensureTable_ne_blocked _ _ _ _ _) fun _ => ?_
  refine Outcome.bind_ne_blocked (ensureTable_ne_blocked _ _ _ _ _) fun _ => ?_
  exact Outcome.bind_ne_blocked (ensureTable_ne_blocked _ _ _ _ _)
    fun _ => mapEntry_ne_blocked _ _ _ _

theorem loaderMapPage_ne_blocked (m : PhysMem) (file : File) (phte : Phte) (virtPage : Nat)
    (vspace : Vspace) : loaderMapPage m file phte virtPage vspace ≠ .blocked := by
  refine Outcome.bind_ne_blocked (allocPage_ne_blocked m) fun r => ?_
  by_cases hret : (phte.contents file virtPage).1 < 0
  · simp only [if_pos hret]
    nofun
  · simp only [if_neg hret]
    exact Outcome.bind_ne_blocked (vspaceMap_ne_blocked _ _ _ _ _) fun _ => nofun

/-- `loader_load` waits for ever exactly if the lock is held. -/
theorem loaderLoad_blocked_iff (m : PhysMem) (ldr : Loader) (virtPage : Nat) (vspace : Vspace) :
    loaderLoad m ldr virtPage vspace = .blocked ↔ ldr.locked = true := by
  rw [loaderLoad]
  by_cases hlocked : ldr.locked = true
  · rw [if_pos hlocked]
    exact iff_of_true rfl hlocked
  · rw [if_neg hlocked]
    refine iff_of_false ?_ hlocked
    rcases ldr.ready_cases with hready | ⟨pht, hready⟩
    · rw [hready]
      nofun
    · rw [hready]
      simp only [Int.lt_irrefl, if_false]
      cases Loader.segment { ldr with pht := some pht } pht virtPage with
      | none => nofun
      | some phte =>
          exact Outcome.bind_ne_blocked (loaderMapPage_ne_blocked _ _ _ _ _) fun _ => nofun

/-- `load_heap_brk` leaves the lock held exactly if the table is not read. -/
theorem loadHeapBrk_locked_iff {ldr : Loader} (hfree : ldr.locked = false) :
    (loadHeapBrk ldr).2.locked = true ↔ ¬ ldr.HasTable := by
  rw [loadHeapBrk]
  by_cases h : ldr.HasTable
  · obtain ⟨pht, hready⟩ := Loader.ready_of_hasTable h
    rw [hready]
    simp [hfree, h]
  · rw [Loader.ready_of_not_hasTable h]
    exact iff_of_true rfl h

/-- A loader that was created is locked exactly if its table was not read. -/
theorem loaderCreate_locked_iff {hdrBuf phtBuf : Mem} {file : File} {ldr : Loader}
    (h : loaderCreate hdrBuf phtBuf file = some ldr) :
    ldr.locked = true ↔ ¬ ∀ header ∈ acceptedHeader hdrBuf file, TableReads file header := by
  rw [← loaderCreateLocks_fst, loaderCreateLocks] at h
  cases hheader : acceptedHeader hdrBuf file with
  | none => rw [hheader] at h; cases h
  | some header =>
      rw [hheader] at h
      rw [← Option.some.inj h]
      simp only [apply_ite Loader.locked, ite_self, loadHeapBrkLocks_fst]
      rw [loadHeapBrk_locked_iff rfl]
      simp [Loader.HasTable]

/-! ## The system calls -/

/-- What an effect of a system call does to a lock. -/
def SysEffect.op : SysEffect → Option (Op SysMutex)
  | .lock mtx => some (.lock mtx)
  | .unlock mtx => some (.unlock mtx)
  | .touch _ _ => none

/-- What a system call does to the locks. -/
def SysResult.ops (res : SysResult) : List (Op SysMutex) := res.effects.filterMap SysEffect.op

theorem procGetFd_disciplined (fdList : List (Nat × Fd)) (fd : Int) :
    Disciplined ((procGetFd fdList fd).2.filterMap SysEffect.op) := by
  rw [procGetFd]
  split
  next => exact disciplined_nil
  next => exact disciplined_pair _

/-- A system call that gives back the mutex of the descriptor it found. -/
theorem not_disciplined_found (fdList : List (Nat × Fd)) (fd : Int) (effects : List SysEffect)
    (h : effects.filterMap SysEffect.op = []) (ret : Int) (n : Nat) :
    ¬ Disciplined (SysResult.ops
      ⟨ret, (procGetFd fdList fd).2 ++ (effects ++ [.unlock (.fdmod n)])⟩) := by
  rw [SysResult.ops, List.filterMap_append, List.filterMap_append, h]
  exact not_disciplined_unlock (procGetFd_disciplined fdList fd) _ []

theorem sysRead_disciplined_iff {fdList : List (Nat × Fd)} {left ram buffer' : Mem} {fd : Int}
    {buffer len : Nat} {res : SysResult}
    (h : sysRead fdList left ram fd buffer len = .ret (res, buffer')) :
    Disciplined res.ops ↔
      sysBufferRangeCheck buffer len = true ∨ (procGetFd fdList fd).1 = none := by
  rw [sysRead] at h
  by_cases hcheck : sysBufferRangeCheck buffer len = true
  · rw [if_pos hcheck] at h
    cases h
    exact iff_of_true disciplined_nil (.inl hcheck)
  · rw [if_neg hcheck] at h
    rw [or_iff_right hcheck]
    have hlook := procGetFd_disciplined fdList fd
    cases hfd : (procGetFd fdList fd).1 with
    | none =>
        simp only [hfd] at h
        cases h
        exact iff_of_true hlook rfl
    | some f =>
        simp only [hfd] at h
        refine iff_of_false ?_ nofun
        cases hread : f.2.fOps.read with
        | none =>
            simp only [hread] at h
            cases h
            exact not_disciplined_found fdList fd [] rfl _ _
        | some read =>
            simp only [hread] at h
            obtain ⟨r, -, hret⟩ := Outcome.bind_eq_ret.mp h
            cases hret
            exact not_disciplined_found fdList fd [.touch _ _] rfl _ _

theorem sysWrite_disciplined_iff {fdList : List (Nat × Fd)} {ram : Mem} {fd : Int}
    {buffer len : Nat} {res : SysResult} (h : sysWrite fdList ram fd buffer len = .ret res) :
    Disciplined res.ops ↔ sysBufferRangeCheck buffer len = true ∨ fd = 1 ∨
      (procGetFd fdList fd).1 = none := by
  rw [sysWrite] at h
  by_cases hcheck : sysBufferRangeCheck buffer len = true
  · rw [if_pos hcheck] at h
    cases h
    exact iff_of_true disciplined_nil (.inl hcheck)
  · rw [if_neg hcheck] at h
    rw [or_iff_right hcheck]
    by_cases hstdout : fd = 1
    · rw [if_pos hstdout, debugStdout] at h
      obtain ⟨effects, heffects, hret⟩ := Outcome.bind_eq_ret.mp h
      obtain ⟨n, -, hn⟩ := Outcome.bind_eq_ret.mp heffects
      cases hn
      cases hret
      exact iff_of_true (disciplined_pair _) (.inl hstdout)
    · rw [if_neg hstdout] at h
      rw [or_iff_right hstdout]
      have hlook := procGetFd_disciplined fdList fd
      cases hfd : (procGetFd fdList fd).1 with
      | none =>
          simp only [hfd] at h
          cases h
          exact iff_of_true hlook rfl
      | some f =>
          simp only [hfd] at h
          refine iff_of_false ?_ nofun
          cases hwrite : f.2.fOps.write with
          | none =>
              simp only [hwrite] at h
              cases h
              exact not_disciplined_found fdList fd [] rfl _ _
          | some write =>
              simp only [hwrite] at h
              obtain ⟨r, -, hret⟩ := Outcome.bind_eq_ret.mp h
              cases hret
              exact not_disciplined_found fdList fd [.touch _ _] rfl _ _

/-! ## All together -/

/-- The functions of the loader give their lock back, and leave a loader that can be used again,
exactly if the program header table is read.  The system calls give back what they took, and
nothing else, exactly if they do not get to a descriptor. -/
theorem lock_discipline (hdrBuf phtBuf : Mem) (file : File) (fdList : List (Nat × Fd))
    (ram : Mem) (fd : Int) (buffer len : Nat) :
    (Disciplined (loaderCreateLocks hdrBuf phtBuf file).2 ↔
      ∀ header ∈ acceptedHeader hdrBuf file, TableReads file header) ∧
    (∀ ldr, loaderCreate hdrBuf phtBuf file = some ldr →
      ∀ m virtPage vspace, loaderLoad m ldr virtPage vspace ≠ .blocked ↔
        ∀ header ∈ acceptedHeader hdrBuf file, TableReads file header) ∧
    (∀ m ldr virtPage vspace r ops, loaderLoadLocks m ldr virtPage vspace = .ret (r, ops) →
      (Disciplined ops ↔ ldr.HasTable) ∧
      ∀ m virtPage vspace, loaderLoad m r.2.1 virtPage vspace ≠ .blocked ↔ ldr.HasTable) ∧
    (∀ left res buffer', sysRead fdList left ram fd buffer len = .ret (res, buffer') →
      (Disciplined res.ops ↔
        sysBufferRangeCheck buffer len = true ∨ (procGetFd fdList fd).1 = none)) ∧
    (∀ res, sysWrite fdList ram fd buffer len = .ret res →
      (Disciplined res.ops ↔ sysBufferRangeCheck buffer len = true ∨ fd = 1 ∨
        (procGetFd fdList fd).1 = none)) := by
  refine ⟨loaderCreateLocks_disciplined_iff hdrBuf phtBuf file, ?_, ?_, ?_, ?_⟩
  · intro ldr hcreate m virtPage vspace
    rw [ne_eq, loaderLoad_blocked_iff, loaderCreate_locked_iff hcreate, not_not]
  · intro m ldr virtPage vspace r ops hload
    rcases loaderLoadLocks_ret hload with ⟨htable, rfl, hfree⟩ | ⟨htable, rfl, hlocked⟩
    · refine ⟨iff_of_true (disciplined_pair _) htable, fun m virtPage vspace => ?_⟩
      rw [ne_eq, loaderLoad_blocked_iff, hfree]
      exact iff_of_true nofun htable
    · refine ⟨iff_of_false (not_disciplined_lock _) htable, fun m virtPage vspace => ?_⟩
      rw [ne_eq, loaderLoad_blocked_iff, hlocked]
      exact iff_of_false (fun h => h rfl) htable
  · intro left res buffer' h
    exact sysRead_disciplined_iff h
  · intro res h
    exact sysWrite_disciplined_iff h

/-- A file that ends behind its header, which says that there is one segment. -/
def truncatedElf : File := File.ofBytes ((elfImage [⟨1, 5, 120, 0x400000, 4, 4⟩] []).take 64)

/-- An empty file, open as descriptor 3. -/
def emptyFileOpen : List (Nat × Fd) := [(3, vfsOpenRegular Ext2.smallFs Ext2.smallInode 0)]

/-- A write to standard output takes the lock of `kprintf` and gives it back. -/
theorem lock_discipline_stdout : ∃ res,
    sysWrite emptyFileOpen (fun _ => 0) 1 0x400000 1 = .ret res ∧ Disciplined res.ops :=
  ⟨_, rfl, ((lock_discipline (fun _ => 0) (fun _ => 0) truncatedElf emptyFileOpen (fun _ => 0) 1
    0x400000 1).2.2.2.2 _ rfl).mpr (.inr (.inl rfl))⟩

/-- The loader of that file stays locked, so that no page of the program is ever loaded.  A read
of an empty file gives back a mutex that nobody took. -/
theorem locks_are_not_kept :
    (∃ ldr, loaderCreate (fun _ => 0) (fun _ => 0) truncatedElf = some ldr ∧
      ¬ Disciplined (loaderCreateLocks (fun _ => 0) (fun _ => 0) truncatedElf).2 ∧
      ∀ m virtPage vspace, loaderLoad m ldr virtPage vspace = .blocked) ∧
    ∃ res buffer', sysRead emptyFileOpen (fun _ => 0) (fun _ => 0) 3 0x400000 1 =
      .ret (res, buffer') ∧ ¬ Disciplined res.ops := by
  constructor
  · obtain ⟨ldr, hldr, hlocked⟩ : ∃ ldr,
        loaderCreate (fun _ => 0) (fun _ => 0) truncatedElf = some ldr ∧ ldr.locked = true :=
      ⟨_, rfl, rfl⟩
    refine ⟨ldr, hldr, by decide, fun m virtPage vspace => ?_⟩
    exact (loaderLoad_blocked_iff m ldr virtPage vspace).mpr hlocked
  · refine ⟨_, _, rfl, ?_⟩
    decide

end UlmerOS
