import UlmerOS.Proc.LockDiscipline
import UlmerOS.Proc.Proc

/-!
# What the loader has read

`loader_create` takes any result of `vfs_read` that is not negative for a header, so
that a short read leaves a part of the header as it was in the buffer.  `load_pht`
compares the result with the size of the table as a `size_t`, and an error is larger than
any table.  `loader_reads` says when what a loader goes by was read.
-/

namespace UlmerOS

open ByteMem

/-- The magic number, the machine and the byte order that a loader is made for. -/
structure Elf64.Accepted (header : Elf64) : Prop where
  magic : header.magic = 0x464c457f
  isa : header.isa = 0x3e
  endianness : header.endianness = 1

instance (header : Elf64) : Decidable header.Accepted :=
  decidable_of_iff (header.magic = 0x464c457f ∧ header.isa = 0x3e ∧ header.endianness = 1)
    ⟨fun ⟨h1, h2, h3⟩ => ⟨h1, h2, h3⟩, fun ⟨h1, h2, h3⟩ => ⟨h1, h2, h3⟩⟩

/-- What is in the buffer for the header after `vfs_read`. -/
def headerRead (hdrBuf : Mem) (file : File) : Elf64 :=
  Elf64.ofBuf (write hdrBuf 0 (file.read 0 64).2)

/-- `vfs_read` returns a `ssize_t`. -/
def File.Ssize (file : File) : Prop :=
  ∀ offset length, -2 ^ 63 ≤ (file.read offset length).1 ∧ (file.read offset length).1 < 2 ^ 63

/-- The number of bytes that `vfs_read` says it has read. -/
def File.count (file : File) (offset length : Nat) : Nat := (file.read offset length).1.toNat

/-- The size of the program header table. -/
def Elf64.phtSize (header : Elf64) : Nat := header.phtEntries * phteSize

/-- A header is accepted if `vfs_read` did not fail and what is in the buffer is right. -/
theorem acceptedHeader_eq_some {hdrBuf : Mem} {file : File} {header : Elf64} :
    acceptedHeader hdrBuf file = some header ↔
      0 ≤ (file.read 0 64).1 ∧ (headerRead hdrBuf file).Accepted ∧
        header = headerRead hdrBuf file := by
  rw [acceptedHeader, headerRead]
  simp only
  generalize Elf64.ofBuf (write hdrBuf 0 (file.read 0 64).2) = read
  by_cases hneg : (file.read 0 64).1 < 0
  · rw [if_pos hneg]
    exact iff_of_false (Option.some_ne_none header).symm fun h => Int.not_le.mpr hneg h.1
  rw [if_neg hneg]
  by_cases hmagic : read.magic ≠ 0x464c457f
  · rw [if_pos hmagic]
    exact iff_of_false (Option.some_ne_none header).symm fun h => hmagic h.2.1.magic
  rw [if_neg hmagic]
  by_cases harch : read.isa ≠ 0x3e ∨ read.endianness ≠ 1
  · rw [if_pos harch]
    exact iff_of_false (Option.some_ne_none header).symm fun h =>
      harch.elim (fun hn => hn h.2.1.isa) fun hn => hn h.2.1.endianness
  rw [if_neg harch]
  rw [not_or, not_not, not_not] at harch
  constructor
  · intro h
    exact ⟨Int.not_lt.mp hneg, ⟨not_not.mp hmagic, harch.1, harch.2⟩, (Option.some.inj h).symm⟩
  · rintro ⟨-, -, rfl⟩
    rfl

/-- There is a loader exactly if the header is accepted. -/
theorem loaderCreate_ne_none_iff (phtBuf : Mem) {hdrBuf : Mem} {file : File} :
    loaderCreate hdrBuf phtBuf file ≠ none ↔
      0 ≤ (file.read 0 64).1 ∧ (headerRead hdrBuf file).Accepted := by
  rw [← loaderCreateLocks_fst, loaderCreateLocks]
  cases hheader : acceptedHeader hdrBuf file with
  | none =>
      refine iff_of_false (fun h => h rfl) fun h => ?_
      rw [acceptedHeader_eq_some.mpr ⟨h.1, h.2, rfl⟩] at hheader
      cases hheader
  | some header =>
      obtain ⟨hpos, hacc, -⟩ := acceptedHeader_eq_some.mp hheader
      exact iff_of_true (Option.some_ne_none _) ⟨hpos, hacc⟩

theorem loadHeapBrk_of_hasTable {ldr : Loader} (h : ldr.HasTable) :
    ∃ pht brk, loadHeapBrk ldr = (0, { ldr with pht := some pht, minHeapBreak := brk }) := by
  obtain ⟨pht, hready⟩ := Loader.ready_of_hasTable h
  rw [loadHeapBrk, hready]
  exact ⟨pht, _, rfl⟩

theorem loadHeapBrk_of_not_hasTable {ldr : Loader} (h : ¬ ldr.HasTable) :
    loadHeapBrk ldr = (-enoexec, { ldr with locked := true }) := by
  rw [loadHeapBrk, Loader.ready_of_not_hasTable h]
  rfl

/-- What a loader that was created has: the header that is in the buffer, and a table if
`load_pht` takes it. -/
theorem loaderCreate_table {hdrBuf phtBuf : Mem} {file : File} {ldr : Loader}
    (h : loaderCreate hdrBuf phtBuf file = some ldr) :
    ldr.header = headerRead hdrBuf file ∧ (ldr.pht ≠ none ↔ TableReads file ldr.header) ∧
      (ldr.pht = none → ldr.locked = true) := by
  rw [← loaderCreateLocks_fst, loaderCreateLocks] at h
  cases hheader : acceptedHeader hdrBuf file with
  | none => rw [hheader] at h; cases h
  | some header =>
      obtain ⟨-, -, rfl⟩ := acceptedHeader_eq_some.mp hheader
      rw [hheader] at h
      simp only [loadHeapBrkLocks_fst] at h
      obtain ⟨ldr0, hldr0⟩ : ∃ ldr0 : Loader, ldr0 =
          ⟨file, headerRead hdrBuf file, none, phtBuf, false, 0⟩ := ⟨_, rfl⟩
      have htable : ldr0.HasTable ↔ TableReads file (headerRead hdrBuf file) := by
        simp [hldr0, Loader.HasTable]
      rw [← hldr0] at h
      by_cases hreads : ldr0.HasTable
      · obtain ⟨pht, brk, hbrk⟩ := loadHeapBrk_of_hasTable hreads
        rw [hbrk] at h
        obtain rfl := Option.some.inj h
        have hheader : ldr0.header = headerRead hdrBuf file := by rw [hldr0]
        rw [if_neg (Int.lt_irrefl 0)]
        exact ⟨hheader, iff_of_true (Option.some_ne_none pht) (hheader ▸ htable.mp hreads),
          fun hnone => absurd hnone (Option.some_ne_none pht)⟩
      · rw [loadHeapBrk_of_not_hasTable hreads] at h
        obtain rfl := Option.some.inj h
        rw [if_pos (show -enoexec < 0 by decide), hldr0]
        exact ⟨rfl, iff_of_false (fun hne => hne rfl) (mt htable.mpr hreads), fun _ => rfl⟩

/-- A loader that was created keeps its table, or does not get one. -/
theorem loaderLoad_keeps_table {hdrBuf phtBuf : Mem} {file : File} {ldr : Loader}
    (h : loaderCreate hdrBuf phtBuf file = some ldr) {m : PhysMem} {virtPage : Nat}
    {vspace : Vspace} {r : Int × Loader × PhysMem}
    (hload : loaderLoad m ldr virtPage vspace = .ret r) : r.2.1.pht = ldr.pht := by
  cases hpht : ldr.pht with
  | none =>
      have hlocked := (loaderCreate_table h).2.2 hpht
      rw [(loaderLoad_blocked_iff m ldr virtPage vspace).mpr hlocked] at hload
      cases hload
  | some pht =>
      have hready : ldr.ready = (0, ldr) := by
        rw [Loader.ready, hpht]
        rfl
      rw [loaderLoad, hready] at hload
      split at hload
      · cases hload
      simp only [Int.lt_irrefl, if_false, hpht] at hload
      split at hload
      · cases hload
        exact hpht
      · obtain ⟨⟨status, m1⟩, -, hret⟩ := Outcome.bind_eq_ret.mp hload
        cases hret
        exact hpht

/-- `load_pht` takes a table that was read, and one whose read failed. -/
theorem tableReads_iff {file : File} {header : Elf64} (hentries : header.phtEntries < 2 ^ 16)
    (hssize : file.Ssize) :
    TableReads file header ↔ header.phtEntrySize = phteSize ∧
      ((file.read header.phtPos header.phtSize).1 < 0 ∨
        header.phtSize ≤ file.count header.phtPos header.phtSize) := by
  have hsmall : header.phtSize < 2 ^ 22 := by
    rw [Elf64.phtSize, phteSize]
    omega
  rw [TableReads]
  refine and_congr_right fun hsize => ?_
  rw [hsize, ← Elf64.phtSize, File.count, toSize]
  have hlow := hssize header.phtPos header.phtSize
  generalize (file.read header.phtPos header.phtSize).1 = ret at hlow ⊢
  rw [word]
  omega

/-- **What a loader goes by was read**, in these cases and no others.  The header: `vfs_read`
failed or read all of it, or what is in the buffer is not accepted.  The table: it is empty or
`vfs_read` did not fail, or its entries have another size. -/
theorem loader_reads (hdrBuf phtBuf : Mem) {file : File} (hssize : file.Ssize) :
    ((∀ ldr, loaderCreate hdrBuf phtBuf file = some ldr →
        64 ≤ file.count 0 64 ∧ ldr.header = headerRead hdrBuf file ∧ ldr.header.Accepted) ↔
      (file.read 0 64).1 < 0 ∨ 64 ≤ (file.read 0 64).1 ∨
        ¬ (headerRead hdrBuf file).Accepted) ∧
    ∀ ldr, loaderCreate hdrBuf phtBuf file = some ldr →
      ((ldr.pht ≠ none → ldr.header.phtSize ≤ file.count ldr.header.phtPos ldr.header.phtSize) ↔
        ldr.header.phtEntrySize ≠ phteSize ∨ ldr.header.phtEntries = 0 ∨
          0 ≤ (file.read ldr.header.phtPos ldr.header.phtSize).1) ∧
      ∀ m virtPage vspace r, loaderLoad m ldr virtPage vspace = .ret r → r.2.1.pht = ldr.pht := by
  refine ⟨⟨fun hclaim => ?_, fun hcond ldr hldr => ?_⟩, fun ldr hldr => ⟨?_, ?_⟩⟩
  · by_contra hno
    rw [not_or, not_or, not_not] at hno
    obtain ⟨hpos, hshort, hacc⟩ := hno
    obtain ⟨ldr, hldr⟩ := Option.ne_none_iff_exists'.mp
      ((loaderCreate_ne_none_iff phtBuf).mpr ⟨Int.not_lt.mp hpos, hacc⟩)
    have hread := (hclaim ldr hldr).1
    rw [File.count] at hread
    omega
  · obtain ⟨hpos, hacc⟩ := (loaderCreate_ne_none_iff phtBuf).mp (by rw [hldr]; nofun)
    have hheader := (loaderCreate_table hldr).1
    have hread := (hcond.resolve_left (Int.not_lt.mpr hpos)).resolve_right (not_not.mpr hacc)
    refine ⟨?_, hheader, hheader ▸ hacc⟩
    rw [File.count]
    omega
  · obtain ⟨hheader, htable, -⟩ := loaderCreate_table hldr
    have hentries : ldr.header.phtEntries < 2 ^ 16 := by
      rw [hheader]
      exact load_lt _ _ _
    rw [htable, tableReads_iff hentries hssize, Elf64.phtSize, File.count, phteSize]
    generalize (file.read ldr.header.phtPos (ldr.header.phtEntries * 56)).1 = ret
    omega
  · exact fun m virtPage vspace r => loaderLoad_keeps_table hldr

theorem File.ofBytes_ssize {bytes : List UInt8} (hlen : bytes.length < 2 ^ 63) :
    (File.ofBytes bytes).Ssize := by
  intro offset length
  have hle : ((bytes.drop offset).take length).length ≤ bytes.length := by
    rw [List.length_take, List.length_drop]
    omega
  simp only [File.ofBytes]
  omega

/-- The header of an intact program is read. -/
theorem loader_reads_text : ∃ ldr,
    loaderCreate (fun _ => 0) (fun _ => 0) (File.ofBytes textElf) = some ldr ∧
      64 ≤ (File.ofBytes textElf).count 0 64 ∧
      ldr.header = headerRead (fun _ => 0) (File.ofBytes textElf) ∧ ldr.header.Accepted := by
  obtain ⟨ldr, hldr⟩ := Option.ne_none_iff_exists'.mp ((loaderCreate_ne_none_iff fun _ => 0).mpr
    (show 0 ≤ ((File.ofBytes textElf).read 0 64).1 ∧
      (headerRead (fun _ => 0) (File.ofBytes textElf)).Accepted by decide))
  obtain ⟨hheader, -⟩ := loader_reads (fun _ => 0) (fun _ => 0)
    (File.ofBytes_ssize (show textElf.length < 2 ^ 63 by decide +kernel))
  exact ⟨ldr, hldr, hheader.mpr (.inr (.inl (by decide))) ldr hldr⟩

/-- A file that is read without an error up to the end of its header, and not behind it. -/
def unreadableTable : File where
  read := fun offset length =>
    if offset = 0 then (File.ofBytes textElf).read 0 length else (-eio, [])

/-- A buffer that has the header of another program. -/
def oldHeader : Mem := fun i => textElf.getD i 0

/-- The rest of a header that was read in part is that of another program, and the table of a
file that cannot be read is what was in the buffer. -/
theorem loader_goes_by_old_bytes :
    (∃ ldr, loaderCreate oldHeader (fun _ => 0) (File.ofBytes (textElf.take 20)) = some ldr ∧
      (File.ofBytes (textElf.take 20)).count 0 64 = 20) ∧
    ∃ ldr, loaderCreate (fun _ => 0) (fun _ => 0) unreadableTable = some ldr ∧
      ldr.pht ≠ none ∧ unreadableTable.count ldr.header.phtPos ldr.header.phtSize = 0 ∧
      ldr.header.phtSize = 56 := by
  constructor
  · obtain ⟨ldr, hldr⟩ := Option.ne_none_iff_exists'.mp
      ((loaderCreate_ne_none_iff fun _ => 0).mpr
        (show 0 ≤ ((File.ofBytes (textElf.take 20)).read 0 64).1 ∧
          (headerRead oldHeader (File.ofBytes (textElf.take 20))).Accepted by decide))
    exact ⟨ldr, hldr, by decide⟩
  · have hcompute : (loaderCreate (fun _ => 0) (fun _ => 0) unreadableTable).map
        (fun ldr => (ldr.pht.isSome, ldr.header.phtPos, ldr.header.phtSize)) =
          some (true, 64, 56) := by decide +kernel
    obtain ⟨ldr, hldr, hvals⟩ := Option.map_eq_some_iff.mp hcompute
    obtain ⟨htable, hpos, hsize⟩ := by simpa only [Prod.mk.injEq] using hvals
    refine ⟨ldr, hldr, Option.isSome_iff_ne_none.mp htable, ?_, hsize⟩
    rw [hpos, hsize]
    decide

end UlmerOS
