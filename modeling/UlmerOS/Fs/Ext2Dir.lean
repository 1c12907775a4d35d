import UlmerOS.Fs.Ext2Fetch
import Mathlib.Logic.Relation

/-!
# Parsing a directory

The loop of `ext2_fetch_dir` goes from record to record by the sizes it finds in them.  It
does not check a size or the length of a name, so it ends and stays in the buffer only if
each record on the way has a size and lies inside (`dir_parse_iff`).

`encode` lays records out as they are on the disk.  What is parsed from that is the entries
with an inode, in order (`fetch_dir_decodes`).  The name is copied with the terminators
that `strnlen` counts, and a name on the disk has none.
-/

namespace UlmerOS.Ext2

open ByteMem Relation

/-! ## From record to record -/

/-- From a record inside the directory to where its size leads. -/
def NextRecord (buffer : Mem) (length : Nat) (index next : Nat) : Prop :=
  index < length ∧ next = index + load buffer (index + 4) 2

/-- A record leads on, and what is read of it lies in the buffer. -/
structure RecordOk (buffer : Mem) (length index : Nat) : Prop where
  size : load buffer (index + 4) 2 ≠ 0
  header : index + 6 ≤ length
  nameLength : load buffer index 4 ≠ 0 → index + 7 ≤ length
  name : load buffer index 4 ≠ 0 →
    ∀ i < strnlen (fun i => buffer (index + 8 + i)) (load buffer (index + 6) 1),
      index + 8 + i < length

/-- The loop ends, and all it reads lies in the buffer. -/
def ParsesInBounds (left buffer : Mem) (length : Nat) : Prop :=
  ∃ fuel files reads, parseDir left buffer length fuel 0 [] [] = .ret (files, reads) ∧
    ∀ a ∈ reads, a < length

section

variable {left buffer : Mem} {length index : Nat}

/-- Directories have 32-bit lengths, so an index does not wrap around. -/
theorem wrap64_next (hlen : length < 2 ^ 32) (hindex : index < length) :
    wrap64 (index + load buffer (index + 4) 2) = index + load buffer (index + 4) 2 := by
  have hsize := load_lt buffer (index + 4) 2
  exact wrap64_of_lt (by simp only [word]; omega)

/-- What was read is not forgotten. -/
theorem parseDir_reads (fuel : Nat) {files files' : List DirEntry} {reads reads' : List Nat}
    (h : parseDir left buffer length fuel index files reads = .ret (files', reads')) :
    ∀ a ∈ reads, a ∈ reads' := by
  induction fuel generalizing index files reads with
  | zero => cases h
  | succ fuel ih =>
      rw [parseDir] at h
      split at h
      · exact fun a ha => ih h a (List.mem_append_left _ ha)
      · cases h
        exact fun a ha => ha

/-- At a record without a size the loop stays for ever. -/
theorem parseDir_hang (hindex : index < length) (hword : index < word)
    (hsize : load buffer (index + 4) 2 = 0) (fuel : Nat) (files : List DirEntry)
    (reads : List Nat) : parseDir left buffer length fuel index files reads = .hang := by
  induction fuel generalizing files reads with
  | zero => rfl
  | succ fuel ih =>
      rw [parseDir, if_pos hindex, hsize, Nat.add_zero, wrap64_of_lt hword]
      exact ih _ _

theorem recordOk_iff (hsize : load buffer (index + 4) 2 ≠ 0) :
    RecordOk buffer length index ↔ ∀ a ∈ recordReads buffer index, a < length := by
  constructor
  · intro hok a ha
    rcases List.mem_append.mp ha with ha | ha
    · have := hok.header
      have := List.mem_range'_1.mp ha
      omega
    · split at ha
      · cases ha
      next hinode =>
        rcases List.mem_cons.mp ha with rfl | ha
        · exact hok.nameLength hinode
        · obtain ⟨h1, h2⟩ := List.mem_range'_1.mp ha
          have := hok.name hinode (a - (index + 8)) (by omega)
          omega
  · intro h
    have hheader := h (index + 5) (List.mem_append_left _ (List.mem_range'_1.mpr (by omega)))
    refine ⟨hsize, hheader, fun hinode => ?_, fun hinode i hi => ?_⟩
    · refine h (index + 6) (List.mem_append_right _ ?_)
      rw [if_neg hinode]
      exact List.mem_cons_self
    · refine h (index + 8 + i) (List.mem_append_right _ ?_)
      rw [if_neg hinode]
      exact List.mem_cons_of_mem _ (List.mem_range'_1.mpr (by omega))

/-- If the loop ends in bounds, all records from here on are as they should be. -/
theorem recordOk_of_parseDir (hlen : length < 2 ^ 32) (fuel : Nat) {files files' : List DirEntry}
    {reads reads' : List Nat} {j : Nat}
    (h : parseDir left buffer length fuel index files reads = .ret (files', reads'))
    (hreads : ∀ a ∈ reads', a < length) (hreach : ReflTransGen (NextRecord buffer length) index j)
    (hj : j < length) : RecordOk buffer length j := by
  induction fuel generalizing index files reads with
  | zero => cases h
  | succ fuel ih =>
      rcases hreach.cases_head with rfl | ⟨k, ⟨hindex, rfl⟩, hrest⟩
      · have hsize : load buffer (index + 4) 2 ≠ 0 := by
          intro hzero
          rw [parseDir_hang hj (hlen.trans' hj |>.trans (by decide)) hzero] at h
          cases h
        rw [parseDir, if_pos hj] at h
        exact (recordOk_iff hsize).mpr fun a ha =>
          hreads a (parseDir_reads fuel h a (List.mem_append_right _ ha))
      · rw [parseDir, if_pos hindex, wrap64_next hlen hindex] at h
        exact ih h hrest

/-- If all records from here on are as they should be, the loop goes up with each round and
ends. -/
theorem parseDir_of_recordOk (hlen : length < 2 ^ 32) (fuel : Nat) (files : List DirEntry)
    (reads : List Nat) (hfuel : length - index < fuel)
    (hok : ∀ j, ReflTransGen (NextRecord buffer length) index j → j < length →
      RecordOk buffer length j) :
    ∃ files' new, parseDir left buffer length fuel index files reads =
        .ret (files', reads ++ new) ∧ ∀ a ∈ new, a < length := by
  induction fuel generalizing index files reads with
  | zero => cases hfuel
  | succ fuel ih =>
      rw [parseDir]
      by_cases hindex : index < length
      · have hrecord := hok index .refl hindex
        have hsize := hrecord.size
        rw [if_pos hindex, wrap64_next hlen hindex]
        obtain ⟨files', new, hret, hnew⟩ := ih (files ++ recordEntry left buffer index)
          (reads ++ recordReads buffer index) (show
            length - (index + load buffer (index + 4) 2) < fuel by omega)
          fun j hj => hok j (.head ⟨hindex, rfl⟩ hj)
        refine ⟨files', recordReads buffer index ++ new, ?_, fun a ha => ?_⟩
        · rw [hret, List.append_assoc]
        · rcases List.mem_append.mp ha with ha | ha
          · exact (recordOk_iff hsize).mp hrecord a ha
          · exact hnew a ha
      · rw [if_neg hindex]
        exact ⟨files, [], by rw [List.append_nil], nofun⟩

/-- **When a directory is parsed in bounds.**  The loop of `ext2_fetch_dir` ends and reads
nothing outside of the buffer exactly if every record that is reached has a size that is not
zero, and its header and name lie in the buffer. -/
theorem dir_parse_iff (hlen : length < 2 ^ 32) :
    ParsesInBounds left buffer length ↔
      ∀ index, ReflTransGen (NextRecord buffer length) 0 index → index < length →
        RecordOk buffer length index := by
  constructor
  · rintro ⟨fuel, files, reads, h, hreads⟩ index hreach hindex
    exact recordOk_of_parseDir hlen fuel h hreads hreach hindex
  · intro hok
    obtain ⟨files, reads, h, hreads⟩ :=
      @parseDir_of_recordOk left buffer length 0 hlen (length + 1) [] [] (by omega) hok
    exact ⟨length + 1, files, reads, by rwa [List.nil_append] at h, hreads⟩

end

/-- A directory of three records: `.`, one without an inode, whose name would end behind the
directory, and `ab`. -/
def unusedRecord : Mem := fun i =>
  [2, 0, 0, 0, 12, 0, 1, 2, 46, 0, 0, 0,
    0, 0, 0, 0, 12, 0, 255, 1, 120, 120, 120, 120,
    11, 0, 0, 0, 16, 0, 2, 1, 97, 98, 0, 0, 0, 0, 0, 0].getD i 0

theorem dir_parse_three : ParsesInBounds (fun _ => 0) unusedRecord 40 := by
  refine (dir_parse_iff (by decide)).mpr fun index hreach hindex => ?_
  have hcases : index = 0 ∨ index = 12 ∨ index = 24 ∨ index = 40 := by
    clear hindex
    induction hreach with
    | refl => exact .inl rfl
    | tail _ hnext ih =>
        obtain ⟨hlt, rfl⟩ := hnext
        rcases ih with rfl | rfl | rfl | rfl
        · exact .inr (.inl rfl)
        · exact .inr (.inr (.inl rfl))
        · exact .inr (.inr (.inr rfl))
        · exact absurd hlt (Nat.lt_irrefl 40)
  rcases hcases with rfl | rfl | rfl | rfl
  · exact ⟨by decide, by decide, by decide, by decide⟩
  · exact ⟨by decide, by decide, by decide, by decide⟩
  · exact ⟨by decide, by decide, by decide, by decide⟩
  · exact absurd hindex (Nat.lt_irrefl 40)

/-- A directory of zeros is never parsed to its end. -/
theorem zero_record_hangs : ¬ ∀ (left buffer : Mem) (length : Nat), length < 2 ^ 32 →
    ParsesInBounds left buffer length := by
  intro h
  obtain ⟨fuel, files, reads, hret, -⟩ := h (fun _ => 0) (fun _ => 0) 1024 (by decide)
  rw [parseDir_hang (by decide) (by decide) rfl] at hret
  cases hret

/-! ## Records on the disk -/

/-- A record of a directory.  `padding` is what its size leaves behind the name. -/
structure DirRecord where
  inode : UInt32
  type : UInt8
  name : List UInt8
  padding : List UInt8
  name_ne : name ≠ []
  name_le : name.length ≤ 255
  name_text : 0 ∉ name
  size_lt : 8 + name.length + padding.length < 2 ^ 16

namespace DirRecord

variable (r : DirRecord)

/-- `size` of an `ext2_dentry_base_t`. -/
def size : Nat := 8 + r.name.length + r.padding.length

/-- A record, as it is on the disk. -/
def bytes : List UInt8 :=
  spell 4 r.inode.toNat ++ (spell 2 r.size ++ (spell 1 r.name.length ++
    ([r.type] ++ (r.name ++ r.padding))))

theorem length_bytes : r.bytes.length = r.size := by
  simp only [bytes, size, List.length_append, length_spell, List.length_singleton]
  omega

end DirRecord

/-- Records back to back. -/
def encode (rs : List DirRecord) : List UInt8 := rs.flatMap DirRecord.bytes

/-- The name of an entry, up to its terminator. -/
def DirEntry.text (e : DirEntry) : List UInt8 := ((List.range 256).map e.name).takeWhile (· ≠ 0)

/-- What an entry says. -/
def DirEntry.listing (e : DirEntry) : List UInt8 × Nat := (e.text, e.inode)

/-- What there should be for a record, if anything. -/
def DirRecord.listing (r : DirRecord) : List UInt8 × Nat := (r.name, r.inode.toNat)

theorem strnlen_of_text {src : Mem} {size : Nat} (h : ∀ i < size, src i ≠ 0) :
    strnlen src size = size := by
  induction size generalizing src with
  | zero => rfl
  | succ size ih =>
      rw [strnlen, if_neg (h 0 (Nat.succ_pos size)), ih fun i hi => h (i + 1) (by omega)]

/-- The copy of a name ends where the name does. -/
theorem text_entryName (left : Mem) {src : Mem} {name : List UInt8} {inode : Nat}
    (hsrc : Stands src 0 name) (htext : 0 ∉ name) (hle : name.length ≤ 255) :
    DirEntry.text ⟨entryName left src name.length, inode⟩ = name := by
  have hne : ∀ i < name.length, src i ≠ 0 := by
    intro i hi h0
    have hi' := hsrc i hi
    rw [Nat.zero_add, h0, List.getD_eq_getElem _ _ hi] at hi'
    exact htext (hi' ▸ List.getElem_mem hi)
  have hname : (List.range name.length).map (entryName left src name.length) = name := by
    refine List.ext_getElem (by simp) fun i h1 h2 => ?_
    have hi := hsrc i h2
    rw [Nat.zero_add, List.getD_eq_getElem _ _ h2] at hi
    rw [List.getElem_map, List.getElem_range, entryName, if_neg h2.ne, strnlen_of_text hne,
      if_pos h2, hi]
  have hsplit : List.range 256 =
      List.range name.length ++ (List.range (256 - name.length)).map (name.length + ·) := by
    rw [← List.range_add]
    congr 1
    omega
  obtain ⟨k, hk⟩ : ∃ k, 256 - name.length = k + 1 := ⟨255 - name.length, by omega⟩
  have hend : entryName left src name.length (name.length + 0) = 0 := if_pos rfl
  show ((List.range 256).map (entryName left src name.length)).takeWhile (· ≠ 0) = name
  rw [hsplit, List.map_append, hname, hk, List.range_succ_eq_map, List.map_cons,
    List.map_cons, hend, List.takeWhile_append_of_pos]
  · simp
  · intro x hx
    simpa using fun h0 : x = 0 => htext (h0 ▸ hx)

/-- What is parsed of a record. -/
theorem recordEntry_listing (left : Mem) {buffer : Mem} {index : Nat} (r : DirRecord)
    (h : Stands buffer index r.bytes) :
    load buffer (index + 4) 2 = r.size ∧
      (recordEntry left buffer index).map DirEntry.listing =
        if r.inode = 0 then [] else [r.listing] := by
  obtain ⟨hinode, h⟩ := stands_append.mp h
  obtain ⟨hsize, h⟩ := stands_append.mp h
  obtain ⟨hlength, h⟩ := stands_append.mp h
  obtain ⟨-, h⟩ := stands_append.mp h
  obtain ⟨hname, -⟩ := stands_append.mp h
  simp only [length_spell, List.length_singleton, Nat.add_assoc] at hsize hlength hname
  have hle := r.name_le
  have hload := hinode.load_eq (r.inode.toNat_lt)
  have hload1 := hlength.load_eq (show r.name.length < 256 ^ 1 by omega)
  refine ⟨hsize.load_eq r.size_lt, ?_⟩
  rw [recordEntry, hload, hload1]
  by_cases hzero : r.inode = 0
  · rw [if_pos hzero, if_pos (by rw [hzero]; rfl)]
    rfl
  · have hne : r.inode.toNat ≠ 0 := fun h0 => hzero (UInt32.toNat_inj.mp h0)
    have hsrc : Stands (fun i => buffer (index + 8 + i)) 0 r.name := by
      intro i hi
      rw [← hname i hi]
      show buffer (index + 8 + (0 + i)) = _
      exact congrArg buffer (by omega)
    rw [if_neg hzero, if_neg hne, List.map_singleton, DirEntry.listing,
      text_entryName left hsrc r.name_text r.name_le]
    rfl

/-- The loop goes through the records that are left. -/
theorem parseDir_encode (left : Mem) {buffer : Mem} {length : Nat} (hlen : length < word)
    (rs : List DirRecord) (fuel index : Nat) (files : List DirEntry) (reads : List Nat)
    (hbytes : Stands buffer index (encode rs)) (hend : index + (encode rs).length = length)
    (hfuel : rs.length < fuel) :
    ∃ files' reads', parseDir left buffer length fuel index files reads =
        .ret (files ++ files', reads') ∧
      files'.map DirEntry.listing = (rs.filter (·.inode ≠ 0)).map DirRecord.listing := by
  induction rs generalizing fuel index files reads with
  | nil =>
      obtain ⟨fuel, rfl⟩ := Nat.exists_eq_succ_of_ne_zero (Nat.ne_zero_of_lt hfuel)
      refine ⟨[], reads, ?_, rfl⟩
      rw [parseDir, if_neg (by rw [← hend]; exact Nat.lt_irrefl _), List.append_nil]
  | cons r rs ih =>
      obtain ⟨fuel, rfl⟩ := Nat.exists_eq_succ_of_ne_zero (Nat.ne_zero_of_lt hfuel)
      obtain ⟨hrecord, hrest⟩ := stands_append.mp hbytes
      obtain ⟨hsize, hentry⟩ := recordEntry_listing left r hrecord
      have hsplit : (encode (r :: rs)).length = r.size + (encode rs).length := by
        rw [encode, List.flatMap_cons, List.length_append, r.length_bytes]
        rfl
      have hpos : 8 ≤ r.size := by
        rw [DirRecord.size]
        omega
      rw [r.length_bytes] at hrest
      rw [parseDir, if_pos (by omega), hsize, wrap64_of_lt (by omega)]
      obtain ⟨files', reads', hret, hlist⟩ := ih fuel (index + r.size)
        (files ++ recordEntry left buffer index) (reads ++ recordReads buffer index) hrest
        (by omega) (Nat.lt_of_succ_lt_succ hfuel)
      refine ⟨recordEntry left buffer index ++ files', reads', ?_, ?_⟩
      · rw [hret, List.append_assoc]
      · rw [List.map_append, hentry, hlist]
        by_cases hzero : r.inode = 0 <;> simp [hzero]

/-- There are no more records than bytes. -/
theorem length_le_encode (rs : List DirRecord) : rs.length ≤ (encode rs).length := by
  induction rs with
  | nil => exact Nat.le_refl 0
  | cons r rs ih =>
      rw [encode, List.flatMap_cons, List.length_append, r.length_bytes, List.length_cons,
        DirRecord.size]
      rw [encode] at ih
      omega

/-- **Parsing a directory inverts laying it out.**  For all records whose sizes sum up to the
length of the directory, and whose bytes `ext2_read` delivers, `ext2_fetch_dir` returns, and
the entries are those of the records that have an inode, in order. -/
theorem fetch_dir_decodes (fs : Mount) (log log' : List DevRead) (left : Left) (inode : Mem)
    (rs : List DirRecord) {res : ReadResult} {buffer : Mem} (hlen : (encode rs).length < word)
    (hread : ext2ReadOn fs log (inodeOf inode) (encode rs).length left.block left.data
      (encode rs).length 0 = .ret (res, buffer, log'))
    (hbytes : Stands buffer 0 (encode rs)) :
    ∃ files, fetchDir fs log left inode (encode rs).length = .ret (files, log') ∧
      files.map DirEntry.listing = (rs.filter (·.inode ≠ 0)).map DirRecord.listing := by
  have hfuel := length_le_encode rs
  obtain ⟨files, reads, hret, hlist⟩ := parseDir_encode left.name hlen rs
    ((encode rs).length + 1) 0 [] [] hbytes (Nat.zero_add _) (by omega)
  refine ⟨files, ?_, hlist⟩
  rw [fetchDir, hread, Outcome.ret_bind]
  simp only [hret, List.nil_append]
  rfl

/-- The entry `.`, one that was deleted, and `ab` with two bytes of padding. -/
def threeRecords : List DirRecord :=
  [⟨2, 2, [46], [0, 0, 0], by decide, by decide, by decide, by decide⟩,
    ⟨0, 1, [120], [7], by decide, by decide, by decide, by decide⟩,
    ⟨11, 1, [97, 98], [120, 121], by decide, by decide, by decide, by decide⟩]

/-- A file system whose device delivers these records wherever it is read. -/
def recordsMount : Mount where
  dev :=
    { result := fun _ _ size => (min size 1024, fun i => (encode threeRecords).getD i 0)
      ssize := fun _ _ size => by omega }
  blockSizeLog := 0
  totalInodes := 16
  inodesPerGroup := 16
  majorVersion := 0
  inodeSize := 128
  bgInodeTable := fun _ => 5

theorem fetch_dir_decodes_three : ∃ files log,
    fetchDir recordsMount [] ⟨fun _ => 0, fun _ => 0, fun _ => 0, fun _ => 0, fun _ => 0⟩
      (fun _ => 0) 34 = .ret (files, log) ∧
    files.map DirEntry.listing = [([46], 2), ([97, 98], 11)] := by
  obtain ⟨files, hret, hlist⟩ := fetch_dir_decodes recordsMount [] _
    ⟨fun _ => 0, fun _ => 0, fun _ => 0, fun _ => 0, fun _ => 0⟩ (fun _ => 0) threeRecords
    (by decide) rfl (by unfold Stands; decide)
  exact ⟨files, _, hret, hlist⟩

end UlmerOS.Ext2
