import UlmerOS.Fs.Ext2Fetch
import UlmerOS.Fs.Ext2Read
import UlmerOS.Fs.Fd

/-!
# What becomes of the errors of a device

`ext2_get_block` compares the `ssize_t` that `vfs_read` returned with a `size_t`, so that a
negative value is taken for a large one.  A read that is short fails, and an error does not
(`getBlock_fails_iff`).  `ext2_get_file_block` answers a short read of a block of pointers
with the block number `(size_t)-1`, and `ext2_read` reads that block.  So `ext2_read` fails
exactly if a read of a block of data was short (`ext2ReadOn_cases`).  `ext2_fetch_file` does
not look at what `fetch_inode` returns, and a file is there whatever was read.
-/

namespace UlmerOS.Ext2

open ByteMem

/-! ## One read -/

/-- As a `size_t`, the result of a short read is too small, and an error is not. -/
theorem toSize_lt_iff {n : Int} {size : Nat} (hn : -2 ^ 63 ≤ n ∧ n < 2 ^ 63)
    (hsize : size < 2 ^ 63) : toSize n < size ↔ 0 ≤ n ∧ n < size := by
  simp only [toSize, word]
  omega

/-- `ext2_get_block` fails if the read was short. -/
theorem getBlock_fails_iff (fs : Mount) (log : List DevRead) (buffer : Mem) (lba : Nat)
    {count : Nat} (hcount : count * 512 < 2 ^ 63) :
    (getBlock fs log buffer lba count).1 = false ↔
      (fs.record log.length false lba count).Short := by
  have hsize : wrap64 (count * 512) < 2 ^ 63 :=
    Nat.lt_of_le_of_lt (Nat.mod_le _ _) hcount
  have h := toSize_lt_iff (fs.dev.ssize log.length (wrap64 (lba * 512)) (wrap64 (count * 512)))
    hsize
  rw [DevRead.Short, Mount.record, ← h, getBlock, ext2GetBlock]
  by_cases hlt : ((fs.nth log.length).read (wrap64 (lba * 512)) (wrap64 (count * 512))).1 <
      wrap64 (count * 512)
  · exact iff_of_true (by simp only [hlt, decide_true, Bool.not_true]) hlt
  · refine iff_of_false ?_ hlt
    simp only [hlt, decide_false, Bool.not_false]
    exact Bool.false_ne_true.symm

/-- An error of the driver comes through `bd_read`, and so does a short read. -/
theorem bdRead_bad_iff {readblk : Mem → Nat → Nat → DriverRead} {buffer : Mem} {size off : Nat}
    (hsize : 512 ∣ size) :
    (bdRead (some readblk) buffer size off).ret < size ↔
      (readblk buffer (size / 512) (off / 512)).ret < (size / 512 : Nat) := by
  obtain ⟨count, rfl⟩ := hsize
  rw [Nat.mul_div_cancel_left count (by norm_num)]
  simp only [bdRead, Nat.mul_div_cancel_left count (show 0 < 512 by norm_num),
    apply_ite DriverRead.ret]
  split <;> omega

/-- The read of a block of data was short.  This is what `ext2_read` notices. -/
def DevRead.Noticed (r : DevRead) : Prop := r.pointers = false ∧ r.Short

/-! ## One round of the loop -/

theorem Mount.blockSize_pos (fs : Mount) : 0 < fs.blockSize := (fs.nth 0).blockSize_pos

section

variable {fs : Mount} {inode : Inode} (hbs : fs.blockSize < 2 ^ 31)
include hbs

/-- `ext2_get_file_block` reads nothing but pointers, and panics behind those there are. -/
theorem getFileBlock_cases (log : List DevRead) (blockBuffer : Mem) (index : Nat) :
    getFileBlock fs log inode blockBuffer index =
        .panic "ext2fs: indirect pointers are unimplemented" ∨
      index < 12 + fs.blockSize / 4 ∧ ∃ blockNo buffer new,
        getFileBlock fs log inode blockBuffer index = .ret (blockNo, buffer, log ++ new) ∧
          ∀ r ∈ new, r.pointers = true := by
  rw [getFileBlock]
  have hbs' : (fs.nth log.length).blockSize < 2 ^ 31 := hbs
  rcases ext2GetFileBlock_cases hbs' inode blockBuffer index with
    hpanic | ⟨hlimit, blockNo, buffer, hret⟩
  · left
    rw [hpanic]
    rfl
  · right
    rw [hret, Outcome.ret_bind]
    refine ⟨hlimit, blockNo, buffer, ?_⟩
    by_cases hdirect : index < 12
    · exact ⟨[], by simp [hdirect], by simp⟩
    · refine ⟨_, congrArg (fun l => Outcome.ret (blockNo, buffer, l)) (if_neg hdirect), ?_⟩
      simp [Mount.record]

/-- A round panics, or it reads pointers, if any, and then the block.  It fails if that read
is short, and otherwise it copies a byte at least. -/
theorem readBlockOn_cases {offset len : Nat} {st : ReadState} (log : List DevRead)
    (hlen : len < word) (hr : st.bytesRead < len) (hpos : offset + st.bytesRead < word) :
    readBlockOn fs inode offset len st log =
        .panic "ext2fs: indirect pointers are unimplemented" ∨
      ∃ ok st' new last, readBlockOn fs inode offset len st log =
          .ret (ok, st', log ++ new ++ [last]) ∧
        (∀ r ∈ new, r.pointers = true) ∧ last.pointers = false ∧ (ok = false ↔ last.Short) ∧
        (ok = true → st.bytesRead < st'.bytesRead ∧ st'.bytesRead ≤ len ∧
          offset + st'.bytesRead < word) := by
  have hbpos := fs.blockSize_pos
  have hsmall := singleIndirect_lt hbs
  rw [readBlockOn]
  simp only [wrap64_of_lt hpos]
  rcases getFileBlock_cases hbs log st.blockBuffer
    ((offset + st.bytesRead) / fs.blockSize) with hpanic | ⟨hlimit, blockNo, bb, new, hfile, hnew⟩
  · left
    rw [hpanic]
    rfl
  · right
    -- the block is one that can be reached, so the position is far from the end of a word
    have hreach : offset + st.bytesRead < 2 ^ 62 :=
      Nat.lt_trans ((Nat.div_lt_iff_lt_mul hbpos).mp hlimit) hsmall
    obtain ⟨hone, hend, hcopy⟩ := copySize_bounds offset hbpos hr hlen
      (show st.bytesRead + fs.blockSize < word by unfold word; omega)
    have hcount : fs.blockSize / 512 * 512 < 2 ^ 63 := by omega
    have hshort := getBlock_fails_iff fs (log ++ new) bb
      (wrap64 (blockNo * fs.blockSize) / 512) hcount
    rw [hfile]
    simp only [Outcome.ret_bind]
    cases hok : (getBlock fs (log ++ new) bb (wrap64 (blockNo * fs.blockSize) / 512)
        (fs.blockSize / 512)).1 with
    | false =>
        exact ⟨false, _, new, _, rfl, hnew, rfl, iff_of_true rfl (hshort.mp hok),
          fun hread => absurd hread Bool.false_ne_true⟩
    | true =>
        refine ⟨true, _, new, _, rfl, hnew, rfl, iff_of_false Bool.false_ne_true.symm ?_,
          fun _ => ?_⟩
        · rw [← hshort, hok]
          exact Bool.false_ne_true.symm
        · simp only [wrap64_of_lt (show st.bytesRead +
            (copySize fs.blockSize offset len st.bytesRead).2 < word by omega)]
          unfold word
          omega

omit hbs in
/-- Reads in which nothing was noticed do not change the result of those behind them. -/
theorem noticed_append {reads later : List DevRead} (h : ∀ r ∈ reads, ¬ r.Noticed) :
    (∃ r ∈ reads ++ later, r.Noticed) ↔ ∃ r ∈ later, r.Noticed := by
  constructor
  · rintro ⟨r, hmem, hn⟩
    exact ⟨r, (List.mem_append.mp hmem).resolve_left fun hr => h r hr hn, hn⟩
  · rintro ⟨r, hmem, hn⟩
    exact ⟨r, List.mem_append_right _ hmem, hn⟩

/-- The loop panics, or it ends.  It fails if the read of a block of data was short. -/
theorem readLoopOn_cases (offset : Nat) {len : Nat} (hlen : len < word) (fuel : Nat)
    (st : ReadState) (log : List DevRead) (hfuel : len - st.bytesRead < fuel)
    (hpos : offset + st.bytesRead < word) :
    readLoopOn fs inode offset len fuel st log =
        .panic "ext2fs: indirect pointers are unimplemented" ∨
      ∃ ok st' new, readLoopOn fs inode offset len fuel st log = .ret (ok, st', log ++ new) ∧
        (ok = false ↔ ∃ r ∈ new, r.Noticed) := by
  induction fuel generalizing st log with
  | zero => cases hfuel
  | succ fuel ih =>
      rw [readLoopOn]
      by_cases hr : st.bytesRead < len
      · rw [if_pos hr]
        rcases readBlockOn_cases hbs log hlen hr hpos with
          hpanic | ⟨ok, st1, new, last, hround, hnew, hlast, hok, hnext⟩
        · left
          rw [hpanic]
          rfl
        have hmissed : ∀ r ∈ new, ¬ r.Noticed := fun r hmem hn => by
          rw [DevRead.Noticed, hnew r hmem] at hn
          cases hn.1
        rw [hround, Outcome.ret_bind]
        cases ok with
        | false =>
            right
            refine ⟨false, st1, new ++ [last], ?_, iff_of_true rfl ⟨last, by simp, hlast, ?_⟩⟩
            · rw [List.append_assoc]
              rfl
            · exact hok.mp rfl
        | true =>
            obtain ⟨hmore, hend, hpos1⟩ := hnext rfl
            have hquiet : ∀ r ∈ new ++ [last], ¬ r.Noticed := by
              intro r hmem hn
              rcases List.mem_append.mp hmem with hmem | hmem
              · exact hmissed r hmem hn
              · rw [List.mem_singleton.mp hmem] at hn
                cases hok.mpr hn.2
            rcases ih st1 (log ++ new ++ [last]) (by omega) hpos1 with
              hpanic | ⟨ok2, st2, new2, hloop, hok2⟩
            · exact .inl hpanic
            · right
              refine ⟨ok2, st2, new ++ [last] ++ new2, ?_, ?_⟩
              · rw [← List.append_assoc, ← List.append_assoc]
                exact hloop
              · exact hok2.trans (noticed_append hquiet).symm
      · rw [if_neg hr]
        exact .inr ⟨true, st, [], by rw [List.append_nil],
          iff_of_false Bool.false_ne_true.symm (by simp)⟩

/-- `ext2_read` panics, or it returns.  It returns an error if the read of a block of data
was short, and no error otherwise. -/
theorem ext2ReadOn_cases (inode : Inode) (log : List DevRead) (length : Nat) (left buffer : Mem)
    {len offset : Nat} (hlen : len < word) (hoffset : offset < word) :
    ext2ReadOn fs log inode length left buffer len offset =
        .panic "ext2fs: indirect pointers are unimplemented" ∨
      ∃ res buffer' new, ext2ReadOn fs log inode length left buffer len offset =
          .ret (res, buffer', log ++ new) ∧ (res = .eio ↔ ∃ r ∈ new, r.Noticed) := by
  obtain ⟨n, hn, hlt⟩ : ∃ n, (if length < wrap64 (offset + len) then
      wrap64 (length + word - offset) else len) = n ∧ n < word := by
    refine ⟨_, rfl, ?_⟩
    split
    · exact wrap64_lt _
    · exact hlen
  rw [ext2ReadOn]
  simp only [hn]
  rcases readLoopOn_cases hbs offset hlt (n + 1) ⟨0, left, buffer⟩ log (Nat.lt_succ_self n)
    hoffset with
    hpanic | ⟨ok, st, new, hloop, hok⟩
  · left
    rw [hpanic]
    rfl
  · right
    rw [hloop, Outcome.ret_bind]
    refine ⟨_, _, new, rfl, ?_⟩
    rw [← hok]
    cases ok <;> simp

end

/-- `ext2_fetch` attaches a file, whatever was read. -/
theorem ext2Fetch_attaches {fs : Mount} {left : Left} {direntry : DirEntry}
    {file : Option FetchedFile} {log : List DevRead}
    (h : ext2Fetch fs left direntry = .ret (file, log)) : file ≠ none := by
  obtain ⟨⟨fetched, log'⟩, -, hret⟩ := Outcome.bind_eq_ret.mp h
  cases hret
  nofun

/-- **Errors of the device.**  `bd_read` passes a short read and an error on.
`ext2_get_block` reports that a read was short or failed, unless it failed.  `ext2_read` does
if the read of a block of data was short, and otherwise it does not.  `ext2_fetch` does not
keep back a file whose inode or entries were not read. -/
theorem device_errors {fs : Mount} (hbs : fs.blockSize < 2 ^ 31) :
    (∀ (readblk : Mem → Nat → Nat → DriverRead) (buffer : Mem) (size off : Nat), 512 ∣ size →
      ((bdRead (some readblk) buffer size off).ret < size ↔
        (readblk buffer (size / 512) (off / 512)).ret < (size / 512 : Nat))) ∧
    (∀ log buffer lba count, count * 512 < 2 ^ 63 →
      (((fs.record log.length false lba count).Bad →
          (getBlock fs log buffer lba count).1 = false) ↔
        0 ≤ (fs.record log.length false lba count).ret)) ∧
    (∀ log inode length left buffer len offset, len < word → offset < word →
      ext2ReadOn fs log inode length left buffer len offset =
          .panic "ext2fs: indirect pointers are unimplemented" ∨
        ∃ res buffer' new, ext2ReadOn fs log inode length left buffer len offset =
            .ret (res, buffer', log ++ new) ∧
          (((∃ r ∈ new, r.Bad) → res = .eio) ↔
            (∃ r ∈ new, r.Noticed) ∨ ∀ r ∈ new, ¬ r.Bad)) ∧
    ∀ left direntry file log, ext2Fetch fs left direntry = .ret (file, log) →
      (((∃ r ∈ log, r.Bad) → file = none) ↔ ∀ r ∈ log, ¬ r.Bad) := by
  refine ⟨fun _ _ _ _ hsize => bdRead_bad_iff hsize, fun log buffer lba count hcount => ?_, ?_, ?_⟩
  · rw [getBlock_fails_iff fs log buffer lba hcount]
    generalize fs.record log.length false lba count = r
    rw [DevRead.Short, DevRead.Bad]
    omega
  · intro log inode length left buffer len offset hlen hoffset
    rcases ext2ReadOn_cases hbs inode log length left buffer hlen hoffset with
      hpanic | ⟨res, buffer', new, hret, hres⟩
    · exact .inl hpanic
    · refine .inr ⟨res, buffer', new, hret, ?_⟩
      rw [hres]
      constructor
      · intro hreported
        by_cases hbad : ∃ r ∈ new, r.Bad
        · exact .inl (hreported hbad)
        · exact .inr fun r hr hb => hbad ⟨r, hr, hb⟩
      · rintro (hnoticed | hgood)
        · exact fun _ => hnoticed
        · rintro ⟨r, hr, hb⟩
          exact absurd hb (hgood r hr)
  · intro left direntry file log hret
    have hfile := ext2Fetch_attaches hret
    constructor
    · exact fun hnone r hr hb => hfile (hnone ⟨r, hr, hb⟩)
    · rintro hgood ⟨r, hr, hb⟩
      exact absurd hb (hgood r hr)

/-- A file system on a device whose reads all return `ret`. -/
def constMount (ret : Int) (h : -2 ^ 63 ≤ ret ∧ ret < 2 ^ 63) : Mount where
  dev := { result := fun _ _ _ => (ret, fun _ => 0), ssize := fun _ _ _ => h }
  blockSizeLog := 0
  totalInodes := 16
  inodesPerGroup := 16
  majorVersion := 0
  inodeSize := 128
  bgInodeTable := fun _ => 5

/-- A block is read, and one sector of it comes. -/
theorem device_errors_short :
    (getBlock (constMount 512 (by decide)) [] (fun _ => 0) 10 2).1 = false :=
  ((@device_errors (constMount 512 (by decide)) (by decide)).2.1 [] (fun _ => 0) 10 2
    (by decide)).mpr (show (0 : Int) ≤ 512 by decide) (show (512 : Int) < 1024 by decide)

/-- Every read of the device fails, and ten bytes of a file are read from it. -/
theorem error_taken_for_data : ¬ ∀ (fs : Mount) (inode : Inode) (length : Nat)
    (left buffer buffer' : Mem) (len offset : Nat) (res : ReadResult) (log : List DevRead),
    ext2ReadOn fs [] inode length left buffer len offset = .ret (res, buffer', log) →
      (∃ r ∈ log, r.Bad) → res = .eio := by
  intro hclaim
  have hcompute : (do
      let read ← ext2ReadOn (constMount (-5) (by decide)) [] smallInode 100
        (fun _ => 0) (fun _ => 0) 10 0
      .ret (read.1, read.2.2.map fun r => decide (r.ret < r.size))) =
      Outcome.ret (ReadResult.bytes 10, [true]) := by decide +kernel
  obtain ⟨⟨res, buffer', log⟩, hret, hvals⟩ := Outcome.bind_eq_ret.mp hcompute
  simp only [Outcome.ret.injEq, Prod.mk.injEq] at hvals
  obtain ⟨hres, hlog⟩ := hvals
  have hbad : ∃ r ∈ log, r.Bad := by
    have hmem : true ∈ log.map fun r => decide (r.ret < r.size) := by simp [hlog]
    obtain ⟨r, hr, hb⟩ := List.mem_map.mp hmem
    exact ⟨r, hr, of_decide_eq_true hb⟩
  have heio := hclaim _ _ _ _ _ _ _ _ _ _ hret hbad
  rw [hres] at heio
  cases heio

end UlmerOS.Ext2
