import UlmerOS.Fs.Fd
import UlmerOS.Fs.Ext2Read
import UlmerOS.Lib.Run
import Mathlib.Data.List.Range

/-!
# The position of a file descriptor

A file descriptor has a position, and a sequence of reads and seeks should be one of a
machine whose state is the position (`PosStep`): a read delivers the bytes at the position
and moves on behind them, and a seek returns where it went.  Reads in a row then deliver the
file piece by piece (`reads_consecutive`).

`vfs_read` and `sys_read` hand the position to the driver and leave it where it is, and
`vfs_seek` returns its argument.  So the law holds as long as nothing is delivered and every
position is the argument of the seek that led there.  Besides, `sys_read` gives back the
mutex of the descriptor, which nobody initialises or takes, and returns only if what the
memory held there lets `mutex_unlock` return (`posStep_iff`).
-/

namespace UlmerOS

open Transition ByteMem

/-! ## The machine -/

/-- A call on a descriptor, with what it returns and what it delivers. -/
inductive FdCall where
  | read (len : Nat) (ret : Int) (data : List UInt8)
  | sysRead (buffer len : Nat) (ret : Int) (data : List UInt8)
  | seek (offset : Nat) (whence : Int) (ret : Nat)

/-- The `n` bytes of a file from a position on. -/
def fileBytes (byte : Nat → UInt8) (pos n : Nat) : List UInt8 :=
  (List.range n).map fun i => byte (pos + i)

/-- What the calls do to the position in a file with these bytes. -/
inductive PosStep (byte : Nat → UInt8) (length : Nat) : Nat → FdCall → Nat → Prop where
  | read {pos len n : Nat} : min len (length - pos) = n →
      PosStep byte length pos (.read len n (fileBytes byte pos n)) (pos + n)
  | sysRead {pos buffer len n : Nat} : min len (length - pos) = n →
      PosStep byte length pos (.sysRead buffer len n (fileBytes byte pos n)) (pos + n)
  | rejected {pos buffer len : Nat} : sysBufferRangeCheck buffer len = true →
      PosStep byte length pos (.sysRead buffer len (-einval) []) pos
  | set {pos offset : Nat} : PosStep byte length pos (.seek offset seekSet offset) offset
  | cur {pos offset pos' : Nat} : wrap64 (pos + offset) = pos' →
      PosStep byte length pos (.seek offset seekCur pos') pos'
  | atEnd {pos offset pos' : Nat} : wrap64 (length + offset) = pos' →
      PosStep byte length pos (.seek offset seekEnd pos') pos'
  | other {pos offset ret : Nat} {whence : Int} : whence ≠ seekSet → whence ≠ seekCur →
      whence ≠ seekEnd → PosStep byte length pos (.seek offset whence ret) pos

namespace PosStep

variable {byte : Nat → UInt8} {length pos pos' : Nat}

theorem of_read {len : Nat} {ret : Int} {data : List UInt8}
    (h : PosStep byte length pos (.read len ret data) pos') :
    pos' = pos + min len (length - pos) := by
  cases h with
  | read hn => rw [hn]

theorem of_sysRead {buffer len : Nat} {ret : Int} {data : List UInt8}
    (h : PosStep byte length pos (.sysRead buffer len ret data) pos')
    (hcheck : sysBufferRangeCheck buffer len = false) : pos' = pos + min len (length - pos) := by
  cases h with
  | sysRead hn => rw [hn]
  | rejected hc => rw [hcheck] at hc; cases hc

theorem of_seek {offset ret : Nat} {whence : Int}
    (h : PosStep byte length pos (.seek offset whence ret) pos') :
    (whence = seekCur → ret = wrap64 (pos + offset)) ∧
      (whence = seekEnd → ret = wrap64 (length + offset)) := by
  cases h with
  | set => exact ⟨nofun, nofun⟩
  | cur hp => exact ⟨fun _ => hp.symm, nofun⟩
  | atEnd hp => exact ⟨nofun, fun _ => hp.symm⟩
  | other _ hc he => exact ⟨fun h => absurd h hc, fun h => absurd h he⟩

end PosStep

/-- The bytes a call delivers. -/
def FdCall.data : FdCall → List UInt8
  | .read _ _ data => data
  | .sysRead _ _ _ data => data
  | .seek _ _ _ => []

/-- The call is a read. -/
def FdCall.IsRead : FdCall → Prop
  | .seek _ _ _ => False
  | _ => True

theorem fileBytes_append (byte : Nat → UInt8) (pos m n : Nat) :
    fileBytes byte pos m ++ fileBytes byte (pos + m) n = fileBytes byte pos (m + n) := by
  simp only [fileBytes, List.range_add, List.map_append, List.map_map, Function.comp_def,
    Nat.add_assoc]

/-- Reads in a row deliver the bytes between the position before and the position after. -/
theorem reads_consecutive {byte : Nat → UInt8} {length pos pos' : Nat} {calls : List FdCall}
    (h : Run (PosStep byte length) pos calls pos') (hreads : ∀ c ∈ calls, c.IsRead) :
    ∃ n, pos' = pos + n ∧ calls.flatMap FdCall.data = fileBytes byte pos n := by
  induction h with
  | nil => exact ⟨0, rfl, rfl⟩
  | @cons s t u c cs hst _ ih =>
      obtain ⟨m, rfl, hm⟩ := ih fun c hc => hreads c (List.mem_cons_of_mem _ hc)
      have hread := hreads c List.mem_cons_self
      rw [List.flatMap_cons, hm]
      cases hst with
      | @read len n _ => exact ⟨n + m, Nat.add_assoc _ _ _, fileBytes_append _ _ _ _⟩
      | @sysRead _ len n _ => exact ⟨n + m, Nat.add_assoc _ _ _, fileBytes_append _ _ _ _⟩
      | rejected _ => exact ⟨m, rfl, rfl⟩
      | set => exact hread.elim
      | cur _ => exact hread.elim
      | atEnd _ => exact hread.elim
      | other _ _ _ => exact hread.elim

/-! ## Files and their descriptors -/

/-- A regular file on a device that works, with its blocks allocated. -/
structure Ext2File where
  fs : Ext2.Ext2Fs
  inode : Ext2.Inode
  length : Nat
  disk : Mem
  sectors : Nat
  small : fs.blockSize < 2 ^ 31
  delivers : Ext2.Delivers fs.read disk sectors
  allocated : Ext2.Allocated disk sectors fs.blockSize inode length
  indirect : length ≤ (12 + fs.blockSize / 4) * fs.blockSize

namespace Ext2File

/-- A byte of the file. -/
def byte (f : Ext2File) (i : Nat) : UInt8 := Ext2.fileByte f.disk f.fs.blockSize f.inode i

/-- The file as `vfs_open` opens it. -/
def openFd (f : Ext2File) : Fd := vfsOpenRegular f.fs f.inode f.length

theorem length_lt (f : Ext2File) : f.length < 2 ^ 62 :=
  Nat.lt_of_le_of_lt f.indirect (Ext2.singleIndirect_lt f.small)

end Ext2File

/-- A descriptor of a file of ext2. -/
structure Fd.OnExt2 (fs : Ext2.Ext2Fs) (inode : Ext2.Inode) (fd : Fd) : Prop where
  fOps_eq : fd.fOps = ext2FOps fs inode fd.length
  length_lt : fd.length < word
  fpos_lt : fd.fpos < word

/-- A descriptor of the file, at some position. -/
structure Fd.Of (f : Ext2File) (fd : Fd) : Prop where
  length_eq : fd.length = f.length
  fOps_eq : fd.fOps = ext2FOps f.fs f.inode f.length
  fpos_lt : fd.fpos < word

theorem Fd.Of.onExt2 {f : Ext2File} {fd : Fd} (h : fd.Of f) : fd.OnExt2 f.fs f.inode where
  fOps_eq := by rw [h.fOps_eq, h.length_eq]
  length_lt := by
    have hlen := f.length_lt
    rw [h.length_eq, word]
    omega
  fpos_lt := h.fpos_lt

/-- An open descriptor: the `fd_t`, and its `fdmod` in the kernel's memory. -/
structure OpenFd where
  fd : Fd
  fdmod : Nat
  mem : Mem

/-- What is asked of a descriptor. -/
inductive FdRequest where
  | read (left buffer : Mem) (len : Nat)
  | sysRead (fdList : List (Nat × Fd)) (left ram : Mem) (num : Int) (buffer len : Nat)
  | seek (offset : Nat) (whence : Int)

/-- A call on a descriptor by the task `current`. -/
def fdRequest (debug : Bool) (current : Nat) (s : OpenFd) : FdRequest → Outcome (FdCall × OpenFd)
  | .read left buffer len => do
      let r ← vfsRead s.fd left buffer len
      .ret (.read len r.ret r.data, s)
  | .sysRead fdList left ram num buffer len => do
      let (res, buffer', mem) ←
        sysReadUnlock debug s.fdmod current s.mem fdList left ram num buffer len
      .ret (.sysRead buffer len res.ret ((List.range res.ret.toNat).map buffer'),
        { s with mem := mem })
  | .seek offset whence =>
      .ret (.seek offset whence (vfsSeek s.fd offset whence).1,
        { s with fd := (vfsSeek s.fd offset whence).2 })

/-- Calls one after another. -/
def fdRequests (debug : Bool) (current : Nat) : OpenFd → List FdRequest →
    Outcome (List FdCall × OpenFd)
  | s, [] => .ret ([], s)
  | s, r :: rs => do
      let (c, s) ← fdRequest debug current s r
      let (cs, s) ← fdRequests debug current s rs
      .ret (c :: cs, s)

/-- The descriptor is found under the number, and an offset is a `uint64_t`. -/
def FdRequest.On (fd : Fd) : FdRequest → Prop
  | .read _ _ _ => True
  | .sysRead fdList _ _ num _ _ => ∃ k, (procGetFd fdList num).1 = some (k, fd)
  | .seek offset _ => offset < word

/-- The range of a read starts in the file and does not wrap around. -/
def ReadsInRange (fd : Fd) : FdRequest → Prop
  | .read _ _ len => fd.fpos ≤ fd.length ∧ fd.fpos + len < word
  | .sysRead _ _ _ _ buffer len => sysBufferRangeCheck buffer len = true ∨
      fd.fpos ≤ fd.length ∧ fd.fpos + len < word
  | .seek _ _ => True

/-- A read has nothing to deliver, and `sys_read` can give the mutex back.  A seek goes to
where its argument says. -/
def KeepsPosition (debug : Bool) (current : Nat) (s : OpenFd) : FdRequest → Prop
  | .read _ _ len => len = 0 ∨ s.fd.fpos = s.fd.length
  | .sysRead _ _ _ _ buffer len => sysBufferRangeCheck buffer len = true ∨
      (len = 0 ∨ s.fd.fpos = s.fd.length) ∧ Unlockable debug s.mem s.fdmod current
  | .seek _ whence => (whence = seekCur → s.fd.fpos = 0) ∧ (whence = seekEnd → s.fd.length = 0)

variable {debug : Bool} {current : Nat} {f : Ext2File} {fd : Fd} {s : OpenFd}
  {fs : Ext2.Ext2Fs} {inode : Ext2.Inode}

/-- What the driver returns and delivers for a read in range. -/
theorem Fd.Of.read (h : fd.Of f) {len : Nat} (hpos : fd.fpos ≤ fd.length)
    (hsum : fd.fpos + len < word) (left buffer : Mem) :
    ∃ r, ext2FRead f.fs f.inode f.length left buffer len fd.fpos = .ret r ∧
      r.ret = (min len (f.length - fd.fpos) : Nat) ∧
      r.data = fileBytes f.byte fd.fpos (min len (f.length - fd.fpos)) := by
  have hlen := f.length_lt
  rw [h.length_eq] at hpos
  obtain ⟨n, hn⟩ : ∃ n, min len (f.length - fd.fpos) = n := ⟨_, rfl⟩
  obtain ⟨buffer', hread, hdata, -⟩ := Ext2.ext2_read_file left buffer f.small f.delivers
    f.allocated (by unfold word; omega) hpos hsum (by have := f.indirect; omega)
  rw [hn] at hread hdata ⊢
  have hret : toSsize n = n := if_pos (by omega)
  refine ⟨_, ext2FRead_of_bytes hread, hret, ?_⟩
  rw [DriverRead.data, hret, Int.toNat_natCast, fileBytes]
  exact List.map_congr_left fun i hi => hdata i (List.mem_range.mp hi)

/-- Where there is nothing to deliver the driver reads no block. -/
theorem ext2FRead_nothing {length len offset : Nat} (left buffer : Mem) (hlen : length < word)
    (hpos : offset ≤ length) (hsum : offset + len < word) (hno : len = 0 ∨ offset = length) :
    ext2FRead fs inode length left buffer len offset = .ret ⟨0, buffer, 0⟩ := by
  have hzero : (if length < wrap64 (offset + len) then wrap64 (length + word - offset) else len) =
      0 := by
    rw [wrap64_of_lt hsum]
    rcases hno with rfl | rfl
    · exact if_neg (by omega)
    · split
      next => rw [Nat.add_sub_cancel_left, wrap64, Nat.mod_self]
      next h => omega
  simp only [ext2FRead, hzero]
  rfl

/-! ## The call of `sys_read` -/

/-- Of what `sys_read` does on an open descriptor, only the last effect is on `fdmod`. -/
theorem exec_read {num : Int} {fdList : List (Nat × Fd)} {ret : Int} {buffer n k : Nat} :
    SysResult.exec debug s.fdmod current s.mem
        ⟨ret, (procGetFd fdList num).2 ++ [.touch buffer n, .unlock (.fdmod k)]⟩ =
      mutexUnlock debug s.mem s.fdmod current := by
  have hlast : (do
      let mem ← mutexUnlock debug s.mem s.fdmod current
      Outcome.ret mem) = mutexUnlock debug s.mem s.fdmod current := by
    cases mutexUnlock debug s.mem s.fdmod current <;> rfl
  rw [← hlast, procGetFd]
  split <;> rfl

/-- On a descriptor that is open, `sys_read` rejects the buffer, or calls the driver and gives
the mutex back. -/
theorem sysRead_open {fdList : List (Nat × Fd)} {num : Int} {k : Nat}
    {read : Mem → Mem → Nat → Nat → Outcome DriverRead} (left ram : Mem) (buffer len : Nat)
    (hfd : (procGetFd fdList num).1 = some (k, s.fd)) (hops : s.fd.fOps.read = some read) :
    fdRequest debug current s (.sysRead fdList left ram num buffer len) =
      if sysBufferRangeCheck buffer len then .ret (.sysRead buffer len (-einval) [], s)
      else (do
        let r ← read left (bytesAt ram buffer) len s.fd.fpos
        let mem ← mutexUnlock debug s.mem s.fdmod current
        .ret (.sysRead buffer len r.ret r.data, { s with mem := mem })) := by
  rw [fdRequest, sysReadUnlock, sysRead]
  cases hcheck : sysBufferRangeCheck buffer len with
  | true => rfl
  | false =>
      simp only [Bool.false_eq_true, if_false, hfd, hops]
      cases hr : read left (bytesAt ram buffer) len s.fd.fpos with
      | ret r =>
          simp only [Outcome.ret_bind, exec_read]
          cases mutexUnlock debug s.mem s.fdmod current <;> rfl
      | _ => rfl

/-! ## The law, for one call -/

/-- Reads that do not move the position obey the law if there is nothing to read. -/
theorem read_iff {byte : Nat → UInt8} {length pos len n : Nat} {ret : Int} {data : List UInt8}
    (hn : min len (length - pos) = n) (hret : ret = n) (hdata : data = fileBytes byte pos n) :
    PosStep byte length pos (.read len ret data) pos ↔ n = 0 := by
  subst hret hdata
  constructor
  · intro h
    have := h.of_read
    omega
  · rintro rfl
    exact .read hn

theorem sysRead_iff {byte : Nat → UInt8} {length pos buffer len n : Nat} {ret : Int}
    {data : List UInt8} (hn : min len (length - pos) = n) (hret : ret = n)
    (hdata : data = fileBytes byte pos n) (hcheck : sysBufferRangeCheck buffer len = false) :
    PosStep byte length pos (.sysRead buffer len ret data) pos ↔ n = 0 := by
  subst hret hdata
  constructor
  · intro h
    have := h.of_sysRead hcheck
    omega
  · rintro rfl
    exact .sysRead hn

/-- A seek obeys the law if it goes to the position that is its argument. -/
theorem seek_iff {byte : Nat → UInt8} (hlen : fd.length < word) (hpos : fd.fpos < word)
    {offset : Nat} {whence : Int} (hoff : offset < word) :
    PosStep byte fd.length fd.fpos (.seek offset whence (vfsSeek fd offset whence).1)
        (vfsSeek fd offset whence).2.fpos ↔
      (whence = seekCur → fd.fpos = 0) ∧ (whence = seekEnd → fd.length = 0) := by
  rw [vfsSeek_ret, vfsSeek_fpos]
  constructor
  · intro hs
    obtain ⟨hcur, hend⟩ := hs.of_seek
    simp only [wrap64, word] at hcur hend hoff hpos hlen
    exact ⟨fun hw => by have := hcur hw; omega, fun hw => by have := hend hw; omega⟩
  · rintro ⟨hcur, hend⟩
    have hself : wrap64 (0 + offset) = offset := by rw [Nat.zero_add, wrap64_of_lt hoff]
    split
    · rename_i hw
      rw [hw]
      exact .set
    split
    · rename_i hw
      rw [hw, hcur hw, hself]
      exact .cur hself
    split
    · rename_i hw
      have hzero := hend hw
      rw [hw, hzero, hself]
      exact .atEnd hself
    · exact .other ‹_› ‹_› ‹_›

theorem fileBytes_zero (byte : Nat → UInt8) (pos : Nat) : fileBytes byte pos 0 = [] := rfl

theorem vfsSeek_onExt2 (h : fd.OnExt2 fs inode) {offset : Nat} (whence : Int)
    (hoff : offset < word) : (vfsSeek fd offset whence).2.OnExt2 fs inode := by
  refine ⟨by rw [vfsSeek_fOps, h.fOps_eq, vfsSeek_length],
    by rw [vfsSeek_length]; exact h.length_lt, ?_⟩
  rw [vfsSeek_fpos]
  split
  · exact hoff
  split
  · exact wrap64_lt _
  split
  · exact wrap64_lt _
  · exact h.fpos_lt

/-- A call that keeps the position returns, and it obeys the law, whatever the file is. -/
theorem request_keeps (byte : Nat → UInt8) {r : FdRequest} (h : s.fd.OnExt2 fs inode)
    (hon : r.On s.fd) (hrange : ReadsInRange s.fd r) (hkeep : KeepsPosition debug current s r) :
    ∃ c s', fdRequest debug current s r = .ret (c, s') ∧
      PosStep byte s.fd.length s.fd.fpos c s'.fd.fpos ∧ s'.fd.OnExt2 fs inode ∧
      s'.fd.length = s.fd.length := by
  cases r with
  | read left buffer len =>
      obtain ⟨hpos, hsum⟩ := hrange
      have hnone : min len (s.fd.length - s.fd.fpos) = 0 := by
        rw [KeepsPosition] at hkeep
        omega
      have hread : vfsRead s.fd left buffer len = .ret ⟨0, buffer, 0⟩ := by
        rw [vfsRead, h.fOps_eq]
        exact ext2FRead_nothing left buffer h.length_lt hpos hsum hkeep
      refine ⟨_, s, by rw [fdRequest, hread]; rfl, ?_, h, rfl⟩
      exact (read_iff hnone rfl (fileBytes_zero byte _).symm).mpr rfl
  | sysRead fdList left ram num buffer len =>
      obtain ⟨k, hfd⟩ := hon
      rw [sysRead_open left ram buffer len hfd (by rw [h.fOps_eq]; rfl)]
      rcases Bool.eq_false_or_eq_true (sysBufferRangeCheck buffer len) with hcheck | hcheck
      · rw [if_pos hcheck]
        exact ⟨_, s, rfl, .rejected hcheck, h, rfl⟩
      · have hnot : ¬ sysBufferRangeCheck buffer len = true := by
          rw [hcheck]
          nofun
        obtain ⟨hno, hmutex⟩ := hkeep.resolve_left hnot
        obtain ⟨hpos, hsum⟩ := hrange.resolve_left hnot
        have hnone : min len (s.fd.length - s.fd.fpos) = 0 := by omega
        rw [if_neg hnot, ext2FRead_nothing left _ h.length_lt hpos hsum hno, Outcome.ret_bind,
          mutexUnlock_eq_of_unlockable hmutex]
        refine ⟨_, _, rfl, ?_, h, rfl⟩
        exact (sysRead_iff hnone rfl (fileBytes_zero byte _).symm hcheck).mpr rfl
  | seek offset whence =>
      exact ⟨_, _, rfl, (seek_iff h.length_lt h.fpos_lt hon).mpr hkeep, vfsSeek_onExt2 h whence hon,
        vfsSeek_length _ _ _⟩

/-- **One call returns and obeys the law** exactly if it keeps the position, where reads are
in range and the device works. -/
theorem posStep_iff {r : FdRequest} (h : s.fd.Of f) (hon : r.On s.fd)
    (hrange : ReadsInRange s.fd r) :
    (∃ c s', fdRequest debug current s r = .ret (c, s') ∧
      PosStep f.byte f.length s.fd.fpos c s'.fd.fpos) ↔ KeepsPosition debug current s r := by
  constructor
  · rintro ⟨c, s', hret, hlaw⟩
    cases r with
    | read left buffer len =>
        obtain ⟨hpos, hsum⟩ := hrange
        obtain ⟨r, hr, hn, hdata⟩ := h.read hpos hsum left buffer
        have hread : vfsRead s.fd left buffer len = .ret r := by
          rw [vfsRead, h.fOps_eq]
          exact hr
        rw [fdRequest, hread] at hret
        cases hret
        have hnone := (read_iff rfl hn hdata).mp hlaw
        rw [KeepsPosition]
        rw [h.length_eq] at *
        omega
    | sysRead fdList left ram num buffer len =>
        obtain ⟨k, hfd⟩ := hon
        rw [sysRead_open left ram buffer len hfd (by rw [h.fOps_eq]; rfl)] at hret
        rcases Bool.eq_false_or_eq_true (sysBufferRangeCheck buffer len) with hcheck | hcheck
        · exact .inl hcheck
        · have hnot : ¬ sysBufferRangeCheck buffer len = true := by
            rw [hcheck]
            nofun
          obtain ⟨hpos, hsum⟩ := hrange.resolve_left hnot
          obtain ⟨r, hr, hn, hdata⟩ := h.read hpos hsum left (bytesAt ram buffer)
          rw [if_neg hnot, hr, Outcome.ret_bind] at hret
          obtain ⟨mem, hunlock, hret⟩ := Outcome.bind_eq_ret.mp hret
          cases hret
          have hnone := (sysRead_iff rfl hn hdata hcheck).mp hlaw
          refine .inr ⟨?_, unlockable_of_mutexUnlock hunlock⟩
          rw [h.length_eq] at *
          omega
    | seek offset whence =>
        cases hret
        rw [← h.length_eq] at hlaw
        exact (seek_iff h.onExt2.length_lt h.fpos_lt hon).mp hlaw
  · intro hkeep
    obtain ⟨c, s', hret, hlaw, -, -⟩ := request_keeps f.byte h.onExt2 hon hrange hkeep
    rw [h.length_eq] at hlaw
    exact ⟨c, s', hret, hlaw⟩

/-- In the debug build `sys_read` of an open descriptor does not return unless `fdmod` reads as
a mutex. -/
theorem sysRead_panics {fdList : List (Nat × Fd)} {num : Int} {k buffer len : Nat}
    (left ram : Mem) (h : s.fd.Of f) (hfd : (procGetFd fdList num).1 = some (k, s.fd))
    (hcheck : sysBufferRangeCheck buffer len = false) (hpos : s.fd.fpos ≤ s.fd.length)
    (hsum : s.fd.fpos + len < word) (hmagic : load s.mem (s.fdmod + 8) 8 ≠ mutexMagic) :
    fdRequest true current s (.sysRead fdList left ram num buffer len) =
      .panic "mutex_t uninitialized or corrupt" := by
  obtain ⟨r, hr, -, -⟩ := h.read hpos hsum left (bytesAt ram buffer)
  rw [sysRead_open left ram buffer len hfd (by rw [h.fOps_eq]; rfl), if_neg (by rw [hcheck]; nofun),
    hr, Outcome.ret_bind, mutexUnlock, if_pos ⟨rfl, hmagic⟩]
  rfl

/-! ## The law, for every run -/

/-- Every call keeps the position of the descriptor that it finds. -/
def KeptThroughout (debug : Bool) (current : Nat) : OpenFd → List FdRequest → Prop
  | _, [] => True
  | s, r :: rs => (r.On s.fd ∧ ReadsInRange s.fd r ∧ KeepsPosition debug current s r) ∧
      ∀ c s', fdRequest debug current s r = .ret (c, s') → KeptThroughout debug current s' rs

/-- **The file position law.**  If every read of a sequence of calls is in range and has
nothing to deliver, every `sys_read` finds a mutex that it can give back, and every seek goes
to the position that is its argument, then all calls return, and they are a run of the machine
whose state is the position.  Reads in a row deliver the bytes from the position before to the
position after. -/
theorem file_position (byte : Nat → UInt8) {rs : List FdRequest} (h : s.fd.OnExt2 fs inode)
    (hkept : KeptThroughout debug current s rs) :
    ∃ calls s', fdRequests debug current s rs = .ret (calls, s') ∧
      Run (PosStep byte s.fd.length) s.fd.fpos calls s'.fd.fpos ∧
      ((∀ c ∈ calls, c.IsRead) → ∃ n, s'.fd.fpos = s.fd.fpos + n ∧
        calls.flatMap FdCall.data = fileBytes byte s.fd.fpos n) := by
  suffices hrun : ∃ calls s', fdRequests debug current s rs = .ret (calls, s') ∧
      Run (PosStep byte s.fd.length) s.fd.fpos calls s'.fd.fpos by
    obtain ⟨calls, s', hret, hrun⟩ := hrun
    exact ⟨calls, s', hret, hrun, reads_consecutive hrun⟩
  induction rs generalizing s with
  | nil => exact ⟨[], s, rfl, .nil⟩
  | cons r rs ih =>
      obtain ⟨⟨hon, hrange, hkeep⟩, hrest⟩ := hkept
      obtain ⟨c, s', hret, hlaw, h', hlen⟩ := request_keeps byte h hon hrange hkeep
      obtain ⟨calls, s'', hrets, hrun⟩ := ih h' (hrest c s' hret)
      rw [hlen] at hrun
      refine ⟨c :: calls, s'', ?_, .cons hlaw hrun⟩
      simp only [fdRequests, hret, hrets, Outcome.ret_bind]

/-- A file of 1000 bytes. -/
def thousandBytes : Ext2File where
  fs := Ext2.smallFs
  inode := Ext2.smallInode
  length := 1000
  disk := Ext2.smallDisk
  sectors := 64
  small := by decide
  delivers := fun _ _ _ => ⟨rfl, fun _ _ => rfl⟩
  allocated :=
    { data := fun i hi h => by
        have hbs : Ext2.smallFs.blockSize = 1024 := rfl
        rw [hbs] at h
        obtain rfl : i = 0 := by omega
        decide
      indirect := fun h => absurd h (by decide) }
  indirect := by decide

theorem Ext2File.openFd_of (f : Ext2File) : f.openFd.Of f := ⟨rfl, rfl, (by decide : 0 < word)⟩

/-- The file is open, and the memory of the descriptor was zero. -/
def openThousand : OpenFd := ⟨thousandBytes.openFd, 40, fun _ => 0⟩

theorem unlockable_zeros (mtx current : Nat) : Unlockable false (fun _ => 0) mtx current where
  spin := load_zero fun _ _ _ => rfl
  empty := load_zero fun _ _ _ => rfl
  magic := nofun
  locked := nofun
  held := nofun
  spinMagic := nofun
  listMagic := nofun

/-- A seek to the end of a file, and two reads there. -/
theorem file_position_at_end : ∃ calls s',
    fdRequests false 1 openThousand
      [.seek 1000 seekSet, .read (fun _ => 0) (fun _ => 0) 10,
        .sysRead [(3, { thousandBytes.openFd with fpos := 1000 })] (fun _ => 0) (fun _ => 0) 3
          0x400000 10] = .ret (calls, s') ∧
    Run (PosStep thousandBytes.byte 1000) 0 calls s'.fd.fpos := by
  have hkept : KeptThroughout false 1 openThousand [.seek 1000 seekSet,
      .read (fun _ => 0) (fun _ => 0) 10, .sysRead [(3, { thousandBytes.openFd with fpos := 1000 })]
        (fun _ => 0) (fun _ => 0) 3 0x400000 10] := by
    refine ⟨⟨show 1000 < word by decide, trivial, nofun, nofun⟩, fun c s1 h1 => ?_⟩
    cases h1
    refine ⟨⟨trivial, ⟨by decide, by decide⟩, .inr rfl⟩, fun c2 s2 h2 => ?_⟩
    obtain ⟨r, -, h2⟩ := Outcome.bind_eq_ret.mp h2
    cases h2
    exact ⟨⟨⟨3, rfl⟩, .inr ⟨by decide, by decide⟩, .inr ⟨.inr rfl, unlockable_zeros 40 1⟩⟩,
      fun _ _ _ => trivial⟩
  obtain ⟨calls, s', hret, hrun, -⟩ :=
    file_position thousandBytes.byte thousandBytes.openFd_of.onExt2 hkept
  exact ⟨calls, s', hret, hrun⟩

/-- Two reads of a byte leave the position where it was. -/
theorem position_stays : ¬ ∀ (f : Ext2File) (debug : Bool) (current fdmod : Nat) (mem : Mem)
    (rs : List FdRequest) (calls : List FdCall) (s' : OpenFd),
    fdRequests debug current ⟨f.openFd, fdmod, mem⟩ rs = .ret (calls, s') →
    Run (PosStep f.byte f.length) 0 calls s'.fd.fpos := by
  intro hlaw
  obtain ⟨r, hr, -, -⟩ := thousandBytes.openFd_of.read (show 0 ≤ 1000 by decide)
    (show 0 + 1 < word by decide) (fun _ => 0) (fun _ => 0)
  have hread : fdRequest false 1 openThousand (.read (fun _ => 0) (fun _ => 0) 1) =
      .ret (.read 1 r.ret r.data, openThousand) := by
    rw [fdRequest, vfsRead, show openThousand.fd.fOps.read = some _ from rfl]
    exact congrArg (· >>= _) hr
  have htwice : fdRequests false 1 openThousand
      [.read (fun _ => 0) (fun _ => 0) 1, .read (fun _ => 0) (fun _ => 0) 1] =
      .ret ([.read 1 r.ret r.data, .read 1 r.ret r.data], openThousand) := by
    simp only [fdRequests, hread, Outcome.ret_bind]
  have hrun := hlaw thousandBytes false 1 40 (fun _ => 0) _ _ _ htwice
  cases hrun with
  | cons h1 hrest =>
      cases hrest with
      | cons h2 hnil =>
          have hpos := h2.of_read
          rw [h1.of_read] at hpos
          cases hnil
          exact absurd hpos (by decide)

end UlmerOS
