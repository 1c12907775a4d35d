import Mathlib.Logic.Relation
import UlmerOS.Fs.Ext2Read

/-!
# How much a read stores

`ext2_read` truncates the length it is given before the loop.  Both the sum it compares with the
length of the file and the difference it stores are of `size_t`, so what the loop goes on to is
`truncated`, and that is no more than what was asked for as long as the offset is in the file
(`truncated_le`).  Behind the end of the file it is the distance from the offset around the word to
the end, or all that was asked for, and never nothing (`truncated_pos`).

A read can end in a failed `kpanic` after it has stored something.  So the bound is one on the
states between the rounds (`Reached`), whether or not the read returns.
-/

namespace UlmerOS.Ext2

open ByteMem Relation

/-! ## The length that is left -/

/-- The length after the truncation. -/
def truncated (length len offset : Nat) : Nat :=
  if length < wrap64 (offset + len) then wrap64 (length + word - offset) else len

theorem ext2Read_eq (fs : Ext2Fs) (inode : Inode) (length : Nat) (left buffer : Mem)
    (len offset : Nat) : ext2Read fs inode length left buffer len offset =
      (ext2ReadLoop fs inode offset (truncated length len offset)
        (truncated length len offset + 1) ⟨0, left, buffer⟩).bind fun (ok, st) =>
          .ret (if ok then .bytes st.bytesRead else .eio, st.buffer) := rfl

section

variable {length len offset : Nat}

theorem truncated_lt (length offset : Nat) (hlen : len < word) :
    truncated length len offset < word := by
  unfold truncated
  split
  · exact wrap64_lt _
  · exact hlen

/-- In the file, no more is read than what was asked for. -/
theorem truncated_le (hlength : length < word) (hlen : len < word) (h : offset < length) :
    truncated length len offset ≤ len := by
  unfold truncated
  split
  next hlt =>
    simp only [wrap64, word] at *
    omega
  next => exact le_rfl

/-- At the end of the file, nothing is read, unless the sum wraps. -/
theorem truncated_end (h : offset + len < word) : truncated offset len offset = 0 := by
  rw [truncated, wrap64_of_lt h]
  split
  next =>
    simp only [wrap64, word] at *
    omega
  next hle => omega

/-- At the end of the file with a sum that wraps, and behind the end, something is read. -/
theorem truncated_pos (hlen : len < word) (hoffset : offset < word)
    (h : length < offset ∨ offset = length ∧ word ≤ offset + len) :
    0 < truncated length len offset := by
  unfold truncated
  split
  next hlt =>
    simp only [wrap64, word] at *
    omega
  next hle =>
    simp only [wrap64, word] at *
    omega

end

/-! ## Rounds -/

/-- A round of the loop that reads its block. -/
def Round (fs : Ext2Fs) (inode : Inode) (offset len : Nat) (st st' : ReadState) : Prop :=
  st.bytesRead < len ∧ ext2ReadBlock fs inode offset len st = .ret (true, st')

/-- The states between the rounds of a read. -/
def Reached (fs : Ext2Fs) (inode : Inode) (length : Nat) (left buffer : Mem) (len offset : Nat) :
    ReadState → Prop :=
  ReflTransGen (Round fs inode offset (truncated length len offset)) ⟨0, left, buffer⟩

/-- What a read stores is in the caller's buffer, and at the end of the file it returns 0. -/
structure BoundedRead (fs : Ext2Fs) (inode : Inode) (length : Nat) (left buffer : Mem)
    (len offset : Nat) : Prop where
  stored : ∀ st, Reached fs inode length left buffer len offset st →
    st.bytesRead ≤ len ∧ ∀ i, len ≤ i → st.buffer i = buffer i
  atEnd : length ≤ offset →
    ∃ buffer', ext2Read fs inode length left buffer len offset = .ret (.bytes 0, buffer')

section

variable {fs : Ext2Fs} {inode : Inode} {offset n : Nat}

/-- What a round does.  With a device error it only touches the block buffer; else its block is
behind the pointers there are, and it copies from it. -/
theorem ext2ReadBlock_inv (hbs : fs.blockSize < 2 ^ 31) {st st' : ReadState} {ok : Bool}
    (h : ext2ReadBlock fs inode offset n st = .ret (ok, st')) :
    ∃ m, ok = false ∧ st' = { st with blockBuffer := m } ∨
      ok = true ∧ wrap64 (offset + st.bytesRead) / fs.blockSize < 12 + fs.blockSize / 4 ∧
        st' = ⟨wrap64 (st.bytesRead + (copySize fs.blockSize offset n st.bytesRead).2), m,
          memcpyFrom st.buffer m st.bytesRead (copySize fs.blockSize offset n st.bytesRead).1
            (copySize fs.blockSize offset n st.bytesRead).2⟩ := by
  obtain ⟨⟨blockNo, bb⟩, hfile, h⟩ := Outcome.bind_eq_ret.mp h
  simp only at h
  cases hok : (ext2GetBlock fs bb (wrap64 (blockNo * fs.blockSize) / 512)
    (fs.blockSize / 512)).1 with
  | false =>
      rw [if_pos hok] at h
      cases h
      exact ⟨_, .inl ⟨rfl, rfl⟩⟩
  | true =>
      rw [if_neg (by rw [hok]; decide)] at h
      cases h
      refine ⟨_, .inr ⟨rfl, ?_, rfl⟩⟩
      rcases ext2GetFileBlock_cases hbs inode st.blockBuffer
        (wrap64 (offset + st.bytesRead) / fs.blockSize) with hpanic | ⟨hlimit, -⟩
      · rw [hpanic] at hfile
        cases hfile
      · exact hlimit

/-- A loop that returns has stored what some state between its rounds has stored, and that is
all there is to read unless there is an error. -/
theorem reached_of_loop (hbs : fs.blockSize < 2 ^ 31) (fuel : Nat) {st st' : ReadState}
    {ok : Bool} (h : ext2ReadLoop fs inode offset n fuel st = .ret (ok, st')) :
    ∃ last, ReflTransGen (Round fs inode offset n) st last ∧
      st'.bytesRead = last.bytesRead ∧ st'.buffer = last.buffer ∧
      (ok = true → n ≤ st'.bytesRead) := by
  induction fuel generalizing st with
  | zero => cases h
  | succ fuel ih =>
      rw [ext2ReadLoop] at h
      split at h
      next hlt =>
        obtain ⟨⟨go, st₁⟩, hround, h⟩ := Outcome.bind_eq_ret.mp h
        cases go with
        | true =>
            obtain ⟨last, hreach, hlast⟩ := ih h
            exact ⟨last, .head ⟨hlt, hround⟩ hreach, hlast⟩
        | false =>
            cases h
            obtain ⟨m, ⟨-, rfl⟩ | ⟨hok, -⟩⟩ := ext2ReadBlock_inv hbs hround
            · exact ⟨_, .refl, rfl, rfl, fun hok => absurd hok Bool.false_ne_true⟩
            · cases hok
      next hge =>
        cases h
        exact ⟨_, .refl, rfl, rfl, fun _ => Nat.not_lt.mp hge⟩

/-- A round stores what it reads before the end, and right behind what is there. -/
theorem Round.stored (hbs : fs.blockSize < 2 ^ 31) (hn : n < word) {st st' : ReadState}
    (h : Round fs inode offset n st st') (hpos : offset + st.bytesRead < word) :
    st'.bytesRead ≤ n ∧ offset + st'.bytesRead < word ∧
      ∀ i, n ≤ i → st'.buffer i = st.buffer i := by
  obtain ⟨hlt, hround⟩ := h
  have hbpos := fs.blockSize_pos
  obtain ⟨m, ⟨hok, -⟩ | ⟨-, hlimit, rfl⟩⟩ := ext2ReadBlock_inv hbs hround
  · cases hok
  · rw [wrap64_of_lt hpos] at hlimit
    have hreach : offset + st.bytesRead < 2 ^ 62 :=
      Nat.lt_trans ((Nat.div_lt_iff_lt_mul hbpos).mp hlimit) (singleIndirect_lt hbs)
    obtain ⟨-, hend, hcopy⟩ := copySize_bounds offset hbpos hlt hn
      (show st.bytesRead + fs.blockSize < word by unfold word; omega)
    simp only [wrap64_of_lt (Nat.lt_of_le_of_lt hend hn)]
    refine ⟨hend, by unfold word; omega, fun i hi => ?_⟩
    rw [memcpyFrom, if_neg (by omega)]

/-- However many rounds there were, they have stored no more than the loop was to read. -/
theorem stored_of_rounds (hbs : fs.blockSize < 2 ^ 31) (hn : n < word) {st st' : ReadState}
    (h : ReflTransGen (Round fs inode offset n) st st') (hle : st.bytesRead ≤ n)
    (hpos : offset + st.bytesRead < word) :
    st'.bytesRead ≤ n ∧ offset + st'.bytesRead < word ∧
      ∀ i, n ≤ i → st'.buffer i = st.buffer i := by
  induction h with
  | refl => exact ⟨hle, hpos, fun _ _ => rfl⟩
  | tail _ hround ih =>
      obtain ⟨-, hpos₁, hframe⟩ := ih
      obtain ⟨hle', hpos', hframe'⟩ := hround.stored hbs hn hpos₁
      exact ⟨hle', hpos', fun i hi => (hframe' i hi).trans (hframe i hi)⟩

end

/-! ## The read -/

section

variable {fs : Ext2Fs} {inode : Inode} {length len offset : Nat} {left buffer : Mem}

/-- With nothing to read, there is no round. -/
theorem ext2Read_nothing (h : truncated length len offset = 0) :
    ext2Read fs inode length left buffer len offset = .ret (.bytes 0, buffer) := by
  rw [ext2Read_eq, h]
  rfl

/-- A read that returns a number has read all there is. -/
theorem truncated_le_bytes (hbs : fs.blockSize < 2 ^ 31) {bytes : Nat} {buffer' : Mem}
    (h : ext2Read fs inode length left buffer len offset = .ret (.bytes bytes, buffer')) :
    truncated length len offset ≤ bytes := by
  rw [ext2Read_eq] at h
  obtain ⟨⟨ok, st⟩, hloop, h⟩ := Outcome.bind_eq_ret.mp h
  obtain ⟨-, -, -, -, hall⟩ := reached_of_loop hbs _ hloop
  cases ok with
  | false => cases h
  | true =>
      cases h
      exact hall rfl

/-- A read stores nothing behind the caller's buffer and returns 0 at the end of the file, if
and only if its offset is in the file, or at the end and the sum does not wrap. -/
theorem ext2_read_bounded (hbs : fs.blockSize < 2 ^ 31) (inode : Inode) (left buffer : Mem)
    (hlength : length < word) (hlen : len < word) (hoffset : offset < word) :
    BoundedRead fs inode length left buffer len offset ↔
      offset < length ∨ offset = length ∧ offset + len < word := by
  constructor
  · intro h
    by_contra hout
    have hpos : 0 < truncated length len offset := truncated_pos hlen hoffset (by omega)
    obtain ⟨buffer', hret⟩ := h.atEnd (by omega)
    exact absurd (truncated_le_bytes hbs hret) (by omega)
  · rintro (hin | ⟨rfl, hsum⟩)
    · have hle := truncated_le hlength hlen hin
      refine ⟨fun st hst => ?_, fun hend => absurd hin (by omega)⟩
      obtain ⟨hstored, -, hframe⟩ := stored_of_rounds hbs (truncated_lt length offset hlen) hst
        (Nat.zero_le _) hoffset
      exact ⟨by omega, fun i hi => hframe i (by omega)⟩
    · have hnone := truncated_end hsum
      refine ⟨fun st hst => ?_, fun _ => ⟨buffer, ext2Read_nothing hnone⟩⟩
      obtain ⟨hstored, -, hframe⟩ := stored_of_rounds hbs (truncated_lt offset offset hlen) hst
        (Nat.zero_le _) hoffset
      exact ⟨by omega, fun i hi => hframe i (by omega)⟩

/-- A read of 100 bytes at the second of two bytes, and one at the end. -/
theorem ext2_read_bounded_small :
    BoundedRead smallFs smallInode 2 (fun _ => 0) (fun _ => 0) 100 1 ∧
      BoundedRead smallFs smallInode 2 (fun _ => 0) (fun _ => 0) 100 2 := by
  have hbounded : ∀ offset < word, offset < 2 ∨ offset = 2 ∧ offset + 100 < word →
      BoundedRead smallFs smallInode 2 (fun _ => 0) (fun _ => 0) 100 offset := fun _ hoffset =>
    (ext2_read_bounded (by decide) smallInode (fun _ => 0) (fun _ => 0) (by decide) (by decide)
      hoffset).mpr
  have hend : 2 + 100 < word := by decide
  exact ⟨hbounded 1 (by decide) (.inl (by decide)), hbounded 2 (by decide) (.inr ⟨rfl, hend⟩)⟩

/-- A read of five bytes behind a file of ten stores the rest of a block. -/
theorem read_behind_end : ¬ ∀ (fs : Ext2Fs) (inode : Inode) (left buffer : Mem)
    (length len offset : Nat), fs.blockSize < 2 ^ 31 → length < word → len < word →
    offset < word → BoundedRead fs inode length left buffer len offset := by
  intro h
  have hbound := (h smallFs smallInode (fun _ => 0) (fun _ => 0) 10 5 20 (by decide) (by decide)
    (by decide) (by decide)).stored
  have hlen : truncated 10 5 20 = word - 10 := by decide
  have hcopy : copySize 1024 20 (word - 10) 0 = (20, 1004) := by decide
  obtain ⟨m, b, hround⟩ : ∃ m b, ext2ReadBlock smallFs smallInode 20 (truncated 10 5 20)
      ⟨0, fun _ => 0, fun _ => 0⟩ = .ret (true, ⟨1004, m, b⟩) := by
    unfold ext2ReadBlock
    rw [hlen, show smallFs.blockSize = 1024 from rfl, hcopy]
    exact ⟨_, _, rfl⟩
  exact absurd (hbound _ (.single ⟨by decide, hround⟩)).1 (by decide : ¬ 1004 ≤ 5)

end

end UlmerOS.Ext2
