import UlmerOS.Base
import UlmerOS.Util.Bitmap
import Mathlib.Order.Bounds.Basic
import Mathlib.Order.Nat

/-!
# What the bitmap searches return

`bitmap_find_n_free` and `bitmap_find_free` of `libutil/bitmap.c`, with the `size_t` that
they return.  They look at whole bytes, so that what the bits past `size` are matters.

Where these bits are set, `bitmap_find_n_free` returns the first run that starts at a
multiple of its length (`bitmapFindNFree_least`).  `bitmap_init` gives every byte the same
value, and the bits past `size` keep what it put there, so that `bitmap_find_free` may
return one of them if no bit below `size` is clear (`bitmapFindFree_iff`).
-/

namespace UlmerOS

variable {bmp : Bitmap} {n : Nat}

/-- The bits of a bitmap in whole bytes are those below its size and fewer than eight more. -/
theorem bitmapByteSize_bounds (size : Nat) :
    size ≤ 8 * bitmapByteSize size ∧ 8 * bitmapByteSize size < size + 8 := by
  rw [bitmapByteSize, Nat.shiftRight_eq_div_pow]
  split
  · omega
  · omega

/-- A bit past `size` in the last byte. -/
theorem padding_iff {size j : Nat} : size ≤ j ∧ j < 8 * bitmapByteSize size ↔
    size % 8 ≠ 0 ∧ j / 8 = size / 8 ∧ size % 8 ≤ j % 8 := by
  rw [bitmapByteSize, Nat.shiftRight_eq_div_pow]
  split
  · omega
  · omega

/-- What a search returns as a `size_t`. -/
def searchRet (found : Option Nat) : Nat := found.getD minusOne

/-! ## Runs of clear bits -/

/-- The bits past the size are set. -/
structure PaddingSet (bmp : Bitmap) : Prop where
  length_eq : bmp.bytes.length = bitmapByteSize bmp.size
  size_lt : bmp.size < word
  padding : ∀ j, bmp.size ≤ j → j < 8 * bitmapByteSize bmp.size → bitmapGet bmp j = true

/-- `n` clear bits from a multiple of `n` on. -/
structure FreeRun (bmp : Bitmap) (n s : Nat) : Prop where
  dvd : n ∣ s
  le : s + n ≤ bmp.size
  clear : ∀ j, s ≤ j → j < s + n → bitmapGet bmp j = false

/-- A run of clear bits of whole bytes has no bit past the size. -/
theorem PaddingSet.freeRun_iff (h : PaddingSet bmp) (hn : 0 < n) {s : Nat} :
    FreeRun bmp n s ↔ s % n = 0 ∧ s + n ≤ 8 * bitmapByteSize bmp.size ∧
      ∀ j, s ≤ j → j < s + n → bitmapGet bmp j = false := by
  constructor
  · intro hrun
    have hle := (bitmapByteSize_bounds bmp.size).1
    exact ⟨Nat.mod_eq_zero_of_dvd hrun.dvd, hrun.le.trans hle, hrun.clear⟩
  · rintro ⟨hmod, hle, hclear⟩
    refine ⟨Nat.dvd_of_mod_eq_zero hmod, ?_, hclear⟩
    -- its last bit would be set
    by_contra hsize
    have hset := h.padding (s + n - 1) (by omega) (by omega)
    rw [hclear (s + n - 1) (by omega) (by omega)] at hset
    cases hset

/-- The first run, or nothing where there is none. -/
theorem PaddingSet.findNFree (h : PaddingSet bmp) (hn : 0 < n) :
    (∃ s, bitmapFindNFree bmp n = some s ∧ IsLeast {s | FreeRun bmp n s} s) ∨
      bitmapFindNFree bmp n = none ∧ ∀ s, ¬ FreeRun bmp n s := by
  rcases bitmapFindNFree_spec bmp hn with ⟨s, hs, hfound⟩ | ⟨hnone, hall⟩
  · refine .inl ⟨s, hs, (h.freeRun_iff hn).mpr ⟨hfound.aligned, hfound.le, hfound.clear⟩, ?_⟩
    intro c hc
    by_contra hlt
    obtain ⟨j, hj, hjn, hset⟩ :=
      hfound.least c (Nat.mod_eq_zero_of_dvd hc.dvd) (Nat.not_le.mp hlt)
    rw [hc.clear j hj hjn] at hset
    cases hset
  · refine .inr ⟨hnone, fun s hs => ?_⟩
    obtain ⟨hmod, hle, hclear⟩ := (h.freeRun_iff hn).mp hs
    obtain ⟨j, hj, hjn, hset⟩ := hall s hmod hle
    rw [hclear j hj hjn] at hset
    cases hset

/-- `bitmap_find_n_free` returns the first run of `n` clear bits that starts at a multiple of `n`,
and `(size_t)-1` exactly if there is none. -/
theorem bitmapFindNFree_least (hpad : PaddingSet bmp) (hn : 0 < n) :
    ((∃ s, FreeRun bmp n s) →
      IsLeast {s | FreeRun bmp n s} (searchRet (bitmapFindNFree bmp n))) ∧
    (searchRet (bitmapFindNFree bmp n) = minusOne ↔ ¬ ∃ s, FreeRun bmp n s) := by
  rcases hpad.findNFree hn with ⟨s, hs, hleast⟩ | ⟨hnone, hno⟩
  · rw [hs, searchRet, Option.getD_some]
    refine ⟨fun _ => hleast, iff_of_false ?_ (not_not.mpr ⟨s, hleast.1⟩)⟩
    have hle := hleast.1.le
    have hlt := hpad.size_lt
    rw [minusOne]
    omega
  · rw [hnone, searchRet, Option.getD_none]
    have hnot : ¬ ∃ s, FreeRun bmp n s := fun ⟨s, hs⟩ => hno s hs
    exact ⟨fun hex => absurd hex hnot, iff_of_true rfl hnot⟩

/-- Twelve bits, of which the last four are clear. -/
theorem bitmapFindNFree_least_twelve :
    IsLeast {s | FreeRun ⟨12, [0xff, 0xf0]⟩ 4 s} 8 := by
  have hpad : PaddingSet ⟨12, [0xff, 0xf0]⟩ := by
    refine ⟨rfl, by decide, ?_⟩
    have hall : ∀ j < 16, 12 ≤ j → bitmapGet ⟨12, [0xff, 0xf0]⟩ j = true := by decide
    exact fun j hj hlt => hall j hlt hj
  have hclear : ∀ j < 12, 8 ≤ j → bitmapGet ⟨12, [0xff, 0xf0]⟩ j = false := by decide
  exact (bitmapFindNFree_least hpad (n := 4) (by decide)).1
    ⟨8, by decide, by decide, fun j hj hlt => hclear j hlt hj⟩

/-! ## The first clear bit -/

/-- `bitmap_init`. -/
def bitmapInit (size : Nat) (value : Int) : Bitmap :=
  { size := size, bytes := List.replicate (bitmapByteSize size) (UInt8.ofInt value) }

/-- A call that changes a bit. -/
inductive BitCall where
  | set (index : Nat)
  | clr (index : Nat)

/-- The bit that a call changes. -/
def BitCall.index : BitCall → Nat
  | .set index => index
  | .clr index => index

/-- What a call does. -/
def bitCall (bmp : Bitmap) : BitCall → Bitmap
  | .set index => bitmapSet bmp index
  | .clr index => bitmapClr bmp index

/-- A clear bit below the size. -/
def FreeBit (bmp : Bitmap) (i : Nat) : Prop := i < bmp.size ∧ bitmapGet bmp i = false

/-- What is returned is the first clear bit below the size, and `(size_t)-1` exactly if there is
none. -/
def FindsFirst (bmp : Bitmap) (ret : Nat) : Prop :=
  ((∃ i, FreeBit bmp i) → IsLeast {i | FreeBit bmp i} ret) ∧
    (ret = minusOne ↔ ¬ ∃ i, FreeBit bmp i)

/-- The bits past the size are those of the byte that the bitmap was filled with. -/
structure PaddingFilled (value : Int) (bmp : Bitmap) : Prop where
  length_eq : bmp.bytes.length = bitmapByteSize bmp.size
  padding : ∀ j, bmp.size ≤ j → j < 8 * bitmapByteSize bmp.size →
    bitmapGet bmp j = byteBit (UInt8.ofInt value) (j % 8)

theorem paddingFilled_init (size : Nat) (value : Int) :
    PaddingFilled value (bitmapInit size value) := by
  refine ⟨List.length_replicate, fun j _ hlt => ?_⟩
  have hbyte : j / 8 < bitmapByteSize size := Nat.div_lt_of_lt_mul hlt
  rw [bitmapGet, bitmapInit, List.getD_eq_getElem?_getD, List.getElem?_replicate, if_pos hbyte,
    Option.getD_some]

/-- A call with an index below the size keeps the bits past it. -/
theorem PaddingFilled.bitCall {value : Int} (h : PaddingFilled value bmp) {call : BitCall}
    (hindex : call.index < bmp.size) :
    PaddingFilled value (bitCall bmp call) ∧ (bitCall bmp call).size = bmp.size := by
  have hbyte : ∀ index < bmp.size, index / 8 < bmp.bytes.length := by
    intro index hlt
    rw [h.length_eq]
    have := (bitmapByteSize_bounds bmp.size).1
    omega
  cases call with
  | set index =>
      refine ⟨⟨(List.length_modify ..).trans h.length_eq, fun j hj hlt => ?_⟩, rfl⟩
      have hne : j ≠ index := Nat.ne_of_gt (Nat.lt_of_lt_of_le hindex hj)
      rw [UlmerOS.bitCall, bitmapGet_set (hbyte index hindex), decide_eq_false hne, Bool.or_false]
      exact h.padding j hj hlt
  | clr index =>
      refine ⟨⟨(List.length_modify ..).trans h.length_eq, fun j hj hlt => ?_⟩, rfl⟩
      have hne : j ≠ index := Nat.ne_of_gt (Nat.lt_of_lt_of_le hindex hj)
      rw [UlmerOS.bitCall, bitmapGet_clr (hbyte index hindex), decide_eq_false hne, Bool.not_false,
        Bool.and_true]
      exact h.padding j hj hlt

/-- The same for a sequence of calls. -/
theorem PaddingFilled.bitCalls {value : Int} {calls : List BitCall} (h : PaddingFilled value bmp)
    (hindex : ∀ call ∈ calls, call.index < bmp.size) :
    PaddingFilled value (calls.foldl UlmerOS.bitCall bmp) ∧
      (calls.foldl UlmerOS.bitCall bmp).size = bmp.size := by
  induction calls generalizing bmp with
  | nil => exact ⟨h, rfl⟩
  | cons call calls ih =>
      obtain ⟨hfilled, hsize⟩ := h.bitCall (hindex call List.mem_cons_self)
      obtain ⟨hrest, hsame⟩ := ih hfilled fun c hc => by
        rw [hsize]
        exact hindex c (List.mem_cons_of_mem call hc)
      exact ⟨hrest, hsame.trans hsize⟩

/-- A clear bit below the size is found before those past it. -/
theorem findsFirst_of_free (hlen : bmp.bytes.length = bitmapByteSize bmp.size)
    (hsize : bmp.size < word) (hfree : ∃ i, FreeBit bmp i) :
    FindsFirst bmp (searchRet (bitmapFindFree bmp)) := by
  obtain ⟨i, hi, hclear⟩ := hfree
  have hbound := (bitmapByteSize_bounds bmp.size).1
  cases hfind : bitmapFindFree bmp with
  | none =>
      have hset := bitmapFindFree_none hfind (j := i) (by rw [hlen]; omega) (by omega)
      rw [hclear] at hset
      cases hset
  | some k =>
      have hki : k ≤ i := by
        by_contra hlt
        have hset := bitmapFindFree_least hfind (Nat.not_le.mp hlt)
        rw [hclear] at hset
        cases hset
      have hk : FreeBit bmp k := ⟨Nat.lt_of_le_of_lt hki hi, (bitmapFindFree_clear hfind).2⟩
      refine ⟨fun _ => ⟨hk, fun c hc => ?_⟩, iff_of_false ?_ (not_not.mpr ⟨k, hk⟩)⟩
      · by_contra hlt
        have hset := bitmapFindFree_least hfind (Nat.not_le.mp hlt)
        rw [hc.2] at hset
        cases hset
      · have hlt := hk.1
        rw [searchRet, Option.getD_some, minusOne]
        omega

/-- Without a clear bit below the size nothing is found exactly if the bits past it are set, too.
A bit whose index is `(size_t)-1` reads as nothing. -/
theorem findsFirst_full_iff (hlen : bmp.bytes.length = bitmapByteSize bmp.size)
    (hfull : ¬ ∃ i, FreeBit bmp i) :
    FindsFirst bmp (searchRet (bitmapFindFree bmp)) ↔
      ∀ j, bmp.size ≤ j → j < 8 * bitmapByteSize bmp.size → j ≠ minusOne →
        bitmapGet bmp j = true := by
  have hbound := bitmapByteSize_bounds bmp.size
  cases hfind : bitmapFindFree bmp with
  | none =>
      refine iff_of_true ⟨fun hex => absurd hex hfull, iff_of_true rfl hfull⟩ fun j _ hj _ => ?_
      exact bitmapFindFree_none hfind (by rw [hlen]; omega) (by omega)
  | some k =>
      obtain ⟨hbyte, hclear⟩ := bitmapFindFree_clear hfind
      rw [hlen] at hbyte
      have hk : bmp.size ≤ k := by
        by_contra hlt
        exact hfull ⟨k, Nat.not_le.mp hlt, hclear⟩
      rw [FindsFirst, searchRet, Option.getD_some]
      constructor
      · intro hret j hj hlt hne
        have hkmax : k = minusOne := hret.2.mpr hfull
        -- the bits before the one that is found are set, and it is the last of its byte
        refine bitmapFindFree_least hfind (Nat.lt_of_le_of_ne ?_ (hkmax ▸ hne))
        have hlast : minusOne % 8 = 7 := by decide
        omega
      · intro hset
        refine ⟨fun hex => absurd hex hfull, iff_of_true ?_ hfull⟩
        by_contra hne
        rw [hset k hk (by omega) hne] at hclear
        cases hclear

/-- A bitmap of `size` bits is filled with a value, and bits of it are set and cleared.  What
`bitmap_find_free` returns then is the first clear bit, and `(size_t)-1` exactly if there is none,
exactly if there is a clear bit below the size, or the size is that of whole bytes, or the bits of
the value past the last bit of the bitmap are set. -/
theorem bitmapFindFree_iff {size : Nat} (hsize : size < word) (value : Int)
    {calls : List BitCall} (hindex : ∀ call ∈ calls, call.index < size) {bmp : Bitmap}
    (hbmp : bmp = calls.foldl bitCall (bitmapInit size value)) :
    FindsFirst bmp (searchRet (bitmapFindFree bmp)) ↔
      (∃ i, FreeBit bmp i) ∨ size % 8 = 0 ∨
        ∀ b, size % 8 ≤ b → b < 8 → size / 8 * 8 + b ≠ minusOne →
          byteBit (UInt8.ofInt value) b = true := by
  obtain ⟨hfilled, hsame⟩ := (paddingFilled_init size value).bitCalls hindex
  rw [← hbmp] at hfilled hsame
  have hsame : bmp.size = size := hsame
  by_cases hfree : ∃ i, FreeBit bmp i
  · exact iff_of_true (findsFirst_of_free hfilled.length_eq (hsame ▸ hsize) hfree) (.inl hfree)
  · rw [findsFirst_full_iff hfilled.length_eq hfree, hsame]
    constructor
    · intro hset
      refine .inr (or_iff_not_imp_left.mpr fun hmod b hb hlt hne => ?_)
      have hdiv : (size / 8 * 8 + b) / 8 = size / 8 := by omega
      have hrem : (size / 8 * 8 + b) % 8 = b := by omega
      obtain ⟨hj, hjlt⟩ := padding_iff.mpr ⟨hmod, hdiv, hrem.symm ▸ hb⟩
      have hbit := hfilled.padding (size / 8 * 8 + b) (hsame ▸ hj) (hsame ▸ hjlt)
      rw [hrem] at hbit
      exact hbit ▸ hset _ hj hjlt hne
    · rintro (hex | hmod | hset) j hj hlt hne
      · exact absurd hex hfree
      · exact absurd hmod (padding_iff.mp ⟨hj, hlt⟩).1
      · obtain ⟨-, hdiv, hrem⟩ := padding_iff.mp ⟨hj, hlt⟩
        rw [hfilled.padding j (hsame ▸ hj) (hsame ▸ hlt)]
        refine hset (j % 8) hrem (Nat.mod_lt j (by decide)) ?_
        rw [← hdiv, Nat.div_add_mod']
        exact hne

/-- A bitmap of one bit that was filled with ones and cleared. -/
theorem bitmapFindFree_iff_one :
    FindsFirst (bitmapClr (bitmapInit 1 (-1)) 0)
      (searchRet (bitmapFindFree (bitmapClr (bitmapInit 1 (-1)) 0))) :=
  (bitmapFindFree_iff (by decide) (-1) (show ∀ call ∈ [BitCall.clr 0], call.index < 1 by decide)
    rfl).mpr
    (.inl ⟨0, by decide, by decide⟩)

/-- The only bit of a bitmap that was filled with zeros is set, and `bitmap_find_free` returns
`1`. -/
theorem bitmapFindFree_past_size :
    searchRet (bitmapFindFree (bitmapSet (bitmapInit 1 0) 0)) = 1 ∧
      ¬ FindsFirst (bitmapSet (bitmapInit 1 0) 0)
        (searchRet (bitmapFindFree (bitmapSet (bitmapInit 1 0) 0))) := by
  have hret : searchRet (bitmapFindFree (bitmapSet (bitmapInit 1 0) 0)) = 1 := by decide
  refine ⟨hret, fun hfirst => ?_⟩
  have hno : ¬ ∃ i, FreeBit (bitmapSet (bitmapInit 1 0) 0) i := by
    rintro ⟨i, hi, hclear⟩
    obtain rfl : i = 0 := Nat.lt_one_iff.mp hi
    revert hclear
    decide
  have hmax := hfirst.2.mpr hno
  rw [hret] at hmax
  revert hmax
  decide

end UlmerOS
