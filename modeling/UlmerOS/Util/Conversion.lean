import UlmerOS.Fs.Sprintf
import UlmerOS.Lib.Numeral

/-!
# Numbers as text

`itoa`, `ltoa`, `utoa` and `ultoa` of `libutil/string.c`, which store their digits in a buffer
from the lowest one on and turn the buffer round in place with `strrev`.  An index of the buffer
is the number of bytes from `str` on.

An unsigned number comes out as its numeral (`unsigned_conversion`).  A negative number is
converted as the number without its sign, which for the smallest `int` or `long` is itself, and
its digits are those of a negative number then (`signed_conversion_iff`).
-/

namespace UlmerOS

open ByteMem

namespace Conversion

open Sprintf Numeral

/-! ## The functions -/

/-- The loop of `strrev` from `i` on. -/
def swapLoop (len : Nat) : Nat → Nat → Mem → Mem
  | 0, _, buf => buf
  | rounds + 1, i, buf =>
      let tmp := buf i
      let buf := Function.update buf i (buf (len - 1 - i))
      let buf := Function.update buf (len - 1 - i) tmp
      swapLoop len rounds (i + 1) buf

/-- `strrev`. -/
def strrev (buf : Mem) : Outcome Mem := do
  let len ← strlen buf word
  .ret (swapLoop len (len / 2) 0 buf)

/-- The loop of the conversions. -/
def digitLoop (base : Int) : Nat → Int → Nat → Mem → Outcome (Nat × Mem)
  | 0, _, _, _ => .hang
  | fuel + 1, value, bufPtr, buf =>
      let n := value.tmod base
      let buf := Function.update buf bufPtr (nchar (n % 2 ^ 32).toNat)
      let value := value.tdiv base
      if value = 0 then .ret (bufPtr + 1, buf) else digitLoop base fuel value (bufPtr + 1) buf

/-- `utoa` and `ultoa`, of a number of `width` bits. -/
def unsignedToText (width value : Nat) (buf : Mem) (base : Int) : Outcome Mem := do
  let (bufPtr, buf) ← digitLoop base width value 0 buf
  strrev (Function.update buf bufPtr 0)

def utoa (value : Nat) (buf : Mem) (base : Int) : Outcome Mem :=
  unsignedToText 32 (value % 2 ^ 32) buf base

def ultoa (value : Nat) (buf : Mem) (base : Int) : Outcome Mem :=
  unsignedToText 64 (value % 2 ^ 64) buf base

/-- `itoa` and `ltoa`, of a number of `width` bits. -/
def signedToText (width : Nat) (value : Int) (buf : Mem) (base : Int) : Outcome Mem := do
  let isNegative := value < 0
  let value := if isNegative then (-value).bmod (2 ^ width) else value
  let (bufPtr, buf) ← digitLoop base width value 0 buf
  let (bufPtr, buf) :=
    if isNegative then (bufPtr + 1, Function.update buf bufPtr (byte '-')) else (bufPtr, buf)
  strrev (Function.update buf bufPtr 0)

def itoa (value : Int) (buf : Mem) (base : Int) : Outcome Mem := signedToText 32 value buf base

def ltoa (value : Int) (buf : Mem) (base : Int) : Outcome Mem := signedToText 64 value buf base

/-! ## Turning a buffer round -/

variable {buf buf' : Mem} {bs : List UInt8}

/-- Where the loop of `strrev` is at `i`: the first `i` bytes and the last `i` are swapped. -/
def Swapped (orig : Mem) (len i : Nat) (buf : Mem) : Prop :=
  ∀ x, buf x = if x < len ∧ (x < i ∨ len - i ≤ x) then orig (len - 1 - x) else orig x

/-- One round swaps two bytes more. -/
theorem Swapped.step {orig : Mem} {len i : Nat} (h : Swapped orig len i buf)
    (hi : 2 * (i + 1) ≤ len) :
    Swapped orig len (i + 1)
      (Function.update (Function.update buf i (buf (len - 1 - i))) (len - 1 - i) (buf i)) := by
  have hlow : buf i = orig i := by rw [h i, if_neg (by omega)]
  have hhigh : buf (len - 1 - i) = orig (len - 1 - i) := by rw [h, if_neg (by omega)]
  intro x
  rw [Function.update_apply, Function.update_apply, hlow, hhigh]
  by_cases hx : x = len - 1 - i
  · have hback : len - 1 - x = i := by omega
    rw [if_pos hx, if_pos (by omega), hback]
  · rw [if_neg hx]
    by_cases hxi : x = i
    · rw [if_pos hxi, if_pos (by omega), hxi]
    · rw [if_neg hxi, h x]
      have hsame : (x < len ∧ (x < i ∨ len - i ≤ x)) ↔
          (x < len ∧ (x < i + 1 ∨ len - (i + 1) ≤ x)) := by omega
      simp only [hsame]

/-- The rounds that are left. -/
theorem Swapped.loop {orig : Mem} {len rounds i : Nat} (h : Swapped orig len i buf)
    (hi : 2 * (i + rounds) ≤ len) : Swapped orig len (i + rounds) (swapLoop len rounds i buf) := by
  induction rounds generalizing i buf with
  | zero => exact h
  | succ rounds ih =>
      rw [swapLoop, Nat.add_comm rounds 1, ← Nat.add_assoc]
      exact ih (h.step (by omega)) (by omega)

/-- The length of a string in memory. -/
theorem strlen_stands {fuel : Nat} (h : Stands buf 0 (bs ++ [0])) (hbs : 0 ∉ bs)
    (hfuel : bs.length < fuel) : strlen buf fuel = .ret bs.length := by
  induction bs generalizing buf fuel with
  | nil =>
      obtain ⟨fuel, rfl⟩ := Nat.exists_eq_succ_of_ne_zero (Nat.ne_of_gt hfuel)
      have hzero : buf 0 = 0 := h 0 Nat.one_pos
      rw [strlen, if_pos hzero]
      rfl
  | cons b bs ih =>
      obtain ⟨fuel, rfl⟩ := Nat.exists_eq_succ_of_ne_zero (Nat.ne_of_gt (Nat.zero_lt_of_lt hfuel))
      rw [List.mem_cons, not_or] at hbs
      have hb : buf 0 = b := h 0 (Nat.succ_pos _)
      have hrest : Stands (fun i => buf (i + 1)) 0 (bs ++ [0]) := by
        intro i hi
        rw [Nat.zero_add]
        have hsucc := h (i + 1) (Nat.succ_lt_succ hi)
        rwa [Nat.zero_add] at hsucc
      rw [strlen, if_neg (by rw [hb]; exact Ne.symm hbs.1),
        ih hrest hbs.2 (Nat.lt_of_succ_lt_succ hfuel)]
      rfl

/-- `strrev` turns a string round and leaves its terminator where it is. -/
theorem strrev_stands (h : Stands buf 0 (bs ++ [0])) (hbs : 0 ∉ bs) (hlen : bs.length < word) :
    ∃ buf', strrev buf = .ret buf' ∧ Stands buf' 0 (bs.reverse ++ [0]) := by
  have hstart : Swapped buf bs.length 0 buf := fun x => by rw [if_neg (by omega)]
  have hswapped : Swapped buf bs.length (0 + bs.length / 2)
      (swapLoop bs.length (bs.length / 2) 0 buf) := hstart.loop (by omega)
  rw [Nat.zero_add] at hswapped
  refine ⟨_, by rw [strrev, strlen_stands h hbs hlen]; rfl, ?_⟩
  obtain ⟨htext, hzero⟩ := stands_append.mp h
  rw [stands_append, List.length_reverse]
  constructor
  · intro i hi
    rw [List.length_reverse] at hi
    have hback : buf (bs.length - 1 - i) = bs.getD (bs.length - 1 - i) 0 := by
      have := htext (bs.length - 1 - i) (by omega)
      rwa [Nat.zero_add] at this
    rw [Nat.zero_add, hswapped i, List.getD_reverse i hi, ← hback]
    -- a byte in the middle is its own partner
    split
    next => rfl
    next hmid => rw [show bs.length - 1 - i = i by omega]
  · intro i hi
    have hi0 : i = 0 := Nat.lt_one_iff.mp hi
    rw [hswapped, if_neg (by omega)]
    exact hzero i hi

/-! ## Storing the digits -/

/-- One byte more is stored behind those of a list. -/
theorem stands_snoc {a : Nat} (h : Stands buf a bs) (b : UInt8) :
    Stands (Function.update buf (a + bs.length) b) a (bs ++ [b]) := by
  rw [stands_append]
  constructor
  · intro i hi
    rw [Function.update_of_ne (by omega)]
    exact h i hi
  · intro i hi
    have hi0 : i = 0 := Nat.lt_one_iff.mp hi
    rw [hi0, Nat.add_zero, Function.update_self]
    rfl

/-- The loop stores the digits of a number, if the rounds are enough. -/
theorem digitLoop_stands {b : Nat} (hb : 0 < b) {fuel k : Nat} {value : Int} (hk : k ≤ fuel)
    (hpos : 0 < k) (hvalue : value.natAbs < b ^ k) (h : Stands buf 0 bs) :
    ∃ buf', digitLoop b fuel value bs.length buf =
        .ret ((bs ++ digits b fuel value).length, buf') ∧
      Stands buf' 0 (bs ++ digits b fuel value) := by
  induction fuel generalizing k value buf bs with
  | zero => omega
  | succ fuel ih =>
      have hsnoc := stands_snoc h (nchar (value.tmod b % 2 ^ 32).toNat)
      rw [Nat.zero_add] at hsnoc
      rw [digitLoop, digits]
      split
      next => exact ⟨_, by rw [List.length_append]; rfl, hsnoc⟩
      next hne =>
        obtain ⟨hleft, hlt⟩ := natAbs_tdiv_lt hb hpos hvalue hne
        obtain ⟨buf', hret, hstands⟩ := ih (k := k - 1) (by omega) hleft hlt hsnoc
        rw [List.length_append, List.append_assoc] at hret
        rw [List.append_assoc] at hstands
        exact ⟨buf', hret, hstands⟩

/-- The same from the start of the buffer on. -/
theorem digitLoop_nil (buf : Mem) {b : Nat} (hb : 0 < b) {width : Nat} {value : Int}
    (hwidth : 0 < width) (hvalue : value.natAbs < b ^ width) :
    ∃ buf', digitLoop b width value 0 buf = .ret ((digits b width value).length, buf') ∧
      Stands buf' 0 (digits b width value) :=
  digitLoop_stands hb (Nat.le_refl width) hwidth hvalue
    (show Stands buf 0 [] from fun _ hi => nomatch hi)

/-! ## Unsigned numbers -/

/-- A digit of a base up to 36. -/
def digitByte (d : Nat) : UInt8 := (bytes "0123456789abcdefghijklmnopqrstuvwxyz").getD d 0

/-- A number is written out in a base. -/
def NumeralText (base value : Nat) (text : List UInt8) : Prop :=
  ∃ ds, text = ds.map digitByte ∧ IsNumeral base value ds

theorem nchar_eq {d : Nat} (hd : d < 36) : nchar d = digitByte d := by
  have hall : ∀ d : Fin 36, nchar d = digitByte d := by decide
  exact hall ⟨d, hd⟩

theorem digitByte_ne_zero {d : Nat} (hd : d < 36) : digitByte d ≠ 0 := by
  have hall : ∀ d : Fin 36, digitByte d ≠ 0 := by decide
  exact hall ⟨d, hd⟩

/-- What is stored for the lowest digit. -/
theorem nchar_tmod {b : Nat} (hb : 0 < b) (hb36 : b ≤ 36) (value : Nat) :
    nchar ((value : Int).tmod b % 2 ^ 32).toNat = digitByte (value % b) := by
  have hlt : value % b < b := Nat.mod_lt value hb
  have hrem : ((value : Int).tmod b % 2 ^ 32).toNat = value % b := by
    rw [← Int.ofNat_tmod]
    omega
  rw [hrem, nchar_eq (hlt.trans_le hb36)]

/-- The loop makes the digits of a number. -/
theorem digits_natCast {b : Nat} (hb : 1 < b) (hb36 : b ≤ 36) {fuel value : Nat} (hpos : value ≠ 0)
    (hvalue : value < b ^ fuel) : digits b fuel value = (Nat.digits b value).map digitByte := by
  induction fuel generalizing value with
  | zero => exact absurd (Nat.lt_one_iff.mp hvalue) hpos
  | succ fuel ih =>
      rw [digits, nchar_tmod (Nat.zero_lt_of_lt hb) hb36, ← Int.ofNat_tdiv,
        Nat.digits_def' hb (Nat.pos_of_ne_zero hpos), List.map_cons]
      congr 1
      split
      next hzero =>
        rw [Int.natCast_eq_zero.mp hzero, Nat.digits_zero]
        rfl
      next hne =>
        refine ih (fun hzero => hne (Int.natCast_eq_zero.mpr hzero)) ?_
        rw [Nat.div_lt_iff_lt_mul (Nat.zero_lt_of_lt hb)]
        rwa [Nat.pow_succ] at hvalue

/-- The digits in the order in which they are read are the numeral of the number. -/
theorem reverse_digits {b : Nat} (hb : 1 < b) (hb36 : b ≤ 36) {fuel value : Nat} (hfuel : 0 < fuel)
    (hvalue : value < b ^ fuel) :
    (digits b fuel value).reverse = (numeral b value).map digitByte := by
  by_cases hzero : value = 0
  · subst hzero
    obtain ⟨fuel, rfl⟩ := Nat.exists_eq_succ_of_ne_zero hfuel.ne'
    rw [digits, nchar_tmod (Nat.zero_lt_of_lt hb) hb36, Nat.zero_mod, numeral_zero]
    have hdiv : ((0 : Nat) : Int).tdiv b = 0 := Int.zero_tdiv b
    rw [if_pos hdiv]
    rfl
  · rw [digits_natCast hb hb36 hzero hvalue, numeral_pos hzero, List.map_reverse]

theorem numeralText_numeral {b : Nat} (hb : 1 < b) (value : Nat) :
    NumeralText b value ((numeral b value).map digitByte) :=
  ⟨_, rfl, isNumeral_numeral hb value⟩

/-- No digit is the terminator. -/
theorem zero_notMem_numeral {b : Nat} (hb : 1 < b) (hb36 : b ≤ 36) (value : Nat) :
    0 ∉ (numeral b value).map digitByte := by
  intro hmem
  obtain ⟨d, hd, hzero⟩ := List.mem_map.mp hmem
  exact digitByte_ne_zero (((isNumeral_numeral hb value).digit_lt d hd).trans_le hb36) hzero

/-- A number below `2^width` is stored as its numeral. -/
theorem unsignedToText_stands (buf : Mem) {b width value : Nat} (hb : 1 < b) (hb36 : b ≤ 36)
    (hwidth : 0 < width) (hword : width < word) (hvalue : value < 2 ^ width) :
    ∃ buf', unsignedToText width value buf b = .ret buf' ∧
      Stands buf' 0 ((numeral b value).map digitByte ++ [0]) := by
  have hpow : value < b ^ width := hvalue.trans_le (Nat.pow_le_pow_left hb width)
  have hrev := reverse_digits hb hb36 hwidth hpow
  have hnot := zero_notMem_numeral hb hb36 value
  rw [← hrev, List.mem_reverse] at hnot
  have hlen : (digits b width value).length ≤ width :=
    length_digits_le (Nat.zero_lt_of_lt hb) width hwidth (by rwa [Int.natAbs_natCast])
  obtain ⟨buf1, hloop, hstands⟩ := digitLoop_nil buf (Nat.zero_lt_of_lt hb) hwidth
    (show (value : Int).natAbs < b ^ width from hpow)
  have hterm := stands_snoc hstands 0
  rw [Nat.zero_add] at hterm
  obtain ⟨buf2, hret, htext⟩ := strrev_stands hterm hnot (hlen.trans_lt hword)
  rw [hrev] at htext
  exact ⟨buf2, by rw [unsignedToText, hloop]; exact hret, htext⟩

/-- `utoa` and `ultoa` store the numeral of every number, in every base from 2 to 36. -/
theorem unsigned_conversion (buf : Mem) {base : Nat} (hbase : 2 ≤ base) (hbase36 : base ≤ 36)
    (value : Nat) :
    (value < 2 ^ 32 → ∃ text buf', utoa value buf base = .ret buf' ∧
      Stands buf' 0 (text ++ [0]) ∧ NumeralText base value text) ∧
    (value < 2 ^ 64 → ∃ text buf', ultoa value buf base = .ret buf' ∧
      Stands buf' 0 (text ++ [0]) ∧ NumeralText base value text) := by
  constructor
  · intro hvalue
    obtain ⟨buf', hret, hstands⟩ :=
      unsignedToText_stands buf hbase hbase36 (by decide) (by decide) hvalue
    refine ⟨_, buf', ?_, hstands, numeralText_numeral hbase value⟩
    rw [utoa, Nat.mod_eq_of_lt hvalue]
    exact hret
  · intro hvalue
    obtain ⟨buf', hret, hstands⟩ :=
      unsignedToText_stands buf hbase hbase36 (by decide) (by decide) hvalue
    refine ⟨_, buf', ?_, hstands, numeralText_numeral hbase value⟩
    rw [ultoa, Nat.mod_eq_of_lt hvalue]
    exact hret

/-- The greatest `unsigned int` in hexadecimal. -/
theorem unsigned_conversion_max : ∃ text buf',
    utoa (2 ^ 32 - 1) (fun _ => 0) (16 : Nat) = .ret buf' ∧
    Stands buf' 0 (text ++ [0]) ∧ NumeralText 16 (2 ^ 32 - 1) text :=
  (unsigned_conversion (fun _ => 0) (by decide) (by decide) (2 ^ 32 - 1)).1 (by decide)

/-! ## Signed numbers -/

/-- The text that `itoa` and `ltoa` store.  The smallest number is its own negative. -/
def signedText (width : Nat) (value : Int) (base : Int) : List UInt8 :=
  let value' := if value < 0 ∧ value ≠ -2 ^ (width - 1) then -value else value
  (digits base width value' ++ if value < 0 then [byte '-'] else []).reverse

theorem itoa_eq_signedText (value base : Int) :
    Sprintf.itoa value base = signedText 32 value base := rfl

/-- A number is written out in a base, with `-` before it if it is negative. -/
def SignedText (base : Nat) (value : Int) (text : List UInt8) : Prop :=
  ∃ ds, IsNumeral base value.natAbs ds ∧
    (0 ≤ value ∧ text = ds.map digitByte ∨ value ≤ 0 ∧ text = byte '-' :: ds.map digitByte)

/-- No remainder, negative or not, becomes the terminator. -/
theorem zero_notMem_digits {b : Nat} (hb : 0 < b) (hb36 : b ≤ 36) (fuel : Nat) (value : Int) :
    0 ∉ digits b fuel value := by
  have hall : ∀ r : Fin 71, nchar (((r : Int) - 35) % 2 ^ 32).toNat ≠ 0 := by decide
  induction fuel generalizing value with
  | zero => exact List.not_mem_nil
  | succ fuel ih =>
      have hlow := Int.lt_tmod_of_pos value (Int.natCast_pos.mpr hb)
      have hhigh := Int.tmod_lt_of_pos value (Int.natCast_pos.mpr hb)
      have hfirst := hall ⟨(value.tmod b + 35).toNat, by omega⟩
      rw [Int.toNat_of_nonneg (by omega), Int.add_sub_cancel] at hfirst
      rw [digits, List.mem_cons, not_or]
      refine ⟨hfirst.symm, ?_⟩
      split
      next => exact List.not_mem_nil
      next => exact ih _

/-- The negative of a number, except of the smallest one. -/
theorem neg_bmod {width : Nat} (hwidth : 0 < width) {value : Int} (hlow : -2 ^ (width - 1) ≤ value)
    (hneg : value < 0) :
    (-value).bmod (2 ^ width) = if value < 0 ∧ value ≠ -2 ^ (width - 1) then -value else value := by
  obtain ⟨k, rfl⟩ := Nat.exists_eq_succ_of_ne_zero hwidth.ne'
  have hpow : (2 : Nat) ^ (k + 1) = 2 * 2 ^ k := Nat.pow_succ'
  obtain ⟨half, hhalf⟩ : ∃ half : Nat, half = 2 ^ k := ⟨_, rfl⟩
  have hcast : (2 : Int) ^ k = half := by
    rw [hhalf]
    exact (Int.natCast_pow 2 k).symm
  rw [Nat.succ_sub_one, hcast] at hlow ⊢
  rw [hpow, ← hhalf, Int.bmod_def, Int.emod_eq_of_lt (by omega) (by omega)]
  by_cases hmin : value = -half
  · rw [if_neg (by omega), if_neg fun hc => hc.2 hmin]
    omega
  · rw [if_pos (by omega), if_pos ⟨hneg, hmin⟩]

/-- A number of `width` bits is stored as its text. -/
theorem signedToText_stands (buf : Mem) (width : Nat) {b : Nat} {value : Int} (hb : 1 < b)
    (hb36 : b ≤ 36) (hwidth : 0 < width) (hword : width + 1 < word)
    (hlow : -2 ^ (width - 1) ≤ value) (hhigh : value < 2 ^ (width - 1)) :
    ∃ buf', signedToText width value buf b = .ret buf' ∧
      Stands buf' 0 (signedText width value b ++ [0]) := by
  obtain ⟨value', hvalue'⟩ : ∃ value' : Int, value' =
      if value < 0 ∧ value ≠ -2 ^ (width - 1) then -value else value := ⟨_, rfl⟩
  have hneg : (if value < 0 then (-value).bmod (2 ^ width) else value) = value' := by
    rw [hvalue']
    split
    next hlt => exact neg_bmod hwidth hlow hlt
    next hge => rw [if_neg fun hc => hge hc.1]
  have habs : value'.natAbs < b ^ width := by
    have hhalf : (2 : Int) ^ (width - 1) = (2 ^ (width - 1) : Nat) := (Int.natCast_pow 2 _).symm
    have hlt : 2 ^ (width - 1) < 2 ^ width := Nat.pow_lt_pow_right (by decide) (by omega)
    have hle : 2 ^ width ≤ b ^ width := Nat.pow_le_pow_left hb width
    rw [hhalf] at hlow hhigh
    have hbound : value'.natAbs ≤ 2 ^ (width - 1) := by
      rw [hvalue']
      split <;> omega
    omega
  have hlen := length_digits_le (Nat.zero_lt_of_lt hb) width hwidth habs
  have hnot := zero_notMem_digits (Nat.zero_lt_of_lt hb) hb36 width value'
  obtain ⟨buf1, hloop, hstands⟩ := digitLoop_nil buf (Nat.zero_lt_of_lt hb) hwidth habs
  rw [signedToText, signedText, ← hvalue']
  simp only [hneg, hloop, Outcome.ret_bind]
  by_cases hsign : value < 0
  · have hdash := stands_snoc (stands_snoc hstands (byte '-')) 0
    rw [Nat.zero_add, Nat.zero_add, List.length_append, List.length_singleton] at hdash
    rw [if_pos hsign, if_pos hsign]
    refine strrev_stands hdash ?_ ?_
    · rw [List.mem_append, not_or]
      exact ⟨hnot, by decide⟩
    · rw [List.length_append, List.length_singleton]
      omega
  · have hterm := stands_snoc hstands 0
    rw [Nat.zero_add] at hterm
    rw [if_neg hsign, if_neg hsign, List.append_nil]
    exact strrev_stands hterm hnot (by omega)

/-- The text of a number is written out as it should be, unless it is the smallest one. -/
theorem signedText_eq {b width : Nat} {value : Int} (hb : 1 < b) (hb36 : b ≤ 36)
    (hwidth : 0 < width) (hlow : -2 ^ (width - 1) < value) (hhigh : value < 2 ^ (width - 1)) :
    signedText width value b =
      (if value < 0 then [byte '-'] else []) ++ (numeral b value.natAbs).map digitByte := by
  have hhalf : (2 : Int) ^ (width - 1) = (2 ^ (width - 1) : Nat) := (Int.natCast_pow 2 _).symm
  have hlt : 2 ^ (width - 1) < 2 ^ width := Nat.pow_lt_pow_right (by decide) (by omega)
  have hle : 2 ^ width ≤ b ^ width := Nat.pow_le_pow_left hb width
  have habs : value.natAbs < b ^ width := by
    rw [hhalf] at hlow hhigh
    omega
  have hvalue : (if value < 0 ∧ value ≠ -2 ^ (width - 1) then -value else value) =
      (value.natAbs : Int) := by
    split
    next hneg => omega
    next hc =>
      have hne : value ≠ -2 ^ (width - 1) := ne_of_gt hlow
      have hge : ¬ value < 0 := fun hneg => hc ⟨hneg, hne⟩
      omega
  rw [signedText, hvalue, List.reverse_append, reverse_digits hb hb36 hwidth habs]
  split <;> rfl

/-- The text of the smallest number has a character that is no digit of the base. -/
theorem signedText_min {base width : Nat} (hbase : 2 ≤ base) (hbase36 : base ≤ 36)
    (hwidth : width = 32 ∨ width = 64) :
    ∃ c ∈ digits base width (-2 ^ (width - 1)), ∀ d < base, c ≠ digitByte d := by
  have hall : ∀ i : Fin 35, ∀ width ∈ [32, 64],
      ∃ c ∈ digits ((i + 2 : Nat) : Int) width (-2 ^ (width - 1)),
        ∀ d < i.val + 2, c ≠ digitByte d := by decide +kernel
  have := hall ⟨base - 2, by omega⟩ width (by simpa using hwidth)
  rwa [show base - 2 + 2 = base by omega] at this

/-- A number comes out as it should exactly if it is not the smallest one. -/
theorem signedText_iff {base width : Nat} {value : Int} (hbase : 2 ≤ base) (hbase36 : base ≤ 36)
    (hwidth : width = 32 ∨ width = 64) (hlow : -2 ^ (width - 1) ≤ value)
    (hhigh : value < 2 ^ (width - 1)) :
    SignedText base value (signedText width value base) ↔ value ≠ -2 ^ (width - 1) := by
  have hpos : 0 < width := by omega
  by_cases hmin : value = -2 ^ (width - 1)
  · refine iff_of_false ?_ (not_not.mpr hmin)
    rintro ⟨ds, hds, hform⟩
    have hneg : value < 0 := by
      rw [hmin]
      rcases hwidth with rfl | rfl <;> decide
    obtain ⟨c, hc, hno⟩ := signedText_min hbase hbase36 hwidth
    rcases hform with ⟨hge, -⟩ | ⟨-, htext⟩
    · omega
    · rw [signedText, if_neg fun hc => hc.2 hmin, if_pos hneg, List.reverse_append] at htext
      have hdigits : (digits base width value).reverse = ds.map digitByte :=
        List.tail_eq_of_cons_eq htext
      rw [← hmin, ← List.mem_reverse, hdigits] at hc
      obtain ⟨d, hd, rfl⟩ := List.mem_map.mp hc
      exact hno d (hds.digit_lt d hd) rfl
  · refine iff_of_true ?_ hmin
    rw [signedText_eq hbase hbase36 hpos (lt_of_le_of_ne hlow (Ne.symm hmin)) hhigh]
    refine ⟨_, isNumeral_numeral hbase value.natAbs, ?_⟩
    by_cases hneg : value < 0
    · rw [if_pos hneg]
      exact .inr ⟨Int.le_of_lt hneg, rfl⟩
    · rw [if_neg hneg]
      exact .inl ⟨Int.not_lt.mp hneg, rfl⟩

/-- `itoa` and `ltoa` store a string for every number and every base from 2 to 36.  It is the
number, written out in the base, exactly if the number is not the smallest one of its type. -/
theorem signed_conversion_iff (buf : Mem) {base : Nat} (hbase : 2 ≤ base) (hbase36 : base ≤ 36)
    (value : Int) :
    (-2 ^ 31 ≤ value → value < 2 ^ 31 → ∃ text buf', itoa value buf base = .ret buf' ∧
      Stands buf' 0 (text ++ [0]) ∧ 0 ∉ text ∧ (SignedText base value text ↔ value ≠ -2 ^ 31)) ∧
    (-2 ^ 63 ≤ value → value < 2 ^ 63 → ∃ text buf', ltoa value buf base = .ret buf' ∧
      Stands buf' 0 (text ++ [0]) ∧ 0 ∉ text ∧ (SignedText base value text ↔ value ≠ -2 ^ 63)) := by
  have hnot : ∀ width, 0 ∉ signedText width value base := by
    intro width
    rw [signedText, List.mem_reverse, List.mem_append, not_or]
    refine ⟨zero_notMem_digits (Nat.zero_lt_of_lt hbase) hbase36 width _, ?_⟩
    split <;> decide
  constructor
  · intro hlow hhigh
    obtain ⟨buf', hret, hstands⟩ := signedToText_stands buf 32 hbase hbase36 (by decide)
      (by decide) hlow hhigh
    exact ⟨_, buf', hret, hstands, hnot 32, signedText_iff hbase hbase36 (.inl rfl) hlow hhigh⟩
  · intro hlow hhigh
    obtain ⟨buf', hret, hstands⟩ := signedToText_stands buf 64 hbase hbase36 (by decide)
      (by decide) hlow hhigh
    exact ⟨_, buf', hret, hstands, hnot 64, signedText_iff hbase hbase36 (.inr rfl) hlow hhigh⟩

/-- The second smallest `int`. -/
theorem signed_conversion_iff_second : ∃ text buf',
    itoa (-2 ^ 31 + 1) (fun _ => 0) (10 : Nat) = .ret buf' ∧ Stands buf' 0 (text ++ [0]) ∧
      SignedText 10 (-2 ^ 31 + 1) text := by
  obtain ⟨text, buf', hret, hstands, -, hiff⟩ := (signed_conversion_iff (fun _ => 0)
    (show 2 ≤ 10 by decide) (by decide) (-2 ^ 31 + 1)).1 (by decide) (by decide)
  exact ⟨text, buf', hret, hstands, hiff.mpr (by decide)⟩

/-- The smallest `int` has letters for digits. -/
theorem itoa_min_wrong : ∃ buf', itoa (-2 ^ 31) (fun _ => 0) (10 : Nat) = .ret buf' ∧
    Stands buf' 0 (bytes "-UVSPSOTQSO" ++ [0]) ∧
    ¬ SignedText 10 (-2 ^ 31) (bytes "-UVSPSOTQSO") := by
  have hlow : -2 ^ (32 - 1) ≤ (-2 ^ 31 : Int) := by decide
  have hhigh : (-2 ^ 31 : Int) < 2 ^ (32 - 1) := by decide
  obtain ⟨buf', hret, hstands⟩ := signedToText_stands (fun _ => 0) 32 (b := 10) (by decide)
    (by decide) (by decide) (by decide) hlow hhigh
  have htext : signedText 32 (-2 ^ 31) (10 : Nat) = bytes "-UVSPSOTQSO" := by decide +kernel
  have hiff := signedText_iff (show 2 ≤ 10 by decide) (by decide) (.inl rfl) hlow hhigh
  rw [htext] at hstands hiff
  exact ⟨buf', hret, hstands, fun h => hiff.mp h rfl⟩

/-! ## What the formatter finds in its buffer -/

theorem utoa_stands (buf : Mem) (value : Nat) {b : Nat} (hb : 1 < b) (hb36 : b ≤ 36) :
    ∃ buf', utoa value buf b = .ret buf' ∧ Stands buf' 0 (Sprintf.utoa value b ++ [0]) := by
  have hlt : value % 2 ^ 32 < 2 ^ 32 := Nat.mod_lt value (by decide)
  obtain ⟨buf', hret, hstands⟩ := unsignedToText_stands buf hb hb36 (by decide) (by decide) hlt
  refine ⟨buf', hret, ?_⟩
  rw [Sprintf.utoa, reverse_digits hb hb36 (by decide) (hlt.trans_le (Nat.pow_le_pow_left hb 32))]
  exact hstands

theorem itoa_stands (buf : Mem) (value : Nat) {b : Nat} (hb : 1 < b) (hb36 : b ≤ 36) :
    ∃ buf', itoa (toInt32 value) buf b = .ret buf' ∧
      Stands buf' 0 (Sprintf.itoa (toInt32 value) b ++ [0]) := by
  have hbounds : -2 ^ 31 ≤ toInt32 value ∧ toInt32 value < 2 ^ 31 := by
    rw [toInt32]
    split <;> omega
  rw [itoa_eq_signedText]
  exact signedToText_stands buf 32 hb hb36 (by decide) (by decide) hbounds.1 hbounds.2

end Conversion

end UlmerOS
