import Mathlib.Data.Nat.Digits.Lemmas

/-!
# Numerals

The digits of a number in a base, most significant first, as they are written.  `IsNumeral`
says when a list of digits is the numeral of a number.  There is one for every number, which
is `numeral` (`IsNumeral.eq_numeral`), and a greater number has no shorter one.
-/

namespace Numeral

/-- The digits of a number, most significant first. -/
def numeral (b n : Nat) : List Nat := if n = 0 then [0] else (Nat.digits b n).reverse

/-- Digits below the base, without a leading zero, that make up a number. -/
structure IsNumeral (b n : Nat) (ds : List Nat) : Prop where
  ne_nil : ds ≠ []
  digit_lt : ∀ d ∈ ds, d < b
  leading : ds.head? = some 0 → ds = [0]
  value_eq : Nat.ofDigits b ds.reverse = n

variable {b m n : Nat} {ds : List Nat}

theorem numeral_zero (b : Nat) : numeral b 0 = [0] := if_pos rfl

theorem numeral_pos (hn : n ≠ 0) : numeral b n = (Nat.digits b n).reverse := if_neg hn

/-- The numeral of a number is one. -/
theorem isNumeral_numeral (hb : 1 < b) (n : Nat) : IsNumeral b n (numeral b n) := by
  by_cases hn : n = 0
  · subst hn
    rw [numeral_zero]
    refine ⟨List.cons_ne_nil 0 [], fun d hd => ?_, fun _ => rfl, ?_⟩
    · rw [List.mem_singleton.mp hd]
      exact Nat.zero_lt_of_lt hb
    · exact Nat.ofDigits_singleton
  · rw [numeral_pos hn]
    have hnil : Nat.digits b n ≠ [] := Nat.digits_ne_nil_iff_ne_zero.mpr hn
    refine ⟨fun he => hnil (List.reverse_eq_nil_iff.mp he), fun d hd => ?_, fun hzero => ?_, ?_⟩
    · exact Nat.digits_lt_base hb (List.mem_reverse.mp hd)
    · -- the last digit is not zero
      rw [List.head?_reverse, List.getLast?_eq_getLast_of_ne_nil hnil] at hzero
      exact absurd (Option.some.inj hzero) (Nat.getLast_digit_ne_zero b hn)
    · rw [List.reverse_reverse]
      exact Nat.ofDigits_digits b n

/-- There is one numeral of a number. -/
theorem IsNumeral.eq_numeral (hb : 1 < b) (h : IsNumeral b n ds) : ds = numeral b n := by
  by_cases hzero : ds = [0]
  · have hn : n = 0 := by
      rw [← h.value_eq, hzero]
      exact Nat.ofDigits_singleton
    rw [hzero, hn, numeral_zero]
  · have hdigits : Nat.digits b (Nat.ofDigits b ds.reverse) = ds.reverse := by
      refine Nat.digits_ofDigits b hb ds.reverse (fun d hd => ?_) fun hnil hlast => ?_
      · exact h.digit_lt d (List.mem_reverse.mp hd)
      · have hhead : ds.head? = some 0 := by
          rw [← List.getLast?_reverse, List.getLast?_eq_getLast_of_ne_nil hnil, hlast]
        exact hzero (h.leading hhead)
    rw [h.value_eq] at hdigits
    have hn : n ≠ 0 := by
      rintro rfl
      rw [Nat.digits_zero] at hdigits
      exact h.ne_nil (List.reverse_eq_nil_iff.mp hdigits.symm)
    rw [numeral_pos hn, hdigits, List.reverse_reverse]

/-- Different numbers have different numerals. -/
theorem numeral_inj (hb : 1 < b) (h : numeral b m = numeral b n) : m = n := by
  have hm := (isNumeral_numeral hb m).value_eq
  rw [h, (isNumeral_numeral hb n).value_eq] at hm
  exact hm.symm

/-- A greater number has no shorter numeral. -/
theorem length_numeral_mono (b : Nat) (h : m ≤ n) :
    (numeral b m).length ≤ (numeral b n).length := by
  by_cases hn : n = 0
  · obtain rfl : m = 0 := Nat.le_zero.mp (hn ▸ h)
    rw [hn]
  · rw [numeral_pos hn, List.length_reverse]
    by_cases hm : m = 0
    · rw [hm, numeral_zero]
      exact List.length_pos_iff.mpr (Nat.digits_ne_nil_iff_ne_zero.mpr hn)
    · rw [numeral_pos hm, List.length_reverse]
      exact Nat.le_length_digits_le b m n h

/-- A number from a power of the base on has more digits than its exponent. -/
theorem lt_length_numeral (hb : 1 < b) {k : Nat} (h : b ^ k ≤ n) : k < (numeral b n).length := by
  have hn : n ≠ 0 := by
    rintro rfl
    exact absurd h (Nat.not_le.mpr (Nat.pow_pos (Nat.zero_lt_of_lt hb)))
  rw [numeral_pos hn, List.length_reverse]
  exact (Nat.lt_digits_length_iff hb n).mpr h

end Numeral
