import UlmerOS.Util.Conversion
import Mathlib.Data.List.Count

/-!
# What the formatter prints

`_sprintf` of `libutil/sprintf.c` on formats that are made of characters, `%s`, `%c`, `%%`, `%p`
and numbers with any `l` and `z`.  A `Piece` is one of these with its argument.  It has a text
as it should be, and one that is printed.  Both are the same unless a number is outside of
what `itoa` and `utoa` take, which is an `int` other than the smallest one, and an `unsigned int`.

The texts of all pieces are the same only if those of each are (`printed_eq_iff`).  A number that
does not fit loses digits, and the only thing that it can win is a sign, so that a text with the
right length has the right signs, and the first number that does not fit shows.
-/

namespace UlmerOS

open ByteMem

namespace Sprintf

open Conversion Numeral

/-! ## Pieces of a format -/

/-- A character between `%` and the end of a number. -/
inductive Modifier where
  | l
  | z

/-- How a number is written. -/
inductive NumberFormat where
  | d
  | u
  | x

def Modifier.char : Modifier → Char
  | .l => 'l'
  | .z => 'z'

def NumberFormat.char : NumberFormat → Char
  | .d => 'd'
  | .u => 'u'
  | .x => 'x'

/-- A piece of a format, with its argument. -/
inductive Piece where
  /-- A character that stands for itself. -/
  | char (c : Char)
  /-- `%s`, and the string that the argument stands for. -/
  | str (arg : VaArg) (text : List UInt8)
  | chr (n : Nat)
  | percent
  | ptr (n : Nat)
  | number (modifiers : List Modifier) (format : NumberFormat) (n : Nat)

namespace Piece

/-- The characters of the format. -/
def fmt : Piece → List Char
  | .char c => [c]
  | .str _ _ => ['%', 's']
  | .chr _ => ['%', 'c']
  | .percent => ['%', '%']
  | .ptr _ => ['%', 'p']
  | .number modifiers format _ => '%' :: (modifiers.map Modifier.char ++ [format.char])

/-- The arguments that are taken. -/
def args : Piece → List VaArg
  | .char _ => []
  | .str arg _ => [arg]
  | .chr n => [.value n]
  | .percent => []
  | .ptr n => [.value n]
  | .number _ _ n => [.value n]

/-- An unsigned argument at its full width. -/
def unsignedArg (modifiers : List Modifier) (n : Nat) : Nat :=
  if modifiers = [] then n % 2 ^ 32 else n % word

/-- A signed argument at its full width. -/
def signedArg (modifiers : List Modifier) (n : Nat) : Int :=
  if modifiers = [] then toInt32 n else toSsize (n % word)

/-- A number in a base. -/
def unsignedNumeral (base n : Nat) : List UInt8 := (numeral base n).map digitByte

/-- A sign, or none. -/
def sign (neg : Bool) : List UInt8 := if neg then [byte '-'] else []

/-- A number in a base, with its sign. -/
def signedNumeral (base : Nat) (value : Int) : List UInt8 :=
  sign (decide (value < 0)) ++ unsignedNumeral base value.natAbs

/-- The text of a number. -/
def numberTextbook (modifiers : List Modifier) (format : NumberFormat) (n : Nat) : List UInt8 :=
  match format with
  | .d => signedNumeral 10 (signedArg modifiers n)
  | .u => unsignedNumeral 10 (unsignedArg modifiers n)
  | .x => unsignedNumeral 16 (unsignedArg modifiers n)

/-- The text that is to be printed. -/
def textbook : Piece → List UInt8
  | .char c => [byte c]
  | .str _ text => text
  | .chr n => [UInt8.ofNat n]
  | .percent => [byte '%']
  | .ptr n =>
      bytes "0x" ++ (List.range 16).reverse.map fun i => digitByte (n % word / 16 ^ i % 16)
  | .number modifiers format n => numberTextbook modifiers format n

/-- The text that is printed. -/
def printed : Piece → List UInt8
  | .number modifiers format n => numberText format.char (!modifiers.isEmpty) n
  | piece => piece.textbook

/-- The number is one that its converter takes. -/
def Fits : Piece → Prop
  | .number modifiers .d n => -2 ^ 31 < signedArg modifiers n ∧ signedArg modifiers n < 2 ^ 31
  | .number modifiers _ n => unsignedArg modifiers n < 2 ^ 32
  | _ => True

end Piece

/-! ## Numbers -/

/-- Digits, and no sign. -/
structure Plain (body : List UInt8) : Prop where
  ne_nil : body ≠ []
  no_sign : byte '-' ∉ body

theorem digitByte_ne_sign {d : Nat} (hd : d < 36) : digitByte d ≠ byte '-' := by
  have hall : ∀ d : Fin 36, digitByte d ≠ byte '-' := by decide
  exact hall ⟨d, hd⟩

theorem digitByte_inj {d e : Nat} (hd : d < 36) (he : e < 36) (h : digitByte d = digitByte e) :
    d = e := by
  have hall : ∀ d e : Fin 36, digitByte d = digitByte e → d = e := by decide +kernel
  exact Fin.mk.inj_iff.mp (hall ⟨d, hd⟩ ⟨e, he⟩ h)

theorem map_digitByte_inj {ds es : List Nat} (hds : ∀ d ∈ ds, d < 36) (hes : ∀ e ∈ es, e < 36)
    (h : ds.map digitByte = es.map digitByte) : ds = es := by
  induction ds generalizing es with
  | nil => exact (List.map_eq_nil_iff.mp h.symm).symm
  | cons d ds ih =>
      cases es with
      | nil => cases h
      | cons e es =>
          obtain ⟨hfirst, hrest⟩ := List.cons_eq_cons.mp h
          rw [digitByte_inj (hds d List.mem_cons_self) (hes e List.mem_cons_self) hfirst,
            ih (fun x hx => hds x (List.mem_cons_of_mem d hx))
              (fun x hx => hes x (List.mem_cons_of_mem e hx)) hrest]

section Base

variable {b : Nat} (hb : 1 < b) (hb36 : b ≤ 36)
include hb hb36

theorem numeral_lt {n d : Nat} (hd : d ∈ numeral b n) : d < 36 :=
  ((isNumeral_numeral hb n).digit_lt d hd).trans_le hb36

theorem plain_unsignedNumeral (n : Nat) : Plain (Piece.unsignedNumeral b n) := by
  have hnumeral := isNumeral_numeral hb n
  refine ⟨fun hnil => hnumeral.ne_nil (List.map_eq_nil_iff.mp hnil), fun hmem => ?_⟩
  obtain ⟨d, hd, hsign⟩ := List.mem_map.mp hmem
  exact digitByte_ne_sign (numeral_lt hb hb36 hd) hsign

theorem unsignedNumeral_inj {m n : Nat}
    (h : Piece.unsignedNumeral b m = Piece.unsignedNumeral b n) : m = n :=
  numeral_inj hb (map_digitByte_inj (fun _ => numeral_lt hb hb36) (fun _ => numeral_lt hb hb36) h)

end Base

theorem length_unsignedNumeral_mono (b : Nat) {m n : Nat} (h : m ≤ n) :
    (Piece.unsignedNumeral b m).length ≤ (Piece.unsignedNumeral b n).length := by
  rw [Piece.unsignedNumeral, Piece.unsignedNumeral, List.length_map, List.length_map]
  exact length_numeral_mono b h

namespace Piece

/-- What is printed and what should be: a sign and digits each.  There are not more digits than
there should be, and both are the same only if the number fits. -/
structure Loses (text text' : List UInt8) (fits : Prop) : Prop where
  parts : ∃ neg body neg' body', text = sign neg ++ body ∧ text' = sign neg' ++ body' ∧
    Plain body ∧ Plain body' ∧ body.length ≤ body'.length ∧ (neg = neg' → body = body' → fits)

/-- An argument as an `int`, and the number that it is. -/
theorem signedArg_cases (modifiers : List Modifier) (n : Nat) :
    -2 ^ 31 ≤ toInt32 n ∧ toInt32 n < 2 ^ 31 ∧
      (toInt32 n).natAbs ≤ (signedArg modifiers n).natAbs ∧
      (-2 ^ 31 < signedArg modifiers n ∧ signedArg modifiers n < 2 ^ 31 →
        signedArg modifiers n = toInt32 n) := by
  rw [signedArg, toInt32, toSsize, word]
  split <;> split <;> (try split) <;> omega

/-- A number that fits is its own low half. -/
theorem mod_of_fits {modifiers : List Modifier} {n : Nat} (h : unsignedArg modifiers n < 2 ^ 32) :
    n % 2 ^ 32 = unsignedArg modifiers n := by
  rw [unsignedArg, word] at h ⊢
  by_cases hnil : modifiers = []
  · rw [if_pos hnil]
  · rw [if_neg hnil] at h ⊢
    omega

theorem itoa_eq_signedNumeral {value : Int} (hlow : -2 ^ 31 < value) (hhigh : value < 2 ^ 31) :
    itoa value 10 = signedNumeral 10 value := by
  rw [itoa_eq_signedText, signedNumeral, sign]
  simp only [decide_eq_true_eq]
  exact signedText_eq (b := 10) (by decide) (by decide) (by decide) hlow hhigh

/-- What is printed of a number: the low half of it. -/
theorem numberText_eq (modifiers : List Modifier) (format : NumberFormat) (n : Nat) :
    numberText format.char (!modifiers.isEmpty) n =
      match format with
      | .d => itoa (toInt32 n) 10
      | .u => unsignedNumeral 10 (n % 2 ^ 32)
      | .x => unsignedNumeral 16 (n % 2 ^ 32) := by
  have hword : n % word % 2 ^ 32 = n % 2 ^ 32 := Nat.mod_mod_of_dvd n (by decide)
  have harg : (if (!modifiers.isEmpty) = true then n % word else n % 2 ^ 32) % 2 ^ 32 =
      n % 2 ^ 32 := by
    split
    · exact hword
    · exact Nat.mod_mod n _
  have hrev : ∀ b : Nat, 1 < b → b ≤ 36 →
      (digits b 32 (n % 2 ^ 32 : Nat)).reverse = unsignedNumeral b (n % 2 ^ 32) :=
    fun b hb hb36 => reverse_digits hb hb36 (by decide)
      ((Nat.mod_lt n (by decide)).trans_le (Nat.pow_le_pow_left hb 32))
  cases format with
  | d =>
      have hint : toInt32 (if (!modifiers.isEmpty) = true then n % word else n % 2 ^ 32) =
          toInt32 n := by rw [toInt32, toInt32, harg]
      exact congrArg (fun v => itoa v 10) hint
  | u =>
      refine Eq.trans ?_ (hrev 10 (by decide) (by decide))
      rw [← harg]
      rfl
  | x =>
      refine Eq.trans ?_ (hrev 16 (by decide) (by decide))
      rw [← harg]
      rfl

/-- What `%u` and `%x` print. -/
theorem loses_unsigned (modifiers : List Modifier) (n : Nat) {b : Nat} (hb : 1 < b)
    (hb36 : b ≤ 36) :
    Loses (unsignedNumeral b (n % 2 ^ 32)) (unsignedNumeral b (unsignedArg modifiers n))
      (unsignedArg modifiers n < 2 ^ 32) := by
  have hword : n % word % 2 ^ 32 = n % 2 ^ 32 := Nat.mod_mod_of_dvd n (by decide)
  have hle : n % 2 ^ 32 ≤ unsignedArg modifiers n := by
    rw [unsignedArg]
    split
    · exact Nat.le_refl _
    · rw [← hword]
      exact Nat.mod_le _ _
  refine ⟨false, _, false, _, rfl, rfl, plain_unsignedNumeral hb hb36 _,
    plain_unsignedNumeral hb hb36 _, length_unsignedNumeral_mono b hle, fun _ hsame => ?_⟩
  rw [← unsignedNumeral_inj hb hb36 hsame]
  exact Nat.mod_lt n (by decide)

/-- What `%d` prints. -/
theorem loses_signed (modifiers : List Modifier) (n : Nat) :
    Loses (itoa (toInt32 n) 10) (signedNumeral 10 (signedArg modifiers n))
      (-2 ^ 31 < signedArg modifiers n ∧ signedArg modifiers n < 2 ^ 31) := by
  obtain ⟨hlow, hhigh, habs, -⟩ := signedArg_cases modifiers n
  have hplain : ∀ v : Nat, Plain (unsignedNumeral 10 v) :=
    plain_unsignedNumeral (by decide) (by decide)
  by_cases hmin : toInt32 n = -2 ^ 31
  · -- its digits are letters
    have htext : itoa (-2 ^ 31) 10 = bytes "-UVSPSOTQSO" := by decide +kernel
    have hlen : 9 < (unsignedNumeral 10 (signedArg modifiers n).natAbs).length := by
      rw [unsignedNumeral, List.length_map]
      refine lt_length_numeral (by decide) (le_trans ?_ habs)
      rw [hmin]
      decide
    refine ⟨true, bytes "UVSPSOTQSO", _, _, hmin ▸ htext, rfl, ⟨by decide, by decide⟩,
      hplain _, hlen, fun _ hsame => ?_⟩
    have hletter : byte 'U' ∈ unsignedNumeral 10 (signedArg modifiers n).natAbs := by
      rw [← hsame]
      decide
    obtain ⟨d, hd, hdigit⟩ := List.mem_map.mp hletter
    have hno : ∀ d : Fin 36, digitByte d ≠ byte 'U' := by decide
    exact absurd hdigit (hno ⟨d, numeral_lt (b := 10) (by decide) (by decide) hd⟩)
  · have htext := itoa_eq_signedNumeral (lt_of_le_of_ne hlow (Ne.symm hmin)) hhigh
    refine ⟨_, _, _, _, htext, rfl, hplain _, hplain _, length_unsignedNumeral_mono 10 habs,
      fun hneg hsame => ?_⟩
    have hsigns : toInt32 n < 0 ↔ signedArg modifiers n < 0 := decide_eq_decide.mp hneg
    have hnat := unsignedNumeral_inj (b := 10) (by decide) (by decide) hsame
    omega

/-- The text of every number. -/
theorem loses_number (modifiers : List Modifier) (format : NumberFormat) (n : Nat) :
    Loses (Piece.number modifiers format n).printed (Piece.number modifiers format n).textbook
      (Piece.number modifiers format n).Fits := by
  have htext : (Piece.number modifiers format n).printed = _ := numberText_eq modifiers format n
  rw [htext]
  cases format with
  | d => exact loses_signed modifiers n
  | u => exact loses_unsigned modifiers n (by decide) (by decide)
  | x => exact loses_unsigned modifiers n (by decide) (by decide)

/-- A number that fits is printed as it should be, and so is everything else. -/
theorem printed_of_fits {p : Piece} (h : p.Fits) : p.printed = p.textbook := by
  cases p with
  | number modifiers format n =>
      refine (numberText_eq modifiers format n).trans ?_
      have hcases := signedArg_cases modifiers n
      cases format with
      | d =>
          have hsame := hcases.2.2.2 h
          have hbounds : -2 ^ 31 < signedArg modifiers n ∧ signedArg modifiers n < 2 ^ 31 := h
          rw [hsame] at hbounds
          refine (itoa_eq_signedNumeral hbounds.1 hbounds.2).trans ?_
          rw [← hsame]
          rfl
      | u => exact congrArg (unsignedNumeral 10) (mod_of_fits h)
      | x => exact congrArg (unsignedNumeral 16) (mod_of_fits h)
  | _ => rfl

/-- Nothing that is printed is longer than it should be, except by a sign that should not be
there. -/
theorem length_add_count_le (p : Piece) :
    p.printed.length + p.textbook.count (byte '-') ≤
      p.textbook.length + p.printed.count (byte '-') := by
  cases p with
  | number modifiers format n =>
      obtain ⟨neg, body, neg', body', htext, htext', hplain, hplain', hle, -⟩ :=
        (loses_number modifiers format n).parts
      have hcount : ∀ neg, (sign neg).count (byte '-') = (sign neg).length := by decide
      rw [htext, htext', List.length_append, List.length_append, List.count_append,
        List.count_append, List.count_eq_zero.mpr hplain.no_sign,
        List.count_eq_zero.mpr hplain'.no_sign, hcount, hcount]
      omega
  | _ => exact Nat.le_refl _

/-- If it is as long as it should be but for the sign, what is printed begins like what should be
only if it is that. -/
theorem fits_of_append {p : Piece} {r r' : List UInt8}
    (htight : p.printed.length + p.textbook.count (byte '-') =
      p.textbook.length + p.printed.count (byte '-'))
    (h : p.printed ++ r = p.textbook ++ r') : p.Fits := by
  cases p with
  | number modifiers format n =>
      obtain ⟨neg, body, neg', body', htext, htext', hplain, hplain', -, hfits⟩ :=
        (loses_number modifiers format n).parts
      have hcount : ∀ neg, (sign neg).count (byte '-') = (sign neg).length := by decide
      rw [htext, htext', List.length_append, List.length_append, List.count_append,
        List.count_append, List.count_eq_zero.mpr hplain.no_sign,
        List.count_eq_zero.mpr hplain'.no_sign, hcount, hcount] at htight
      rw [htext, htext', List.append_assoc, List.append_assoc] at h
      have hlen : body.length = body'.length := by omega
      obtain ⟨c, cs, rfl⟩ := List.exists_cons_of_ne_nil hplain.ne_nil
      obtain ⟨c', cs', rfl⟩ := List.exists_cons_of_ne_nil hplain'.ne_nil
      cases neg with
      | false =>
          cases neg' with
          | false => exact hfits rfl (List.append_inj_left h hlen)
          | true => exact absurd (List.head_eq_of_cons_eq h) fun he =>
              hplain.no_sign (he ▸ List.mem_cons_self)
      | true =>
          cases neg' with
          | false => exact absurd (List.head_eq_of_cons_eq h) fun he =>
              hplain'.no_sign (he ▸ List.mem_cons_self)
          | true => exact hfits rfl (List.append_inj_left (List.tail_eq_of_cons_eq h) hlen)
  | _ => trivial

end Piece

/-! ## The texts of all pieces -/

/-- What is printed of a format. -/
def printedText (ps : List Piece) : List UInt8 := ps.flatMap Piece.printed

/-- What should be. -/
def textbookText (ps : List Piece) : List UInt8 := ps.flatMap Piece.textbook

theorem length_add_count_le (ps : List Piece) :
    (printedText ps).length + (textbookText ps).count (byte '-') ≤
      (textbookText ps).length + (printedText ps).count (byte '-') := by
  induction ps with
  | nil => exact Nat.le_refl _
  | cons p ps ih =>
      have hp := p.length_add_count_le
      rw [printedText, textbookText, List.flatMap_cons, List.flatMap_cons, List.length_append,
        List.length_append, List.count_append, List.count_append]
      rw [printedText, textbookText] at ih
      omega

/-- Every text is right if all of them together are right and have the right length. -/
theorem fits_of_eq {ps : List Piece}
    (htight : (printedText ps).length + (textbookText ps).count (byte '-') =
      (textbookText ps).length + (printedText ps).count (byte '-'))
    (h : printedText ps = textbookText ps) : ∀ p ∈ ps, p.Fits := by
  induction ps with
  | nil => exact nofun
  | cons p ps ih =>
      have hp := p.length_add_count_le
      have hps := length_add_count_le ps
      rw [printedText, textbookText, List.flatMap_cons, List.flatMap_cons] at htight h
      rw [List.length_append, List.length_append, List.count_append, List.count_append] at htight
      rw [printedText, textbookText] at hps
      have hfits : p.Fits := Piece.fits_of_append (by omega) h
      -- the rest is the same, too
      rw [Piece.printed_of_fits hfits] at h htight
      have hrest := ih (by rw [printedText, textbookText]; omega) (List.append_cancel_left h)
      intro q hq
      rcases List.mem_cons.mp hq with rfl | hq
      · exact hfits
      · exact hrest q hq

/-- What is printed is what should be exactly if every number fits. -/
theorem printed_eq_iff (ps : List Piece) :
    printedText ps = textbookText ps ↔ ∀ p ∈ ps, p.Fits := by
  constructor
  · intro h
    exact fits_of_eq (by rw [h]) h
  · intro h
    exact List.flatMap_congr fun p hp => Piece.printed_of_fits (h p hp)

/-! ## Storing a text -/

variable {left : List UInt8} {m m0 : Mem} {dest : Nat}

theorem putBytes_append (m : Mem) (ptr : Nat) (bs bs' : List UInt8) :
    putBytes m ptr (bs ++ bs') = putBytes (putBytes m ptr bs) (ptr + bs.length) bs' := by
  induction bs generalizing m ptr with
  | nil => rfl
  | cons b bs ih =>
      rw [List.cons_append, putBytes, putBytes, ih, List.length_cons, Nat.add_assoc,
        Nat.add_comm 1]

/-- What is stored last is what stays. -/
theorem update_putBytes (m : Mem) (ptr : Nat) (bs : List UInt8) (b c : UInt8) :
    Function.update (putBytes m ptr (bs ++ [c])) (wrap64 (ptr + bs.length)) b =
      putBytes m ptr (bs ++ [b]) := by
  rw [putBytes_append, putBytes_append, putBytes, putBytes, putBytes, putBytes,
    Function.update_idem]

/-- A byte that is stored is there, if there are not more bytes than addresses. -/
theorem putBytes_get {ptr i : Nat} {bs : List UInt8} (hword : bs.length ≤ word)
    (hi : i < bs.length) : putBytes m ptr bs (wrap64 (ptr + i)) = bs.getD i 0 := by
  induction bs generalizing m ptr i with
  | nil => exact absurd hi (Nat.not_lt_zero i)
  | cons b bs ih =>
      rw [List.length_cons] at hword hi
      cases i with
      | zero =>
          have hrest : ∀ k < bs.length, wrap64 ptr ≠ wrap64 (ptr + 1 + k) := by
            intro k hk
            rw [wrap64, wrap64, word] at *
            omega
          rw [Nat.add_zero, putBytes, putBytes_of_not_mem hrest, Function.update_self]
          rfl
      | succ i =>
          have hnext : putBytes (Function.update m (wrap64 ptr) b) (ptr + 1) bs
              (wrap64 (ptr + 1 + i)) = bs.getD i 0 := ih (by omega) (by omega)
          rw [Nat.add_assoc, Nat.add_comm 1 i] at hnext
          exact hnext

/-- Different texts of one length are told apart in memory. -/
theorem putBytes_inj {ptr : Nat} {bs bs' : List UInt8} (hlen : bs.length = bs'.length)
    (hword : bs.length ≤ word) (h : putBytes m ptr bs = putBytes m ptr bs') : bs = bs' := by
  refine List.ext_getElem hlen fun i hi hi' => ?_
  have hget : putBytes m ptr bs (wrap64 (ptr + i)) = bs.getD i 0 := putBytes_get hword hi
  rw [h, putBytes_get (hlen ▸ hword) hi', List.getD_eq_getElem _ _ hi,
    List.getD_eq_getElem _ _ hi'] at hget
  exact hget.symm

/-- A copy to somewhere else stores what is copied. -/
theorem memcpy_eq_putBytes {src : Nat} {bs : List UInt8} (h : Stands (bytesAt m src) 0 bs)
    (hapart : ∀ i < bs.length, ∀ j < bs.length, wrap64 (src + i) ≠ wrap64 (dest + j)) :
    memcpy m dest src bs.length = putBytes m dest bs := by
  induction bs generalizing m dest src with
  | nil => rfl
  | cons b bs ih =>
      have hfirst : m (wrap64 src) = b := h 0 (Nat.succ_pos _)
      rw [List.length_cons, memcpy, putBytes, hfirst]
      refine ih (fun i hi => ?_) fun i hi j hj => ?_
      · have hnext := h (i + 1) (Nat.succ_lt_succ hi)
        have hne : wrap64 (src + (i + 1)) ≠ wrap64 dest :=
          hapart (i + 1) (Nat.succ_lt_succ hi) 0 (Nat.succ_pos _)
        rw [Nat.zero_add, bytesAt] at hnext ⊢
        rw [Nat.add_assoc, Nat.add_comm 1 i, Function.update_of_ne hne, hnext]
        rfl
      · have hne := hapart (i + 1) (Nat.succ_lt_succ hi) (j + 1) (Nat.succ_lt_succ hj)
        rwa [Nat.add_assoc, Nat.add_comm 1 i, Nat.add_assoc, Nat.add_comm 1 j]

/-! ## Printing the pieces -/

namespace Printing

variable {s s' : Printing} {text : List UInt8}

/-- What has been printed.  The byte behind it may be a terminator already. -/
structure Prints (dest : Nat) (m0 : Mem) (text : List UInt8) (s : Printing) : Prop where
  printed_eq : s.printed = text.length
  mem_eq : ∀ b, Function.update s.mem (wrap64 (dest + text.length)) b =
    putBytes m0 dest (text ++ [b])

/-- Bytes that are stored behind what has been printed. -/
theorem Prints.putBytes (h : s.Prints dest m0 text) {bs : List UInt8} (hbs : bs ≠ []) :
    Sprintf.putBytes s.mem (dest + s.printed) bs = Sprintf.putBytes m0 dest (text ++ bs) := by
  obtain ⟨b, bs, rfl⟩ := List.exists_cons_of_ne_nil hbs
  have hall := putBytes_append m0 dest (text ++ [b]) bs
  rw [List.append_assoc, List.length_append, List.length_singleton] at hall
  rw [Sprintf.putBytes, h.printed_eq, h.mem_eq]
  exact hall.symm

/-- What the rest of the memory holds. -/
theorem Prints.frame (h : s.Prints dest m0 text) {x : Nat}
    (hx : ∀ i ≤ text.length, x ≠ wrap64 (dest + i)) : s.mem x = m0 x := by
  have hmem := congrFun (h.mem_eq 0) x
  rw [Function.update_of_ne (hx _ (Nat.le_refl _)), putBytes_of_not_mem] at hmem
  · exact hmem
  · intro i hi
    rw [List.length_append, List.length_singleton] at hi
    exact hx i (Nat.le_of_lt_succ hi)

theorem Prints.put (h : s.Prints dest m0 text) (c : UInt8) :
    (s.put dest c).Prints dest m0 (text ++ [c]) := by
  refine ⟨?_, fun b => ?_⟩
  · rw [List.length_append, List.length_singleton, ← h.printed_eq]
    rfl
  · have hmem : (s.put dest c).mem = Sprintf.putBytes m0 dest (text ++ [c]) := by
      rw [← h.putBytes (List.cons_ne_nil c [])]
      rfl
    rw [hmem, putBytes_append _ _ (text ++ [c])]
    rfl

theorem Prints.foldl_put (h : s.Prints dest m0 text) (bs : List UInt8) :
    (bs.foldl (Printing.put dest) s).Prints dest m0 (text ++ bs) := by
  induction bs generalizing s text with
  | nil =>
      rw [List.append_nil]
      exact h
  | cons b bs ih =>
      rw [List.append_cons]
      exact ih (h.put b)

/-- What is printed does not depend on the format and the arguments that are left. -/
theorem Prints.congr (h : s.Prints dest m0 text) (scan : Scan) (args : List VaArg) :
    Prints dest m0 text { s with scan := scan, args := args } := ⟨h.printed_eq, h.mem_eq⟩

end Printing

/-- The string that an argument stands for.  One in memory is apart from the first `size` bytes
of `dest` and the one behind them. -/
def ArgString (m : Mem) (dest size : Nat) (text : List UInt8) : VaArg → Prop
  | .text str => str = text
  | .value ptr => 0 ∉ text ∧ Stands (bytesAt m ptr) 0 (text ++ [0]) ∧
      ∀ i ≤ text.length, ∀ j ≤ size, wrap64 (ptr + i) ≠ wrap64 (dest + j)

/-- The argument of a piece is one that it takes. -/
def Piece.Matches (m : Mem) (dest size : Nat) : Piece → Prop
  | .char c => c ≠ '%' ∧ c ≠ '\x00'
  | .str arg text => ArgString m dest size text arg
  | _ => True

/-- A string in memory is shorter than the memory. -/
theorem length_lt_of_stands {ptr : Nat} {text : List UInt8} (hzero : 0 ∉ text)
    (h : Stands (bytesAt m ptr) 0 (text ++ [0])) : text.length < word := by
  by_contra hlong
  obtain ⟨d, hd⟩ := Nat.exists_eq_add_of_le' (Nat.not_lt.mp hlong)
  have hlt : d < text.length := by
    rw [hd]
    exact Nat.lt_add_of_pos_right (by decide)
  obtain ⟨htext, hterm⟩ := stands_append.mp h
  -- the addresses come round, and the terminator with them
  have hsame : bytesAt m ptr text.length = bytesAt m ptr d := by
    rw [bytesAt, bytesAt, hd, ← Nat.add_assoc, wrap64, wrap64, Nat.add_mod_right]
  have hend : bytesAt m ptr (0 + text.length) = 0 := hterm 0 Nat.one_pos
  have hearly := htext d hlt
  rw [Nat.zero_add] at hend hearly
  rw [← hsame, hend, List.getD_eq_getElem _ _ hlt] at hearly
  exact hzero (hearly ▸ List.getElem_mem hlt)

namespace Printing

variable {s : Printing} {text : List UInt8}

/-- A string is printed. -/
theorem Prints.strcpy (h : s.Prints dest m0 text) {size : Nat} {str : List UInt8} {arg : VaArg}
    (harg : ArgString m0 dest size str arg) (hsize : text.length + str.length ≤ size) :
    ∃ s', s.strcpy dest arg = .ret s' ∧ s'.Prints dest m0 (text ++ str) ∧ s'.scan = s.scan ∧
      s'.args = s.args := by
  have hprints : ∀ s' : Printing, s'.printed = s.printed + str.length →
      s'.mem = Sprintf.putBytes s.mem (dest + s.printed) (str ++ [0]) →
      s'.Prints dest m0 (text ++ str) := by
    intro s' hprinted hmem
    refine ⟨by rw [hprinted, h.printed_eq, List.length_append], fun b => ?_⟩
    rw [hmem, h.putBytes (by simp), ← List.append_assoc, update_putBytes]
  cases arg with
  | text str' =>
      obtain rfl : str' = str := harg
      exact ⟨_, rfl, hprints _ rfl rfl, rfl, rfl⟩
  | value ptr =>
      obtain ⟨hzero, hstands, hapart⟩ := harg
      have hlen := length_lt_of_stands hzero hstands
      -- what has been printed does not lie in the string
      have hkeep : Stands (bytesAt s.mem ptr) 0 (str ++ [0]) := by
        intro i hi
        rw [← hstands i hi, bytesAt, bytesAt, Nat.zero_add]
        rw [List.length_append, List.length_singleton] at hi
        exact h.frame fun j hj => hapart i (Nat.le_of_lt_succ hi) j (by omega)
      have hcopy : memcpy s.mem (dest + s.printed) ptr (str ++ [0]).length =
          Sprintf.putBytes s.mem (dest + s.printed) (str ++ [0]) := by
        refine memcpy_eq_putBytes hkeep fun i hi j hj => ?_
        rw [List.length_append, List.length_singleton] at hi hj
        rw [h.printed_eq, Nat.add_assoc]
        exact hapart i (Nat.le_of_lt_succ hi) (text.length + j) (by omega)
      rw [List.length_append, List.length_singleton] at hcopy
      refine ⟨{ s with
        mem := memcpy s.mem (dest + s.printed) ptr (str.length + 1)
        printed := s.printed + str.length
        accesses := s.accesses ++ [.load ptr (str.length + 1), .store s.printed (str.length + 1)] },
        ?_, hprints _ rfl hcopy, rfl, rfl⟩
      rw [Printing.strcpy, strlen_stands hkeep hzero hlen]
      rfl

/-! ## The loops over the format -/

/-- The inner loop reads the modifiers and writes the number. -/
theorem loop_number (modifiers : List Modifier) (format : NumberFormat) {n : Nat}
    {args : List VaArg} {longValue : Bool} (hscan : s.scan = .number longValue)
    (hargs : s.args = .value n :: args) :
    Printing.loop left dest (modifiers.map Modifier.char ++ [format.char]) s =
      { s with scan := .text, args := args }.strcpy dest
        (.text (numberText format.char (longValue || !modifiers.isEmpty) n)) := by
  induction modifiers generalizing s longValue with
  | nil =>
      have hstep : s.step left dest format.char =
          { s with scan := .text, args := args }.strcpy dest
            (.text (numberText format.char longValue n)) := by
        rw [Printing.step, hscan]
        cases format <;> simp [Printing.numberChar, NumberFormat.char, hargs]
      rw [List.map_nil, List.nil_append, Printing.loop, hstep, List.isEmpty_nil, Bool.not_true,
        Bool.or_false]
      rfl
  | cons modifier modifiers ih =>
      have hstep : s.step left dest modifier.char = .ret { s with scan := .number true } := by
        rw [Printing.step, hscan]
        cases modifier <;> simp [Printing.numberChar, Modifier.char]
      rw [List.map_cons, List.cons_append, Printing.loop, hstep, Outcome.ret_bind,
        ih (s := { s with scan := .number true }) rfl hargs]
      simp

/-- The outer loop leaves the first character of a number to the inner one. -/
theorem step_directive (modifiers : List Modifier) (format : NumberFormat)
    (hscan : s.scan = .directive) :
    Printing.loop left dest (modifiers.map Modifier.char ++ [format.char]) s =
      Printing.loop left dest (modifiers.map Modifier.char ++ [format.char])
        { s with scan := .number false } := by
  have hfirst : ∀ c ∈ ['l', 'z', 'd', 'u', 'x'], s.step left dest c =
      { s with scan := .number false }.step left dest c := by
    intro c hc
    rw [Printing.step, hscan]
    simp only [List.mem_cons, List.not_mem_nil, or_false] at hc
    rcases hc with rfl | rfl | rfl | rfl | rfl <;> rfl
  cases modifiers with
  | nil =>
      rw [List.map_nil, List.nil_append, Printing.loop, Printing.loop,
        hfirst _ (by cases format <;> simp [NumberFormat.char])]
  | cons modifier modifiers =>
      rw [List.map_cons, List.cons_append, Printing.loop, Printing.loop,
        hfirst _ (by cases modifier <;> simp [Modifier.char])]

/-- The nibbles of a pointer are its digits. -/
theorem hexBytes_eq (n : Nat) : hexBytes 16 n = (Piece.ptr n).textbook := by
  have hchar : ∀ d : Fin 16, hexChar d = digitByte d := by decide
  have hprefix : (Piece.ptr n).textbook = byte '0' :: byte 'x' ::
      (List.range 16).reverse.map fun i => digitByte (n % word / 16 ^ i % 16) := rfl
  rw [hexBytes, hprefix]
  congr 2
  refine List.map_congr_left fun i hi => ?_
  have hi16 : i < 16 := List.mem_range.mp (List.mem_reverse.mp hi)
  have hshift : 4 * i % 64 = 4 * i := Nat.mod_eq_of_lt (by omega)
  rw [hshift, Nat.shiftRight_eq_div_pow, Nat.pow_mul]
  exact hchar ⟨n % word / 16 ^ i % 16, Nat.mod_lt _ (by decide)⟩

theorem step_percent (hscan : s.scan = .text) :
    s.step left dest '%' = .ret { s with scan := .directive } := by
  simp only [Printing.step, hscan, if_true]

/-- A `%` and the character behind it. -/
theorem loop_directive (hscan : s.scan = .text) (c : Char) (fmt : List Char) :
    Printing.loop left dest ('%' :: c :: fmt) s =
      { s with scan := .text }.directive left dest c >>= Printing.loop left dest fmt := by
  rw [Printing.loop, step_percent hscan]
  rfl

/-- A piece of the format is printed. -/
theorem Prints.piece (h : s.Prints dest m0 text) (hscan : s.scan = .text) {p : Piece} {size : Nat}
    {args : List VaArg} (hargs : s.args = p.args ++ args) (hmatch : p.Matches m0 dest size)
    (hsize : text.length + p.printed.length ≤ size) :
    ∃ s', Printing.loop left dest p.fmt s = .ret s' ∧ s'.Prints dest m0 (text ++ p.printed) ∧
      s'.scan = .text ∧ s'.args = args := by
  cases p with
  | char c =>
      have hstep : s.step left dest c = .ret (s.put dest (byte c)) := by
        simp only [Printing.step, hscan, if_neg hmatch.1]
      refine ⟨s.put dest (byte c), ?_, h.put _, hscan, hargs⟩
      rw [Piece.fmt, Printing.loop, hstep]
      rfl
  | str arg str =>
      obtain ⟨s', hcopy, hprints, hscan', hargs'⟩ := (h.congr .text args).strcpy hmatch hsize
      refine ⟨s', ?_, hprints, hscan', hargs'⟩
      have hswitch : { s with scan := .text }.directive left dest 's' = .ret s' := by
        rw [← hcopy]
        simp only [Printing.directive, hargs, Piece.args, List.cons_append, List.nil_append]
      rw [Piece.fmt, loop_directive hscan, hswitch]
      rfl
  | chr n =>
      refine ⟨_, ?_, (h.congr .text args).put (UInt8.ofNat n), rfl, rfl⟩
      have hswitch : { s with scan := .text }.directive left dest 'c' =
          .ret (Printing.put dest { s with scan := .text, args := args } (UInt8.ofNat n)) := by
        simp only [Printing.directive, hargs, Piece.args, List.cons_append, List.nil_append]
      rw [Piece.fmt, loop_directive hscan, hswitch]
      rfl
  | percent =>
      refine ⟨_, ?_, (h.congr .text s.args).put (byte '%'), rfl, hargs⟩
      rw [Piece.fmt, loop_directive hscan]
      rfl
  | ptr n =>
      have hprints := (h.congr .text args).foldl_put (hexBytes 16 n)
      rw [hexBytes_eq] at hprints
      refine ⟨_, ?_, hprints, by rw [Printing.foldl_put], by rw [Printing.foldl_put]⟩
      have hswitch : { s with scan := .text }.directive left dest 'p' =
          .ret ((hexBytes 16 n).foldl (Printing.put dest)
            { s with scan := .text, args := args }) := by
        simp only [Printing.directive, Printing.putHex, hargs, Piece.args, List.cons_append,
          List.nil_append]
      rw [Piece.fmt, loop_directive hscan, hswitch, hexBytes_eq]
      rfl
  | number modifiers format n =>
      have hnumber : ArgString m0 dest size (Piece.number modifiers format n).printed
          (.text (numberText format.char (!modifiers.isEmpty) n)) := rfl
      obtain ⟨s', hcopy, hprints, hscan', hargs'⟩ := (h.congr .text args).strcpy hnumber hsize
      refine ⟨s', ?_, hprints, hscan', hargs'⟩
      have hloop : Printing.loop left dest (modifiers.map Modifier.char ++ [format.char])
          { s with scan := .number false } = _ := loop_number modifiers format rfl hargs
      rw [Bool.false_or] at hloop
      rw [Piece.fmt, Printing.loop, step_percent hscan, Outcome.ret_bind,
        step_directive modifiers format rfl]
      exact hloop.trans hcopy

/-- The same for a whole format. -/
theorem Prints.pieces {ps : List Piece} (h : s.Prints dest m0 text) (hscan : s.scan = .text)
    {size : Nat} (hargs : s.args = ps.flatMap Piece.args)
    (hmatch : ∀ p ∈ ps, p.Matches m0 dest size)
    (hsize : text.length + (printedText ps).length ≤ size) :
    ∃ s', Printing.loop left dest (ps.flatMap Piece.fmt) s = .ret s' ∧
      s'.Prints dest m0 (text ++ printedText ps) ∧ s'.scan = .text := by
  induction ps generalizing s text with
  | nil =>
      refine ⟨s, rfl, ?_, hscan⟩
      rw [printedText, List.flatMap_nil, List.append_nil]
      exact h
  | cons p ps ih =>
      have hlen : (printedText (p :: ps)).length = p.printed.length + (printedText ps).length := by
        rw [printedText, List.flatMap_cons, List.length_append, printedText]
      rw [List.flatMap_cons] at hargs
      obtain ⟨s1, hloop, hprints, hscan1, hargs1⟩ :=
        h.piece hscan hargs (hmatch p List.mem_cons_self) (by omega)
      obtain ⟨s2, hrest, hprints2, hscan2⟩ := ih hprints hscan1 hargs1
        (fun q hq => hmatch q (List.mem_cons_of_mem p hq)) (by rw [List.length_append]; omega)
      refine ⟨s2, ?_, ?_, hscan2⟩
      · rw [List.flatMap_cons, loop_append, hloop]
        exact hrest
      · rw [printedText, List.flatMap_cons, ← List.append_assoc]
        exact hprints2

end Printing

/-- A text and a terminator are stored, and nothing else. -/
def Stores (m : Mem) (dest : Nat) (text : List UInt8) (s : Printing) : Prop :=
  s.printed = text.length ∧ s.mem = putBytes m dest (text ++ [0])

/-- `_sprintf` stores what the pieces of its format print. -/
theorem sprintf_stores (left : List UInt8) {ps : List Piece}
    (hmatch : ∀ p ∈ ps, p.Matches m dest (printedText ps).length) :
    ∃ s, sprintf left m dest (ps.flatMap Piece.fmt) (ps.flatMap Piece.args) = .ret s ∧
      Stores m dest (printedText ps) s := by
  have hstart : Printing.Prints dest m [] ⟨m, 0, .text, ps.flatMap Piece.args, []⟩ :=
    ⟨rfl, fun _ => rfl⟩
  obtain ⟨s, hloop, hprints, hscan⟩ : ∃ s, Printing.loop left dest (ps.flatMap Piece.fmt)
      ⟨m, 0, .text, ps.flatMap Piece.args, []⟩ = .ret s ∧
        s.Prints dest m ([] ++ printedText ps) ∧ s.scan = .text :=
    hstart.pieces rfl rfl hmatch (Nat.zero_add _).le
  rw [List.nil_append] at hprints
  refine ⟨s.terminate dest, ?_, hprints.printed_eq, ?_⟩
  · rw [sprintf, hloop, Outcome.ret_bind]
    simp only [hscan]
  · rw [← hprints.mem_eq 0, ← hprints.printed_eq]
    rfl

/-- `_sprintf` stores the text that its format and its arguments stand for, and a terminator,
exactly if every signed number lies between the smallest and the greatest `int`, and every
unsigned one is an `unsigned int`. -/
theorem sprintf_iff (left : List UInt8) {ps : List Piece}
    (hmatch : ∀ p ∈ ps, p.Matches m dest (printedText ps).length) :
    ∃ s, sprintf left m dest (ps.flatMap Piece.fmt) (ps.flatMap Piece.args) = .ret s ∧
      ((∀ p ∈ ps, p.Fits) → Stores m dest (textbookText ps) s) ∧
      ((textbookText ps).length < word → Stores m dest (textbookText ps) s →
        ∀ p ∈ ps, p.Fits) := by
  obtain ⟨s, hret, hstores⟩ := sprintf_stores left hmatch
  refine ⟨s, hret, fun hfits => ?_, fun hword htext => ?_⟩
  · rw [← (printed_eq_iff ps).mpr hfits]
    exact hstores
  · have hlen : (printedText ps).length = (textbookText ps).length :=
      hstores.1.symm.trans htext.1
    have hmem := hstores.2.symm.trans htext.2
    refine (printed_eq_iff ps).mp (List.append_cancel_right (putBytes_inj ?_ ?_ hmem))
    · rw [List.length_append, List.length_append, hlen]
    · rw [List.length_append, List.length_singleton, hlen]
      exact hword

/-- A memory with the string `h`. -/
def stringMem (x : Nat) : UInt8 := if x = 0x2000 then byte 'h' else 0

/-- A string in memory, a number with modifiers and a pointer. -/
def devicePieces : List Piece :=
  [.str (.value 0x2000) [byte 'h'], .number [.l, .z] .d (word - 7), .ptr 0x40]

/-- They are printed as they should be. -/
theorem sprintf_iff_device : ∃ s,
    sprintf [] stringMem 0x1000 ['%', 's', '%', 'l', 'z', 'd', '%', 'p']
      [.value 0x2000, .value (word - 7), .value 0x40] = .ret s ∧
    Stores stringMem 0x1000 (bytes "h-70x0000000000000040") s := by
  have hmatch : ∀ p ∈ devicePieces,
      p.Matches stringMem 0x1000 (printedText devicePieces).length := by
    intro p hp
    simp only [devicePieces, List.mem_cons, List.not_mem_nil, or_false] at hp
    rcases hp with rfl | rfl | rfl
    · exact ⟨by decide, by rw [Stands]; decide, by decide +kernel⟩
    · trivial
    · trivial
  obtain ⟨s, hret, hstores, -⟩ := sprintf_iff [] hmatch
  refine ⟨s, hret, hstores fun p hp => ?_⟩
  simp only [devicePieces, List.mem_cons, List.not_mem_nil, or_false] at hp
  rcases hp with rfl | rfl | rfl
  · trivial
  · exact ⟨by decide, by decide⟩
  · trivial

/-- `%lu` of `2^32` prints `0`. -/
theorem sprintf_long_wrong : ∃ s,
    sprintf [] (fun _ => 0) 0x1000 ['%', 'l', 'u'] [.value (2 ^ 32)] = .ret s ∧
      Stores (fun _ => 0) 0x1000 (bytes "0") s ∧
      textbookText [.number [.l] .u (2 ^ 32)] = bytes "4294967296" ∧
      ¬ Stores (fun _ => 0) 0x1000 (textbookText [.number [.l] .u (2 ^ 32)]) s := by
  have hmatch : ∀ p ∈ [Piece.number [.l] .u (2 ^ 32)],
      p.Matches (fun _ => 0) 0x1000 (printedText [.number [.l] .u (2 ^ 32)]).length := by
    intro p hp
    rw [List.mem_singleton.mp hp]
    trivial
  obtain ⟨s, hret, hstores⟩ := sprintf_stores [] hmatch
  have hprinted : printedText [.number [.l] .u (2 ^ 32)] = bytes "0" := by decide +kernel
  have htext : textbookText [.number [.l] .u (2 ^ 32)] = bytes "4294967296" := by decide +kernel
  rw [hprinted] at hstores
  refine ⟨s, hret, hstores, htext, fun hwrong => ?_⟩
  rw [htext] at hwrong
  exact absurd (hstores.1.symm.trans hwrong.1) (by decide)

end Sprintf

end UlmerOS
