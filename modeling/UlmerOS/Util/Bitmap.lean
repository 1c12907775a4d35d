import Mathlib.Data.List.Basic
import Mathlib.Data.Nat.Bitwise

/-!
# Bitmaps

`libutil/bitmap.c`: a bit per index, eight to a byte, least significant first.
The assertions that an index is below `size` are compiled out of the release
build and not modelled.
-/

namespace UlmerOS

/-- `bitmap_t`. -/
structure Bitmap where
  size : Nat
  bytes : List UInt8
deriving DecidableEq, Repr

/-- `BITMAP_BYTE_SIZE`. -/
def bitmapByteSize (b : Nat) : Nat := if b % 8 = 0 then b >>> 3 else (b >>> 3) + 1

/-- `byte & BIT(j)`. -/
def byteBit (byte : UInt8) (j : Nat) : Bool := byte.toNat.testBit j

/-- `bitmap_get`. -/
def bitmapGet (bmp : Bitmap) (index : Nat) : Bool :=
  byteBit (bmp.bytes.getD (index / 8) 0) (index % 8)

/-- `bitmap_set`. -/
def bitmapSet (bmp : Bitmap) (index : Nat) : Bitmap :=
  { bmp with bytes := bmp.bytes.modify (index / 8) (· ||| UInt8.ofNat (2 ^ (index % 8))) }

/-- `bitmap_clr`. -/
def bitmapClr (bmp : Bitmap) (index : Nat) : Bitmap :=
  { bmp with bytes := bmp.bytes.modify (index / 8) (· &&& ~~~UInt8.ofNat (2 ^ (index % 8))) }

/-- The inner loop of `bitmap_find_free`: the first clear bit of a byte. -/
def findFreeBit (byte : UInt8) : Nat :=
  ((List.range 8).find? (fun j => !byteBit byte j)).getD 0

/-- The outer loop of `bitmap_find_free`, from byte `i` on. -/
def findFreeFrom : Nat → List UInt8 → Option Nat
  | _, [] => none
  | i, byte :: rest =>
      if byte ≠ 0xff then some (i * 8 + findFreeBit byte) else findFreeFrom (i + 1) rest

/-- `bitmap_find_free`, with `none` for `(size_t)-1`. -/
def bitmapFindFree (bmp : Bitmap) : Option Nat :=
  findFreeFrom 0 (bmp.bytes.take (bitmapByteSize bmp.size))

/-- The two loops of `bitmap_find_n_free`, as one over the bits from `k` on.  `bit` is
the first bit of the run of `freeBits` clear bits that ends before `k`. -/
def findNFree (bmp : Bitmap) (n : Nat) : Nat → Nat → Nat → Option Nat → Option Nat
  | 0, _, _, _ => none
  | rounds + 1, k, freeBits, bit =>
      if bitmapGet bmp k then findNFree bmp n rounds (k + 1) 0 none
      else
        let (freeBits, bit) :=
          if freeBits = 0 then
            if k % n ≠ 0 then (0, bit) else (1, some k)
          else (freeBits + 1, bit)
        if freeBits ≥ n then bit else findNFree bmp n rounds (k + 1) freeBits bit

/-- `bitmap_find_n_free`, with `none` for `(size_t)-1`. -/
def bitmapFindNFree (bmp : Bitmap) (n : Nat) : Option Nat :=
  findNFree bmp n (8 * bitmapByteSize bmp.size) 0 0 none

/-! ## Reading back -/

theorem byteBit_set (byte : UInt8) {i j : Nat} (hi : i < 8) :
    byteBit (byte ||| UInt8.ofNat (2 ^ i)) j = (byteBit byte j || decide (j = i)) := by
  have hpow : 2 ^ i < 256 := Nat.pow_lt_pow_right (by decide) hi
  have hval : (UInt8.ofNat (2 ^ i)).toNat = 2 ^ i := Nat.mod_eq_of_lt hpow
  rw [byteBit, UInt8.toNat_or, Nat.testBit_or, hval, Nat.testBit_two_pow, byteBit]
  simp [eq_comm]

theorem byteBit_clr (byte : UInt8) {i j : Nat} (hi : i < 8) (hj : j < 8) :
    byteBit (byte &&& ~~~UInt8.ofNat (2 ^ i)) j = (byteBit byte j && !decide (j = i)) := by
  have hpow : 2 ^ i < 256 := Nat.pow_lt_pow_right (by decide) hi
  have hval : (UInt8.ofNat (2 ^ i)).toNat = 2 ^ i := Nat.mod_eq_of_lt hpow
  have hnot : (~~~UInt8.ofNat (2 ^ i)).toNat = 2 ^ 8 - (2 ^ i + 1) := by
    rw [UInt8.toNat_not, hval, UInt8.size]
    omega
  rw [byteBit, UInt8.toNat_and, Nat.testBit_and, hnot,
    Nat.testBit_two_pow_sub_succ (by simpa using hpow), Nat.testBit_two_pow, byteBit]
  simp [hj, eq_comm]

theorem getD_modify {l : List UInt8} {f : UInt8 → UInt8} {i j : Nat} (hi : i < l.length) :
    (l.modify i f).getD j 0 = if i = j then f (l.getD j 0) else l.getD j 0 := by
  rw [List.getD_eq_getElem?_getD, List.getElem?_modify, List.getD_eq_getElem?_getD]
  by_cases hij : i = j
  · subst hij
    simp [hi]
  · simp [hij]

theorem bitmapGet_set {bmp : Bitmap} {i : Nat} (hi : i / 8 < bmp.bytes.length) (j : Nat) :
    bitmapGet (bitmapSet bmp i) j = (bitmapGet bmp j || decide (j = i)) := by
  rw [bitmapGet, bitmapSet, getD_modify hi]
  by_cases hbyte : i / 8 = j / 8
  · rw [if_pos hbyte, byteBit_set _ (Nat.mod_lt _ (by decide)), bitmapGet]
    congr 1
    simp only [decide_eq_decide]
    omega
  · have hne : j ≠ i := by rintro rfl; exact hbyte rfl
    rw [if_neg hbyte, bitmapGet]
    simp [hne]

theorem bitmapGet_clr {bmp : Bitmap} {i : Nat} (hi : i / 8 < bmp.bytes.length) (j : Nat) :
    bitmapGet (bitmapClr bmp i) j = (bitmapGet bmp j && !decide (j = i)) := by
  rw [bitmapGet, bitmapClr, getD_modify hi]
  by_cases hbyte : i / 8 = j / 8
  · rw [if_pos hbyte, byteBit_clr _ (Nat.mod_lt _ (by decide)) (Nat.mod_lt _ (by decide)),
      bitmapGet]
    congr 2
    simp only [decide_eq_decide]
    omega
  · have hne : j ≠ i := by rintro rfl; exact hbyte rfl
    rw [if_neg hbyte, bitmapGet]
    simp [hne]

/-! ## Searching -/

/-- A byte other than `0xff` has a clear bit. -/
theorem byteBit_findFreeBit {byte : UInt8} (h : byte ≠ 0xff) :
    findFreeBit byte < 8 ∧ byteBit byte (findFreeBit byte) = false := by
  have hall : ∀ n : Fin 256, UInt8.ofNat n ≠ 0xff →
      findFreeBit (UInt8.ofNat n) < 8 ∧
        byteBit (UInt8.ofNat n) (findFreeBit (UInt8.ofNat n)) = false := by decide +kernel
  have := hall ⟨byte.toNat, byte.toNat_lt⟩
  rw [UInt8.ofNat_toNat] at this
  exact this h

/-- The index found is that of a clear bit. -/
theorem findFreeFrom_clear {l : List UInt8} {i k : Nat} (h : findFreeFrom i l = some k) :
    i * 8 ≤ k ∧ k / 8 < i + l.length ∧ byteBit (l.getD (k / 8 - i) 0) (k % 8) = false := by
  induction l generalizing i with
  | nil => cases h
  | cons byte rest ih =>
      rw [findFreeFrom] at h
      split at h
      · rename_i hne
        obtain rfl := Option.some.inj h
        obtain ⟨hlt, hclear⟩ := byteBit_findFreeBit hne
        have hdiv : (i * 8 + findFreeBit byte) / 8 = i := by omega
        have hmod : (i * 8 + findFreeBit byte) % 8 = findFreeBit byte := by omega
        refine ⟨by omega, by rw [hdiv, List.length_cons]; omega, ?_⟩
        rw [hdiv, hmod, Nat.sub_self]
        exact hclear
      · obtain ⟨h1, h2, h3⟩ := ih h
        refine ⟨by omega, by rw [List.length_cons]; omega, ?_⟩
        rw [show k / 8 - i = (k / 8 - (i + 1)) + 1 by omega]
        exact h3

theorem bitmapFindFree_clear {bmp : Bitmap} {k : Nat} (h : bitmapFindFree bmp = some k) :
    k / 8 < bmp.bytes.length ∧ bitmapGet bmp k = false := by
  obtain ⟨-, hlt, hclear⟩ := findFreeFrom_clear h
  rw [Nat.zero_add, List.length_take] at hlt
  refine ⟨by omega, ?_⟩
  rw [Nat.sub_zero, List.getD_eq_getElem?_getD, List.getElem?_take_of_lt (by omega)] at hclear
  rw [bitmapGet, List.getD_eq_getElem?_getD]
  exact hclear

/-- The bits before the one that is found are set. -/
theorem byteBit_before {byte : UInt8} {j : Nat} (hj : j < findFreeBit byte) :
    byteBit byte j = true := by
  have hall : ∀ n : Fin 256, ∀ j : Fin 8, j < findFreeBit (UInt8.ofNat n) →
      byteBit (UInt8.ofNat n) j = true := by decide +kernel
  have hlt : findFreeBit byte < 8 := by
    by_cases hff : byte = 0xff
    · rw [hff]
      decide
    · exact (byteBit_findFreeBit hff).1
  have := hall ⟨byte.toNat, byte.toNat_lt⟩ ⟨j, by omega⟩
  rw [UInt8.ofNat_toNat] at this
  exact this hj

theorem byteBit_ff {j : Nat} (hj : j < 8) : byteBit 0xff j = true := by
  have hall : ∀ j : Fin 8, byteBit 0xff j = true := by decide
  exact hall ⟨j, hj⟩

theorem findFreeFrom_least {l : List UInt8} {i k j : Nat} (h : findFreeFrom i l = some k)
    (hij : i * 8 ≤ j) (hjk : j < k) : byteBit (l.getD (j / 8 - i) 0) (j % 8) = true := by
  induction l generalizing i with
  | nil => cases h
  | cons byte rest ih =>
      rw [findFreeFrom] at h
      split at h
      · rename_i hne
        obtain rfl := Option.some.inj h
        have hlt := (byteBit_findFreeBit hne).1
        rw [show j / 8 - i = 0 by omega]
        have hbefore : j % 8 < findFreeBit byte := by omega
        exact byteBit_before hbefore
      · rename_i hff
        by_cases hj : j / 8 = i
        · rw [show j / 8 - i = 0 by omega, not_not.mp hff]
          exact byteBit_ff (Nat.mod_lt _ (by decide))
        · rw [show j / 8 - i = (j / 8 - (i + 1)) + 1 by omega]
          exact ih h (by omega)

theorem findFreeFrom_none {l : List UInt8} {i j : Nat} (h : findFreeFrom i l = none)
    (hij : i * 8 ≤ j) (hjl : j / 8 < i + l.length) :
    byteBit (l.getD (j / 8 - i) 0) (j % 8) = true := by
  induction l generalizing i with
  | nil =>
      rw [List.length_nil] at hjl
      omega
  | cons byte rest ih =>
      rw [findFreeFrom] at h
      split at h
      · cases h
      · rename_i hff
        by_cases hj : j / 8 = i
        · rw [show j / 8 - i = 0 by omega, not_not.mp hff]
          exact byteBit_ff (Nat.mod_lt _ (by decide))
        · rw [show j / 8 - i = (j / 8 - (i + 1)) + 1 by omega]
          exact ih h (by omega) (by rw [List.length_cons] at hjl; omega)

/-- The index found is the least of a clear bit. -/
theorem bitmapFindFree_least {bmp : Bitmap} {k j : Nat} (h : bitmapFindFree bmp = some k)
    (hjk : j < k) : bitmapGet bmp j = true := by
  obtain ⟨-, hlt, -⟩ := findFreeFrom_clear h
  have hset := findFreeFrom_least h (by omega) hjk
  rw [Nat.zero_add, List.length_take] at hlt
  rw [Nat.sub_zero, List.getD_eq_getElem?_getD, List.getElem?_take_of_lt (by omega)] at hset
  rw [bitmapGet, List.getD_eq_getElem?_getD]
  exact hset

/-- No index is found if every bit is set. -/
theorem bitmapFindFree_none {bmp : Bitmap} {j : Nat} (h : bitmapFindFree bmp = none)
    (hj : j / 8 < bmp.bytes.length) (hsize : j / 8 < bitmapByteSize bmp.size) :
    bitmapGet bmp j = true := by
  have hset := findFreeFrom_none h (j := j) (by omega) (by rw [List.length_take]; omega)
  rw [Nat.sub_zero, List.getD_eq_getElem?_getD, List.getElem?_take_of_lt (by omega)] at hset
  rw [bitmapGet, List.getD_eq_getElem?_getD]
  exact hset

/-! ## Searching for a run -/

/-- Where the search of `bitmap_find_n_free` is at bit `k`: the last `freeBits` bits are
clear and start where a run may start, and no run starts before them. -/
structure Scan (bmp : Bitmap) (n k freeBits : Nat) (bit : Option Nat) : Prop where
  lt : freeBits < n
  le : freeBits ≤ k
  start : freeBits ≠ 0 → bit = some (k - freeBits) ∧ (k - freeBits) % n = 0
  clear : ∀ j, k - freeBits ≤ j → j < k → bitmapGet bmp j = false
  broken : ∀ c, c % n = 0 → c < k - freeBits →
    ∃ j, c ≤ j ∧ j < c + n ∧ bitmapGet bmp j = true

/-- What the search of `bitmap_find_n_free` comes to, when `total` bits are looked at. -/
structure Found (bmp : Bitmap) (n total b : Nat) : Prop where
  aligned : b % n = 0
  le : b + n ≤ total
  clear : ∀ j, b ≤ j → j < b + n → bitmapGet bmp j = false
  least : ∀ c, c % n = 0 → c < b → ∃ j, c ≤ j ∧ j < c + n ∧ bitmapGet bmp j = true

/-- A bit that is set ends the run. -/
theorem Scan.used {bmp : Bitmap} {n k freeBits : Nat} {bit : Option Nat}
    (h : Scan bmp n k freeBits bit) (hn : 0 < n) (hset : bitmapGet bmp k = true) :
    Scan bmp n (k + 1) 0 none := by
  refine ⟨hn, Nat.zero_le _, fun h0 => absurd rfl h0, fun j h1 h2 => by omega, ?_⟩
  intro c hc hlt
  by_cases hck : c < k - freeBits
  · exact h.broken c hc hck
  · have hlt := h.lt
    exact ⟨k, by omega, by omega, hset⟩

/-- A bit that is clear, where no run has begun and none may start. -/
theorem Scan.skip {bmp : Bitmap} {n k : Nat} {bit : Option Nat} (h : Scan bmp n k 0 bit)
    (hk : k % n ≠ 0) : Scan bmp n (k + 1) 0 bit := by
  refine ⟨h.lt, Nat.zero_le _, fun h0 => absurd rfl h0, fun j h1 h2 => by omega, ?_⟩
  intro c hc hlt
  refine h.broken c hc ?_
  by_contra hge
  obtain rfl : c = k := by omega
  exact hk hc

/-- A bit that is clear starts a run or makes it longer. -/
theorem Scan.grow {bmp : Bitmap} {n k freeBits : Nat} {bit : Option Nat}
    (h : Scan bmp n k freeBits bit) (hclear : bitmapGet bmp k = false)
    (hk : freeBits = 0 → k % n = 0) (hlt : freeBits + 1 < n) :
    Scan bmp n (k + 1) (freeBits + 1) (if freeBits = 0 then some k else bit) := by
  have hle := h.le
  have hsub : k + 1 - (freeBits + 1) = k - freeBits := by omega
  refine ⟨hlt, by omega, fun _ => ?_, fun j h1 h2 => ?_, fun c hc hck => ?_⟩
  · rw [hsub]
    split
    · rename_i h0
      rw [h0, Nat.sub_zero]
      exact ⟨rfl, hk h0⟩
    · rename_i h0
      exact h.start h0
  · by_cases hj : j = k
    · rw [hj]
      exact hclear
    · exact h.clear j (by omega) (by omega)
  · exact h.broken c hc (by omega)

/-- The run that is long enough is the one that was looked for. -/
theorem Scan.found {bmp : Bitmap} {n k freeBits : Nat} {bit : Option Nat}
    (h : Scan bmp n k freeBits bit) (hclear : bitmapGet bmp k = false)
    (hk : freeBits = 0 → k % n = 0) (hge : n ≤ freeBits + 1) :
    (if freeBits = 0 then some k else bit) = some (k - freeBits) ∧
      Found bmp n (k + 1) (k - freeBits) := by
  have hle := h.le
  have hlt := h.lt
  have hstart : (if freeBits = 0 then some k else bit) = some (k - freeBits) ∧
      (k - freeBits) % n = 0 := by
    split
    · rename_i h0
      rw [h0, Nat.sub_zero]
      exact ⟨rfl, hk h0⟩
    · rename_i h0
      exact h.start h0
  refine ⟨hstart.1, hstart.2, by omega, fun j h1 h2 => ?_, h.broken⟩
  by_cases hj : j = k
  · rw [hj]
    exact hclear
  · exact h.clear j h1 (by omega)

/-- The search finds the first run there is. -/
theorem findNFree_spec {bmp : Bitmap} {n rounds k freeBits : Nat} {bit : Option Nat} (hn : 0 < n)
    (h : Scan bmp n k freeBits bit) :
    (∃ b, findNFree bmp n rounds k freeBits bit = some b ∧ Found bmp n (k + rounds) b) ∨
      (findNFree bmp n rounds k freeBits bit = none ∧ ∀ c, c % n = 0 → c + n ≤ k + rounds →
        ∃ j, c ≤ j ∧ j < c + n ∧ bitmapGet bmp j = true) := by
  induction rounds generalizing k freeBits bit with
  | zero =>
      have hlt := h.lt
      exact .inr ⟨rfl, fun c hc hle => h.broken c hc (by omega)⟩
  | succ rounds ih =>
      rw [show k + (rounds + 1) = k + 1 + rounds by omega, findNFree]
      cases hget : bitmapGet bmp k with
      | true => exact ih (h.used hn hget)
      | false =>
          by_cases hskip : freeBits = 0 ∧ k % n ≠ 0
          · obtain ⟨rfl, hk⟩ := hskip
            simp only [Bool.false_eq_true, if_false, if_true, if_pos hk]
            rw [if_neg (by omega)]
            exact ih (h.skip hk)
          · -- the bit is the next of a run
            have hk : freeBits = 0 → k % n = 0 := by
              intro h0
              by_contra hk
              exact hskip ⟨h0, hk⟩
            have hpair : (if freeBits = 0 then
                if k % n ≠ 0 then (0, bit) else (1, some k) else (freeBits + 1, bit)) =
                (freeBits + 1, if freeBits = 0 then some k else bit) := by
              split
              · rename_i h0
                rw [if_neg (by rw [hk h0]; simp), h0]
              · rfl
            simp only [Bool.false_eq_true, if_false, hpair]
            by_cases hge : freeBits + 1 ≥ n
            · obtain ⟨hbit, hfound⟩ := h.found hget hk hge
              rw [if_pos hge]
              exact .inl ⟨_, hbit, hfound.aligned, by have := hfound.le; omega, hfound.clear,
                hfound.least⟩
            · rw [if_neg hge]
              exact ih (h.grow hget hk (by omega))

/-- What `bitmap_find_n_free` returns. -/
theorem bitmapFindNFree_spec (bmp : Bitmap) {n : Nat} (hn : 0 < n) :
    (∃ b, bitmapFindNFree bmp n = some b ∧ Found bmp n (8 * bitmapByteSize bmp.size) b) ∨
      (bitmapFindNFree bmp n = none ∧ ∀ c, c % n = 0 → c + n ≤ 8 * bitmapByteSize bmp.size →
        ∃ j, c ≤ j ∧ j < c + n ∧ bitmapGet bmp j = true) := by
  have h : Scan bmp n 0 0 none := by
    refine ⟨hn, Nat.le_refl 0, fun h0 => absurd rfl h0, fun j h1 h2 => by omega,
      fun c _ hlt => by omega⟩
  rcases findNFree_spec hn h with ⟨b, hb, hfound⟩ | ⟨hnone, hall⟩
  · rw [Nat.zero_add] at hfound
    exact .inl ⟨b, hb, hfound⟩
  · rw [Nat.zero_add] at hall
    exact .inr ⟨hnone, hall⟩

end UlmerOS
