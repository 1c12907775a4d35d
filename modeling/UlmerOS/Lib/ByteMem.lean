import Mathlib.Algebra.Order.Ring.Nat
import Mathlib.Data.List.GetD

/-!
# Byte memory

A memory is a function from addresses to bytes.  `load m a n` reads the `n` bytes
at `a` as a little endian number, and `store m a n v` writes the low `n` bytes of
`v` there.  `fill`, `copy` and `write` are `memset`, `memcpy` and the copying out
of a buffer.

`Stands m a bs` says that the bytes of a list are in memory, one behind the other, and
`spell` makes such a list of a number.

The rules are the usual ones of a field in memory.  What was stored is loaded
back, a load sees only the bytes it covers, and a store changes no byte outside
its own.
-/

namespace ByteMem

/-- A byte at every address. -/
abbrev Mem := Nat → UInt8

/-- The `n` bytes at `a`, least significant first. -/
def load (m : Mem) (a : Nat) : Nat → Nat
  | 0 => 0
  | n + 1 => (m a).toNat + 256 * load m (a + 1) n

/-- Write the low `n` bytes of `v` at `a`. -/
def store (m : Mem) (a n v : Nat) : Mem := fun x =>
  if a ≤ x ∧ x < a + n then UInt8.ofNat (v / 256 ^ (x - a)) else m x

/-- Set the `n` bytes at `a`. -/
def fill (m : Mem) (a n : Nat) (b : UInt8) : Mem := fun x =>
  if a ≤ x ∧ x < a + n then b else m x

/-- Copy the `n` bytes at `src` to `dst`. -/
def copy (m : Mem) (dst src n : Nat) : Mem := fun x =>
  if dst ≤ x ∧ x < dst + n then m (src + (x - dst)) else m x

/-- Write a list of bytes at `a`. -/
def write (m : Mem) (a : Nat) (bs : List UInt8) : Mem := fun x =>
  if a ≤ x ∧ x < a + bs.length then bs.getD (x - a) 0 else m x

theorem fill_of_mem {m : Mem} {a n x : Nat} {b : UInt8} (h1 : a ≤ x) (h2 : x < a + n) :
    fill m a n b x = b := if_pos ⟨h1, h2⟩

theorem fill_of_not_mem {m : Mem} {a n x : Nat} {b : UInt8} (h : x < a ∨ a + n ≤ x) :
    fill m a n b x = m x := if_neg (by omega)

theorem copy_of_mem {m : Mem} {dst src n i : Nat} (h : i < n) :
    copy m dst src n (dst + i) = m (src + i) := by
  rw [copy, if_pos ⟨by omega, by omega⟩, Nat.add_sub_cancel_left]

theorem copy_of_not_mem {m : Mem} {dst src n x : Nat} (h : x < dst ∨ dst + n ≤ x) :
    copy m dst src n x = m x := if_neg (by omega)

/-- Equal bytes load as equal numbers, wherever they stand. -/
theorem load_eq_load {m m' : Mem} {a b n : Nat} (h : ∀ i, i < n → m (a + i) = m' (b + i)) :
    load m a n = load m' b n := by
  induction n generalizing a b with
  | zero => rfl
  | succ n ih =>
      have hrest : load m (a + 1) n = load m' (b + 1) n := by
        refine ih (fun i hi => ?_)
        rw [Nat.add_assoc, Nat.add_assoc, Nat.add_comm 1 i]
        exact h (i + 1) (by omega)
      rw [load, load, hrest, show m a = m' b from h 0 (by omega)]

/-- A load sees the bytes it covers and no other. -/
theorem load_congr {m m' : Mem} {a n : Nat} (h : ∀ x, a ≤ x → x < a + n → m x = m' x) :
    load m a n = load m' a n :=
  load_eq_load fun i hi => h (a + i) (by omega) (by omega)

/-- Zero bytes load as zero. -/
theorem load_zero {m : Mem} {a n : Nat} (h : ∀ x, a ≤ x → x < a + n → m x = 0) :
    load m a n = 0 := by
  induction n generalizing a with
  | zero => rfl
  | succ n ih =>
      rw [load, h a (by omega) (by omega), ih (fun x h1 h2 => h x (by omega) (by omega))]
      rfl

/-- A number of `n` bytes. -/
theorem load_lt (m : Mem) (a n : Nat) : load m a n < 256 ^ n := by
  induction n generalizing a with
  | zero => exact Nat.one_pos
  | succ n ih =>
      have hrest := ih (a + 1)
      have hbyte : (m a).toNat < 256 := (m a).toNat_lt
      rw [load, Nat.pow_succ']
      omega

/-- Equal numbers are loaded from equal bytes. -/
theorem bytes_of_load_eq {m m' : Mem} {a n : Nat} (h : load m a n = load m' a n) {i : Nat}
    (hi : i < n) : m (a + i) = m' (a + i) := by
  induction n generalizing a i with
  | zero => exact absurd hi (Nat.not_lt_zero i)
  | succ n ih =>
      have hb : (m a).toNat < 256 := (m a).toNat_lt
      have hb' : (m' a).toNat < 256 := (m' a).toNat_lt
      simp only [load] at h
      cases i with
      | zero =>
          rw [Nat.add_zero]
          exact UInt8.toNat_inj.mp (by omega)
      | succ i =>
          have hrest := ih (a := a + 1) (by omega) (i := i) (by omega)
          rw [show a + (i + 1) = a + 1 + i by omega]
          exact hrest

/-- A store changes no byte outside its own. -/
theorem store_of_not_mem {m : Mem} {a n v x : Nat} (h : x < a ∨ a + n ≤ x) :
    store m a n v x = m x := by
  rw [store, if_neg (by omega)]

/-- Stores to different places can be made in either order. -/
theorem store_comm {m : Mem} {a n v b k w : Nat} (h : a + n ≤ b ∨ b + k ≤ a) :
    store (store m a n v) b k w = store (store m b k w) a n v := by
  funext x
  by_cases ha : a ≤ x ∧ x < a + n
  · rw [store_of_not_mem (by omega), store, if_pos ha, store, if_pos ha]
  · rw [store, store_of_not_mem (by omega), store_of_not_mem (by omega), store]

/-- Bytes that spell `v` load as `v`. -/
theorem load_of_bytes {m : Mem} {a n v : Nat}
    (h : ∀ i, i < n → m (a + i) = UInt8.ofNat (v / 256 ^ i)) : load m a n = v % 256 ^ n := by
  induction n generalizing a v with
  | zero => rw [load, Nat.pow_zero, Nat.mod_one]
  | succ n ih =>
      have h0 : (m a).toNat = v % 256 := by
        have := h 0 (by omega)
        rw [Nat.add_zero, Nat.pow_zero, Nat.div_one] at this
        rw [this]
        rfl
      have hrest : load m (a + 1) n = v / 256 % 256 ^ n := by
        refine ih (fun i hi => ?_)
        rw [Nat.add_assoc, Nat.add_comm 1 i, h (i + 1) (by omega), Nat.div_div_eq_div_mul,
          Nat.pow_succ']
      rw [load, h0, hrest, Nat.pow_succ', Nat.mod_mul]

/-- What was stored is loaded back. -/
theorem load_store {m : Mem} {a n v : Nat} (hv : v < 256 ^ n) :
    load (store m a n v) a n = v := by
  rw [load_of_bytes (v := v), Nat.mod_eq_of_lt hv]
  intro i hi
  rw [store, if_pos ⟨by omega, by omega⟩, Nat.add_sub_cancel_left]

/-- A load from elsewhere does not see a store. -/
theorem load_store_of_disjoint {m : Mem} {a n v b k : Nat} (h : b + k ≤ a ∨ a + n ≤ b) :
    load (store m a n v) b k = load m b k :=
  load_congr fun x h1 h2 => store_of_not_mem (by omega)

/-! ## Lists of bytes in memory -/

/-- The bytes of a list stand at `a`. -/
def Stands (m : Mem) (a : Nat) (bs : List UInt8) : Prop := ∀ i < bs.length, m (a + i) = bs.getD i 0

/-- The low `n` bytes of a number, least significant first. -/
def spell (n v : Nat) : List UInt8 := (List.range n).map fun i => UInt8.ofNat (v / 256 ^ i)

@[simp] theorem length_spell (n v : Nat) : (spell n v).length = n := by simp [spell]

theorem stands_append {m : Mem} {a : Nat} {xs ys : List UInt8} :
    Stands m a (xs ++ ys) ↔ Stands m a xs ∧ Stands m (a + xs.length) ys := by
  constructor
  · intro h
    refine ⟨fun i hi => ?_, fun i hi => ?_⟩
    · rw [h i (by rw [List.length_append]; omega), List.getD_append _ _ _ _ hi]
    · rw [Nat.add_assoc, h _ (by rw [List.length_append]; omega),
        List.getD_append_right _ _ _ _ (by omega), Nat.add_sub_cancel_left]
  · rintro ⟨hx, hy⟩ i hi
    rw [List.length_append] at hi
    by_cases hlt : i < xs.length
    · rw [hx i hlt, List.getD_append _ _ _ _ hlt]
    · obtain ⟨k, rfl⟩ := Nat.exists_eq_add_of_le (Nat.le_of_not_lt hlt)
      rw [← Nat.add_assoc, hy k (by omega), List.getD_append_right _ _ _ _ (by omega),
        Nat.add_sub_cancel_left]

/-- Bytes that are copied out change no other byte. -/
theorem write_of_not_mem {m : Mem} {a x : Nat} {bs : List UInt8} (h : x < a ∨ a + bs.length ≤ x) :
    write m a bs x = m x := if_neg (by omega)

theorem write_nil (m : Mem) (a : Nat) : write m a [] = m :=
  funext fun _ => write_of_not_mem (Nat.lt_or_ge _ a)

/-- Bytes that are copied out stand there. -/
theorem stands_write (m : Mem) (a : Nat) (bs : List UInt8) : Stands (write m a bs) a bs := by
  intro i hi
  rw [write, if_pos ⟨by omega, by omega⟩, Nat.add_sub_cancel_left]

/-- The first byte of a list is copied out, and then the others. -/
theorem write_cons (m : Mem) (a : Nat) (b : UInt8) (bs : List UInt8) :
    write (Function.update m a b) (a + 1) bs = write m a (b :: bs) := by
  funext x
  by_cases hx : x = a
  · rw [write_of_not_mem (by omega), hx, Function.update_self, write,
      if_pos ⟨Nat.le_refl a, by rw [List.length_cons]; omega⟩, Nat.sub_self]
    rfl
  · rw [write, write, Function.update_of_ne hx, List.length_cons]
    by_cases hin : a + 1 ≤ x ∧ x < a + 1 + bs.length
    · rw [if_pos hin, if_pos ⟨by omega, by omega⟩, show x - a = x - (a + 1) + 1 by omega]
      rfl
    · rw [if_neg hin, if_neg (by omega)]

/-- A number that is spelled out is loaded. -/
theorem Stands.load_eq {m : Mem} {a n v : Nat} (h : Stands m a (spell n v)) (hv : v < 256 ^ n) :
    load m a n = v := by
  rw [load_of_bytes, Nat.mod_eq_of_lt hv]
  intro i hi
  rw [h i (by rwa [length_spell]), spell]
  simp [hi]

end ByteMem
