import Mathlib.Order.SetNotation
import Mathlib.Data.Set.Disjoint

/-!
# A store that is shared by owners

A store has a value at every place, and some of its places are free.  Owners take
places from the free ones, write to places of their own and give them back.

`Confined` says what one owner may do: the places of everybody else keep their
values, and nothing becomes free that was neither free nor his.  Places that are
`Shared` are owned by nobody else and are not free.  The two give the frame rule,
`Shared.keep` and `Shared.step`: what one owner does is not seen by the others, and
leaves the store shared.

A place may be lost, when an owner takes it and does not keep it.  `Conserved` says
that none was since the store was `s0`.
-/

namespace Ownership

variable {ι F V : Type*}

/-- The values of a store, and its places that are free. -/
structure Store (F V : Type*) where
  value : F → V
  free : Set F

variable {s s' s'' s0 : Store F V}

/-! ## What an owner may do -/

/-- An owner had the places `mine` and has the places `mine'`, and nobody else can tell. -/
structure Confined (mine mine' : Set F) (s s' : Store F V) : Prop where
  keep : ∀ f, f ∉ s.free → f ∉ mine → s'.value f = s.value f
  free_sub : ∀ f, f ∈ s'.free → f ∈ s.free ∨ f ∈ mine
  mine_sub : ∀ f, f ∈ mine' → f ∈ mine ∨ f ∈ s.free

namespace Confined

variable {mine mine' mine'' : Set F}

theorem refl (mine : Set F) (s : Store F V) : Confined mine mine s s where
  keep := fun _ _ _ => rfl
  free_sub := fun _ h => .inl h
  mine_sub := fun _ h => .inl h

theorem trans (h : Confined mine mine' s s') (h' : Confined mine' mine'' s' s'') :
    Confined mine mine'' s s'' where
  keep := by
    intro f hfree hmine
    rw [h'.keep f, h.keep f hfree hmine]
    · exact fun hf => (h.free_sub f hf).elim hfree hmine
    · exact fun hf => (h.mine_sub f hf).elim hmine hfree
  free_sub := by
    intro f hf
    rcases h'.free_sub f hf with hfree | hmine
    · exact h.free_sub f hfree
    · exact (h.mine_sub f hmine).symm
  mine_sub := by
    intro f hf
    rcases h'.mine_sub f hf with hmine | hfree
    · exact h.mine_sub f hmine
    · exact (h.free_sub f hfree).symm

end Confined

/-! ## Many owners -/

/-- The places of an owner are not free, and they are those of no other. -/
structure Shared (owns : ι → Set F) (s : Store F V) : Prop where
  used : ∀ i f, f ∈ owns i → f ∉ s.free
  apart : ∀ i j f, f ∈ owns i → f ∈ owns j → i = j

namespace Shared

variable {owns owns' : ι → Set F} {mine' : Set F} {i j : ι} {f : F}

/-- The others keep the values of their places. -/
theorem keep (h : Shared owns s) (hc : Confined (owns i) mine' s s') (hij : j ≠ i)
    (hf : f ∈ owns j) : s'.value f = s.value f :=
  hc.keep f (h.used j f hf) fun hi => hij (h.apart j i f hf hi)

/-- The others keep their places. -/
theorem not_free (h : Shared owns s) (hc : Confined (owns i) mine' s s') (hij : j ≠ i)
    (hf : f ∈ owns j) : f ∉ s'.free := by
  intro hfree
  rcases hc.free_sub f hfree with hs | hi
  · exact h.used j f hf hs
  · exact hij (h.apart j i f hf hi)

/-- An owner that is confined leaves the store shared. -/
theorem step (h : Shared owns s) (hc : Confined (owns i) (owns' i) s s')
    (hused : ∀ f, f ∈ owns' i → f ∉ s'.free) (hother : ∀ j, j ≠ i → owns' j = owns j) :
    Shared owns' s' := by
  have hmine : ∀ j f, j ≠ i → f ∈ owns' i → f ∉ owns' j := by
    intro j f hij hfi hfj
    rw [hother j hij] at hfj
    rcases hc.mine_sub f hfi with hi | hfree
    · exact hij (h.apart j i f hfj hi)
    · exact h.used j f hfj hfree
  constructor
  · intro j f hf
    by_cases hij : j = i
    · subst hij
      exact hused f hf
    · rw [hother j hij] at hf
      exact h.not_free hc hij hf
  · intro j k f hj hk
    by_cases hij : j = i
    · by_cases hik : k = i
      · rw [hij, hik]
      · subst hij
        exact absurd hk (hmine k f hik hj)
    · by_cases hik : k = i
      · subst hik
        exact absurd hj (hmine j f hij hk)
      · rw [hother j hij] at hj
        rw [hother k hik] at hk
        exact h.apart j k f hj hk

end Shared

/-! ## Places that are lost -/

/-- A place that was free is free still, or it has an owner. -/
def Conserved (s0 : Store F V) (owns : ι → Set F) (s : Store F V) : Prop :=
  ∀ f, f ∈ s0.free → f ∈ s.free ∨ ∃ i, f ∈ owns i

/-- An owner that keeps or gives back what he takes loses no place. -/
theorem Conserved.step {owns owns' : ι → Set F} {i : ι} (h : Conserved s0 owns s)
    (hfree : ∀ f, f ∈ s.free → f ∈ s'.free ∨ f ∈ owns' i)
    (hmine : ∀ f, f ∈ owns i → f ∈ s'.free ∨ f ∈ owns' i)
    (hused : ∀ j f, j ≠ i → f ∈ owns j → f ∈ owns' j) : Conserved s0 owns' s' := by
  intro f hf
  rcases h f hf with hs | ⟨j, hj⟩
  · exact (hfree f hs).imp_right fun h => ⟨i, h⟩
  · by_cases hij : j = i
    · subst hij
      exact (hmine f hj).imp_right fun h => ⟨j, h⟩
    · exact .inr ⟨j, hused j f hij hj⟩

end Ownership
