import UlmerOS.Lib.Run

/-!
# Systems of components that do not see each other

A step of a system is a step of one of its components, and its label says of which:
`(i, l)`.  `own i` are the labels of the component `i` in a run.

`Run.project` is the rule.  If a step of the component `i` changes what `i` sees as
one of its own steps would, and what nobody else sees, then in every run of the
system each component has made a run of its own, with its own labels and no other.
-/

namespace Transition

variable {ι σ τ κ : Type*} [DecidableEq ι]

/-- The labels of one component. -/
def own (i : ι) (ls : List (ι × κ)) : List κ :=
  ls.filterMap fun l => if l.1 = i then some l.2 else none

@[simp] theorem own_nil (i : ι) : own i ([] : List (ι × κ)) = [] := rfl

@[simp] theorem own_cons_self (i : ι) (l : κ) (ls : List (ι × κ)) :
    own i ((i, l) :: ls) = l :: own i ls := by
  simp [own]

@[simp] theorem own_cons_ne {i j : ι} (h : j ≠ i) (l : κ) (ls : List (ι × κ)) :
    own i ((j, l) :: ls) = own i ls := by
  simp [own, h]

/-- Every component of a system has made a run of its own. -/
theorem Run.project {step : σ → ι × κ → σ → Prop} {component : τ → κ → τ → Prop}
    {P : σ → Prop} {s t : σ} {ls : List (ι × κ)} (h : Run step s ls t) (view : σ → ι → τ)
    (hstep : ∀ s i l t, P s → step s (i, l) t →
      P t ∧ component (view s i) l (view t i) ∧ ∀ j, j ≠ i → view t j = view s j)
    (hs : P s) (i : ι) : Run component (view s i) (own i ls) (view t i) := by
  induction h with
  | nil => exact .nil
  | @cons s u t l ls hst _ ih =>
      obtain ⟨j, l⟩ := l
      obtain ⟨hP, hown, hother⟩ := hstep s j l u hs hst
      by_cases hij : j = i
      · subst hij
        rw [own_cons_self]
        exact .cons hown (ih hP)
      · rw [own_cons_ne hij, ← hother i (Ne.symm hij)]
        exact ih hP

end Transition
