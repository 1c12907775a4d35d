import Mathlib.Logic.Relation

/-!
# Runs of a labelled transition relation

A transition relation is a predicate `step s l t`: the label `l` can take the
state `s` to the state `t`.  `Run step s ls t` is a finite run, with its labels
in order.  `Guarded step ok` is the relation whose steps also meet a condition
on the state they leave and on their label, so that a run of `Guarded step ok`
is a run of `step` in which every step meets `ok`.

`Run.invariant` is the rule every safety result of the development uses: what
holds at the start and is kept by one step holds after every run.  `Run.reaches`
is the rule for what has to happen: a rank that every tick lowers, until it did.
-/

namespace Transition

variable {σ ι : Type*} {step : σ → ι → σ → Prop}

/-- `Run step s ls t`: the labels `ls` take `s` to `t`. -/
inductive Run (step : σ → ι → σ → Prop) : σ → List ι → σ → Prop where
  | nil {s : σ} : Run step s [] s
  | cons {s t u : σ} {l : ι} {ls : List ι} :
      step s l t → Run step t ls u → Run step s (l :: ls) u

/-- The steps that meet the condition `ok`. -/
def Guarded (step : σ → ι → σ → Prop) (ok : σ → ι → Prop) : σ → ι → σ → Prop :=
  fun s l t => step s l t ∧ ok s l

/-- The runs of a partial function. -/
theorem run_of_foldlM {f : σ → ι → Option σ} {s t : σ} {ls : List ι}
    (h : ls.foldlM f s = some t) : Run (fun s l t => f s l = some t) s ls t := by
  induction ls generalizing s with
  | nil =>
      cases h
      exact .nil
  | cons l ls ih =>
      rw [List.foldlM_cons] at h
      obtain ⟨u, hu, hrest⟩ := Option.bind_eq_some_iff.mp h
      exact .cons hu (ih hrest)

/-- Two runs make one. -/
theorem Run.append {s t u : σ} {ls ls' : List ι} (h : Run step s ls t) (h' : Run step t ls' u) :
    Run step s (ls ++ ls') u := by
  induction h with
  | nil => exact h'
  | cons hst _ ih => exact .cons hst (ih h')

/-- A run stops between any two of its labels. -/
theorem Run.split {s u : σ} {ls ls' : List ι} (h : Run step s (ls ++ ls') u) :
    ∃ t, Run step s ls t ∧ Run step t ls' u := by
  induction ls generalizing s with
  | nil => exact ⟨s, .nil, h⟩
  | cons l ls ih =>
      cases h with
      | cons hst hrest =>
          obtain ⟨t, hleft, hright⟩ := ih hrest
          exact ⟨t, .cons hst hleft, hright⟩

/-- A run of steps that are allowed elsewhere too. -/
theorem Run.mono {step' : σ → ι → σ → Prop} {s t : σ} {ls : List ι} (h : Run step s ls t)
    (hstep : ∀ s l t, step s l t → step' s l t) : Run step' s ls t := by
  induction h with
  | nil => exact .nil
  | cons hst _ ih => exact .cons (hstep _ _ _ hst) ih

/-- The runs of a partial function whose steps meet a condition. -/
theorem guarded_of_foldlM {f : σ → ι → Option σ} {ok : σ → ι → Prop} [∀ s l, Decidable (ok s l)]
    {s t : σ} {ls : List ι}
    (h : ls.foldlM (fun s l => if ok s l then f s l else none) s = some t) :
    Run (Guarded (fun s l t => f s l = some t) ok) s ls t :=
  (run_of_foldlM h).mono fun _ _ _ hst => (Option.ite_none_right_eq_some.mp hst).symm

/-- A run whose steps meet a condition is a run. -/
theorem Run.of_guarded {ok : σ → ι → Prop} {s t : σ} {ls : List ι}
    (h : Run (Guarded step ok) s ls t) : Run step s ls t := by
  induction h with
  | nil => exact .nil
  | cons hst _ ih => exact .cons hst.1 ih

/-- What holds at the start and is kept by every step holds after every run. -/
theorem Run.invariant {P : σ → Prop} {s t : σ} {ls : List ι}
    (hstep : ∀ s l t, P s → step s l t → P t) (hs : P s) (h : Run step s ls t) : P t := by
  induction h with
  | nil => exact hs
  | cons hst _ ih => exact ih (hstep _ _ _ hs hst)

/-- A run is simulated by a run of what its states stand for, if every step from a
state with the invariant keeps it and is simulated by a step. -/
theorem Run.simulates {τ : Type*} {step' : τ → ι → τ → Prop} {P : σ → Prop} {s t : σ}
    {ls : List ι} (h : Run step s ls t) (abs : σ → τ)
    (hstep : ∀ s l t, P s → step s l t → P t ∧ step' (abs s) l (abs t)) (hs : P s) :
    P t ∧ Run step' (abs s) ls (abs t) := by
  induction h with
  | nil => exact ⟨hs, .nil⟩
  | cons hst _ ih =>
      obtain ⟨hP, hst'⟩ := hstep _ _ _ hs hst
      obtain ⟨hP', hrun⟩ := ih hP
      exact ⟨hP', .cons hst' hrun⟩

/-- If every tick reaches the goal or lowers the rank, and no other step raises it, then
a run with more ticks than the rank at its start has a first tick that reaches the goal,
and as many ticks before it as the rank at most. -/
theorem Run.reaches {s t : σ} {ls : List ι} (h : Run step s ls t) {tick : ι → Bool}
    {P : σ → Prop} (rank : σ → Nat) (goal : σ → Prop)
    (hstep : ∀ s l t, P s → step s l t →
      tick l = true ∧ goal t ∨ P t ∧ rank t + [l].countP tick ≤ rank s)
    (hs : P s) (hcount : rank s < ls.countP tick) :
    ∃ before l after u v, ls = before ++ l :: after ∧ before.countP tick ≤ rank s ∧
      tick l = true ∧ Run step s before u ∧ step u l v ∧ goal v ∧ Run step v after t := by
  induction h with
  | nil => simp at hcount
  | @cons s m t l ls hst hrest ih =>
      cases hstep s l m hs hst with
      | inl hgoal => exact ⟨[], l, ls, s, m, rfl, by simp, hgoal.1, .nil, hst, hgoal.2, hrest⟩
      | inr hlower =>
          obtain ⟨hm, hle⟩ := hlower
          have hsplit : ∀ ls' : List ι,
              (l :: ls').countP tick = [l].countP tick + ls'.countP tick := fun ls' => by
            rw [← List.countP_append, List.singleton_append]
          rw [hsplit] at hcount
          obtain ⟨before, l', after, u, v, rfl, hbefore, htick, hu, hv, hgoal, hafter⟩ :=
            ih hm (by omega)
          refine ⟨l :: before, l', after, u, v, rfl, ?_, htick, .cons hst hu, hv, hgoal, hafter⟩
          rw [hsplit]
          omega

end Transition
