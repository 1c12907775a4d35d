import UlmerOS.Lib.Run
import Mathlib.Logic.Function.Basic

/-!
# Critical sections

Tasks make calls on data they share.  A call is a section of atomic steps, and each section
is run inside a lock.  Between any two steps the processor may go to another task.

A `Lock` is any transition system that knows which task is inside, and lets no two tasks in
at a time.  `Cut call` is a way to cut a call into atomic steps.  `Sections.Step` is the
system of a lock, the data and the tasks, and `Calls` the system that makes each call in one
step.

`Sections.serial` is the rule: however the sections are cut and interleaved, the calls that
have returned are a run of `Calls`, in the order in which their sections ended.  The data and
the tasks are what that run leaves, as long as no task is inside, and otherwise what it leaves
with the rest of one section to come.
-/

namespace Transition

open Function (update)

/-! ## Sections -/

/-- Atomic steps on the data, and a result.  A step may look at the data before it goes on,
and it may stop the machine. -/
inductive Section (δ ρ : Type*) where
  | done (r : ρ)
  | atom (f : δ → Option δ) (k : δ → Section δ ρ)

/-- A section in one go. -/
def Section.run {δ ρ : Type*} : Section δ ρ → δ → Option (ρ × δ)
  | .done r, d => some (r, d)
  | .atom f k, d => (f d).bind (k d).run

/-- A way to cut a call into atomic steps. -/
structure Cut {δ ρ : Type*} (call : δ → Option (ρ × δ)) where
  code : Section δ ρ
  run_eq : ∀ d, code.run d = call d

/-! ## Locks -/

/-- A lock.  The task inside it is the only one, and it does not hand over to another one
in a single step. -/
structure Lock (ι σ κ : Type*) where
  step : σ → κ → σ → Prop
  inside : σ → ι → Prop
  /-- The processor executes the task. -/
  active : σ → ι → Prop
  inv : σ → Prop
  keeps : ∀ {s l t}, inv s → step s l t → inv t
  exclusive : ∀ {s i j}, inv s → inside s i → inside s j → i = j
  handover : ∀ {s l t i j}, inv s → step s l t → inside s i → inside t j → i = j

/-- On one processor only the running task moves in or out, so nobody hands over. -/
def Lock.ofRunning {ι σ κ : Type*} (step : σ → κ → σ → Prop) (inside : σ → ι → Prop)
    (current : σ → ι) (inv : σ → Prop) (keeps : ∀ {s l t}, inv s → step s l t → inv t)
    (exclusive : ∀ {s i j}, inv s → inside s i → inside s j → i = j)
    (moves : ∀ {s l t i}, step s l t → i ≠ current s → (inside t i ↔ inside s i)) :
    Lock ι σ κ where
  step := step
  inside := inside
  active := fun s i => current s = i
  inv := inv
  keeps := keeps
  exclusive := exclusive
  handover := by
    intro s l t i j h hst hi hj
    cases Classical.em (j = current s) with
    | inr hne => exact exclusive h hi ((moves hst hne).mp hj)
    | inl heq =>
        cases Classical.em (i = current s) with
        | inl hic => rw [hic, heq]
        | inr hne => exact exclusive (keeps h hst) ((moves hst hne).mpr hi) hj

/-! ## The system -/

variable {ι σ κ δ γ ω ρ : Type*} [DecidableEq ι]

/-- What a task knows, and how a call changes it: when it starts, and when it has returned. -/
structure Client (γ ω ρ : Type*) where
  start : γ → ω → Option γ
  finish : γ → ω → ρ → γ

/-- The lock, the data and the tasks. -/
structure Sections (ι σ δ γ ω ρ : Type*) where
  lock : σ
  data : δ
  client : ι → γ
  /-- The calls whose sections are under way, with what is still to be done. -/
  work : ι → Option (ω × Section δ ρ)

/-- What happens next. -/
inductive SectionEvent (ι ω ρ : Type*) where
  /-- A task enters the lock, for a call. -/
  | enter (i : ι) (o : ω)
  /-- A task makes an atomic step. -/
  | work (i : ι)
  /-- A task leaves the lock, with the result of its call. -/
  | leave (i : ι) (o : ω) (r : ρ)
  /-- Anything else that happens to the lock. -/
  | other

/-- The calls that have returned. -/
def SectionEvent.returned : SectionEvent ι ω ρ → Option (ι × ω × ρ)
  | .leave i o r => some (i, o, r)
  | _ => none

/-- The steps of the system.  A section is left when it is done. -/
inductive Sections.Step (L : Lock ι σ κ) (C : Client γ ω ρ) (code : ω → Section δ ρ) :
    Sections ι σ δ γ ω ρ → SectionEvent ι ω ρ → Sections ι σ δ γ ω ρ → Prop where
  | enter {s : Sections ι σ δ γ ω ρ} {i : ι} {o : ω} {c : γ} {l : κ} {lock : σ} :
      L.step s.lock l lock → ¬ L.inside s.lock i → L.inside lock i →
      C.start (s.client i) o = some c →
      Step L C code s (.enter i o)
        { s with
          lock := lock
          client := update s.client i c
          work := update s.work i (some (o, code o)) }
  | work {s : Sections ι σ δ γ ω ρ} {i : ι} {o : ω} {f : δ → Option δ}
      {k : δ → Section δ ρ} {d : δ} :
      L.inside s.lock i → L.active s.lock i → s.work i = some (o, .atom f k) →
      f s.data = some d →
      Step L C code s (.work i)
        { s with data := d, work := update s.work i (some (o, k s.data)) }
  | leave {s : Sections ι σ δ γ ω ρ} {i : ι} {o : ω} {r : ρ} {l : κ} {lock : σ} :
      L.step s.lock l lock → L.inside s.lock i → ¬ L.inside lock i →
      s.work i = some (o, .done r) →
      Step L C code s (.leave i o r)
        { s with
          lock := lock
          client := update s.client i (C.finish (s.client i) o r)
          work := update s.work i none }
  | other {s : Sections ι σ δ γ ω ρ} {l : κ} {lock : σ} :
      L.step s.lock l lock → (∀ i, L.inside lock i ↔ L.inside s.lock i) →
      Step L C code s .other { s with lock := lock }

/-- The data and the tasks, when each call is one step. -/
inductive Calls (C : Client γ ω ρ) (call : ω → δ → Option (ρ × δ)) :
    δ × (ι → γ) → ι × ω × ρ → δ × (ι → γ) → Prop where
  | call {d d' : δ} {client : ι → γ} {i : ι} {o : ω} {c : γ} {r : ρ} :
      C.start (client i) o = some c → call o d = some (r, d') →
      Calls C call (d, client) (i, o, r) (d', update client i (C.finish c o r))

/-! ## The rule -/

/-- Nobody is inside, and the system is where the calls that have returned have led. -/
def Sections.Quiet (L : Lock ι σ κ) (s : Sections ι σ δ γ ω ρ) (q : δ × (ι → γ)) : Prop :=
  (∀ i, ¬ L.inside s.lock i) ∧ s.data = q.1 ∧ s.client = q.2

/-- A task is inside, and it has still to do from here what its call would have done there. -/
structure Sections.Busy (L : Lock ι σ κ) (C : Client γ ω ρ) (code : ω → Section δ ρ)
    (s : Sections ι σ δ γ ω ρ) (q : δ × (ι → γ)) (i : ι) : Prop where
  inside : L.inside s.lock i
  rest : ∃ o p c, s.work i = some (o, p) ∧ C.start (q.2 i) o = some c ∧
    s.client = update q.2 i c ∧ p.run s.data = (code o).run q.1

/-- Where a system is, seen from the calls that have returned. -/
structure Sections.Behind (L : Lock ι σ κ) (C : Client γ ω ρ) (code : ω → Section δ ρ)
    (s : Sections ι σ δ γ ω ρ) (q : δ × (ι → γ)) : Prop where
  inv : L.inv s.lock
  place : s.Quiet L q ∨ ∃ i, s.Busy L C code q i

namespace Sections

variable {L : Lock ι σ κ} {C : Client γ ω ρ} {code : ω → Section δ ρ}
  {s t : Sections ι σ δ γ ω ρ} {q : δ × (ι → γ)}

/-- A task is inside when it does a step of its section. -/
theorem Behind.busy (h : s.Behind L C code q) {i : ι} (hi : L.inside s.lock i) :
    s.Busy L C code q i := by
  cases h.place with
  | inl hquiet => exact absurd hi (hquiet.1 i)
  | inr hbusy =>
      obtain ⟨j, hj⟩ := hbusy
      exact L.exclusive h.inv hj.inside hi ▸ hj

/-- Each step does nothing to the calls that have returned, or lets one more return. -/
theorem Behind.step (h : s.Behind L C code q) {e : SectionEvent ι ω ρ}
    (hst : Step L C code s e t) :
    ∃ q', Run (Calls C fun o => (code o).run) q e.returned.toList q' ∧ t.Behind L C code q' := by
  cases hst with
  | @enter i o c l lock hlock hout hin hstart =>
      -- nobody was inside, since nobody hands over
      have hquiet : s.Quiet L q := by
        refine h.place.resolve_right ?_
        rintro ⟨j, hj⟩
        exact hout (L.handover h.inv hlock hj.inside hin ▸ hj.inside)
      obtain ⟨-, hdata, hclient⟩ := hquiet
      refine ⟨q, .nil, L.keeps h.inv hlock, Or.inr ⟨i, hin, o, code o, c, by simp, ?_, ?_, ?_⟩⟩
      · rw [← hclient]
        exact hstart
      · rw [hclient]
      · rw [hdata]
  | @work i o f k d hin hactive hwork hf =>
      obtain ⟨-, o', p, c, hp, hstart, hclient, hrun⟩ := h.busy hin
      obtain ⟨rfl, rfl⟩ := Prod.mk.inj (Option.some.inj (hwork.symm.trans hp))
      refine ⟨q, .nil, h.inv, Or.inr ⟨i, hin, o, k s.data, c, by simp, hstart, hclient, ?_⟩⟩
      rw [← hrun, Section.run, hf, Option.bind_some]
  | @leave i o r l lock hlock hin hout hwork =>
      obtain ⟨-, o', p, c, hp, hstart, hclient, hrun⟩ := h.busy hin
      obtain ⟨rfl, rfl⟩ := Prod.mk.inj (Option.some.inj (hwork.symm.trans hp))
      have hcall : (code o).run q.1 = some (r, s.data) := hrun.symm
      refine ⟨(s.data, update q.2 i (C.finish c o r)), .cons (.call hstart hcall) .nil,
        L.keeps h.inv hlock, Or.inl ⟨?_, rfl, ?_⟩⟩
      · intro j hj
        exact hout (L.handover h.inv hlock hin hj ▸ hj)
      · simp [hclient]
  | @other l lock hlock hsame =>
      refine ⟨q, .nil, L.keeps h.inv hlock, h.place.imp ?_ ?_⟩
      · rintro ⟨hout, hdata, hclient⟩
        exact ⟨fun i hi => hout i ((hsame i).mp hi), hdata, hclient⟩
      · rintro ⟨i, hin, hrest⟩
        exact ⟨i, (hsame i).mpr hin, hrest⟩

theorem Behind.run {es : List (SectionEvent ι ω ρ)} (hrun : Run (Step L C code) s es t)
    (h : s.Behind L C code q) :
    ∃ q', Run (Calls C fun o => (code o).run) q (es.filterMap SectionEvent.returned) q' ∧
      t.Behind L C code q' := by
  induction hrun generalizing q with
  | nil => exact ⟨q, .nil, h⟩
  | @cons s m t e es hst _ ih =>
      obtain ⟨q₁, hcall, hm⟩ := h.step hst
      obtain ⟨q₂, hcalls, ht⟩ := ih hm
      refine ⟨q₂, ?_, ht⟩
      have hsplit : (e :: es).filterMap SectionEvent.returned =
          e.returned.toList ++ es.filterMap SectionEvent.returned := by
        cases he : e.returned <;> simp [he]
      rw [hsplit]
      exact hcall.append hcalls

/-- **Sections are atomic.**  From a state with nobody inside, the calls that have returned
are a run of the calls made one after the other, and the system is where that run leads, or
inside the next call. -/
theorem serial {call : ω → δ → Option (ρ × δ)} (cut : ∀ o, Cut (call o))
    {es : List (SectionEvent ι ω ρ)} (hinv : L.inv s.lock) (hout : ∀ i, ¬ L.inside s.lock i)
    (hrun : Run (Step L C fun o => (cut o).code) s es t) :
    ∃ q, Run (Calls C call) (s.data, s.client) (es.filterMap SectionEvent.returned) q ∧
      t.Behind L C (fun o => (cut o).code) q := by
  have hcalls : (fun o => (cut o).code.run) = call := by
    funext o d
    exact (cut o).run_eq d
  have h := Behind.run (q := (s.data, s.client)) hrun ⟨hinv, Or.inl ⟨hout, rfl, rfl⟩⟩
  rwa [hcalls] at h

/-- What a task knows while another task, or it itself, is inside. -/
theorem Behind.client_eq (h : t.Behind L C code q) :
    t.client = q.2 ∨ ∃ i o c, C.start (q.2 i) o = some c ∧ t.client = update q.2 i c := by
  cases h.place with
  | inl hquiet => exact Or.inl hquiet.2.2
  | inr hbusy =>
      obtain ⟨i, -, o, -, c, -, hstart, hclient, -⟩ := hbusy
      exact Or.inr ⟨i, o, c, hstart, hclient⟩

end Sections

end Transition
