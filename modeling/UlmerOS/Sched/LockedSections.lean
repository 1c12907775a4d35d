import UlmerOS.Lib.Critical
import UlmerOS.Sched.MutexExclusion

/-!
# The sections between a lock and an unlock

`mutex.c` and `spinlock.c` as locks for critical sections.  A task is inside a mutex from the
return of `mutex_lock` to the call of `mutex_unlock`, and inside a spinlock from the `xchg` that
takes it to the call of `spin_unlock`.  What a task does there is left open.

A spinlock has an owner nowhere, so its invariant is only that of the word: it is not `0`
while a task holds it.  A task that finds it taken yields, and is not put to sleep.
-/

namespace UlmerOS

open Transition (Run Lock)

variable {T : Type} [DecidableEq T]

/-! ## Mutexes -/

namespace Mutex

theorem State.exec_pc {debug : Bool} {s : State T} {t : T} (h : t ≠ s.current) :
    (s.exec debug).pc t = s.pc t := by
  have hgoto : ∀ (s' : State T) (p : Pc), s'.pc = s.pc → s'.current = s.current →
      (s'.goto p).pc t = s.pc t := by
    intro s' p hpc hcur
    have hother : t ≠ s'.current := hcur ▸ h
    exact (Function.update_of_ne hother ..).trans (congrFun hpc t)
  have hassert : ∀ (cond : Bool) (msg : String) (p : Pc),
      (s.assert debug cond msg p).pc t = s.pc t := by
    intro cond msg p
    unfold State.assert
    split
    · rfl
    · exact hgoto s p rfl rfl
  unfold State.exec
  cases s.pc s.current with
  | lockAssert => exact hassert ..
  | unlockAssertLocked => exact hassert ..
  | unlockAssertOwner => exact hassert ..
  | wakeHead =>
      dsimp only
      split
      · exact hgoto _ _ rfl rfl
      · split
        · rfl
        · exact hgoto _ _ rfl rfl
  | waitSpinYield => rfl
  | waitYield => rfl
  | wakeSpinYield => rfl
  | _ => exact hgoto _ _ rfl rfl

/-- Only the running task moves. -/
theorem Step.pc_eq {debug : Bool} {s s' : State T} {a : Action T} (hst : Step debug s a s')
    {t : T} (h : t ≠ s.current) : s'.pc t = s.pc t := by
  cases hst with
  | exec _ _ => exact State.exec_pc h
  | tick _ _ => rfl
  | yield _ _ _ => exact Function.update_of_ne h ..

/-- A mutex, as a lock for what is done between its two functions. -/
def sections (debug : Bool) : Lock T (State T) (Action T) :=
  .ofRunning (Step debug) (fun s t => s.pc t = .critical) State.current Excl
    (fun h hst => h.step hst)
    (fun h hi hj => h.unique _ _ (by rw [hi]; rfl) (by rw [hj]; rfl))
    (fun hst hne => by rw [hst.pc_eq hne])

instance (debug : Bool) (s : State T) (t : T) : Decidable ((sections debug).inside s t) :=
  inferInstanceAs (Decidable (s.pc t = .critical))

instance (debug : Bool) (s : State T) (t : T) : Decidable ((sections debug).active s t) :=
  inferInstanceAs (Decidable (s.current = t))

theorem sections_init (debug : Bool) (first : T) :
    (sections debug).inv (State.init first) ∧
      ∀ t, ¬ (sections debug).inside (State.init first) t :=
  ⟨Excl.init first, nofun⟩

end Mutex

/-! ## Spinlocks -/

namespace Spin

/-- Where a task is in its calls of `spin_lock` and `spin_unlock`. -/
inductive Pc where
  /-- In no call, and not holding the spinlock. -/
  | outside
  /-- `while (xchg(1, &spin->lock))`. -/
  | lockXchg
  /-- `yield()`. -/
  | lockYield
  /-- Between the return of `spin_lock` and the call of `spin_unlock`. -/
  | critical
  /-- `assert(spin->lock, ..)`. -/
  | unlockAssert
  /-- `spin->lock = 0`. -/
  | unlockStore
deriving DecidableEq, Repr

/-- The task's exchange took the spinlock and it has not stored `lock = 0` yet. -/
def Pc.holds : Pc → Bool
  | .critical | .unlockAssert | .unlockStore => true
  | _ => false

/-- One spinlock, its tasks and the processor. -/
structure State (T : Type) where
  /-- `spin->lock`. -/
  lock : Nat
  /-- The program point of each task. -/
  pc : T → Pc
  /-- `current_task`. -/
  current : T
  /-- The message of the assertion that failed. -/
  panicked : Option String

/-- `SPIN_INITIALIZER`. -/
def State.init (first : T) : State T where
  lock := 0
  pc := fun _ => .outside
  current := first
  panicked := none

/-- The running task goes to `p`. -/
def State.goto (s : State T) (p : Pc) : State T :=
  { s with pc := Function.update s.pc s.current p }

/-- The atomic step of the running task, at a point that is no `yield`. -/
def State.exec (debug : Bool) (s : State T) : State T :=
  match s.pc s.current with
  | .outside => s.goto .lockXchg
  | .lockXchg => { s with lock := 1 }.goto (if s.lock = 0 then .critical else .lockYield)
  | .critical => s.goto .unlockAssert
  | .unlockAssert =>
      if debug && s.lock == 0 then { s with panicked := some "spinlock is not acquired" }
      else s.goto .unlockStore
  | .unlockStore => { s with lock := 0 }.goto .outside
  | .lockYield => s

/-- What happens next: the running task executes, or the processor goes to a task, by a
timer tick or by the running task's `yield`. -/
inductive Action (T : Type) where
  | exec
  | tick (t : T)
  | yield (t : T)
deriving DecidableEq, Repr

/-- The steps of the machine. -/
inductive Step (debug : Bool) : State T → Action T → State T → Prop where
  | exec {s : State T} : s.panicked = none → s.pc s.current ≠ .lockYield →
      Step debug s .exec (s.exec debug)
  | tick {s : State T} {t : T} : s.panicked = none → Step debug s (.tick t) { s with current := t }
  | yield {s : State T} {t : T} : s.panicked = none → s.pc s.current = .lockYield →
      Step debug s (.yield t) { s.goto .lockXchg with current := t }

/-- At most one task holds the spinlock, the word says that it is taken, and no assertion has
failed. -/
structure Excl (s : State T) : Prop where
  unique : ∀ t u, (s.pc t).holds = true → (s.pc u).holds = true → t = u
  locked : ∀ t, (s.pc t).holds = true → s.lock ≠ 0
  unpanicked : s.panicked = none

omit [DecidableEq T] in
theorem Excl.init (first : T) : Excl (State.init first) := ⟨nofun, nofun, rfl⟩

section Steps

variable {s s' : State T} {p : Pc}

/-- The running task goes to a point that holds no more than the one it leaves. -/
theorem Excl.move (h : Excl s) (hpc : s'.pc = Function.update s.pc s.current p)
    (hlock : s.lock ≠ 0 → s'.lock ≠ 0) (hpanic : s'.panicked = s.panicked)
    (hp : p.holds = true → (s.pc s.current).holds = true) : Excl s' := by
  have hback : ∀ t, (s'.pc t).holds = true → (s.pc t).holds = true := by
    intro t ht
    rw [hpc] at ht
    cases Decidable.em (t = s.current) with
    | inl hc =>
        subst hc
        rw [Function.update_self] at ht
        exact hp ht
    | inr hc => rwa [Function.update_of_ne hc] at ht
  exact ⟨fun t u ht hu => h.unique t u (hback t ht) (hback u hu),
    fun t ht => hlock (h.locked t (hback t ht)), hpanic.trans h.unpanicked⟩

/-- The running task is the only one that can hold the spinlock. -/
theorem Excl.of_sole (hsole : ∀ t, (s.pc t).holds = true → t = s.current)
    (hpc : s'.pc = Function.update s.pc s.current p) (hlock : p.holds = true → s'.lock ≠ 0)
    (hpanic : s'.panicked = none) : Excl s' := by
  have honly : ∀ t, (s'.pc t).holds = true → t = s.current ∧ p.holds = true := by
    intro t ht
    rw [hpc] at ht
    cases Decidable.em (t = s.current) with
    | inl hc =>
        subst hc
        rw [Function.update_self] at ht
        exact ⟨rfl, ht⟩
    | inr hc =>
        rw [Function.update_of_ne hc] at ht
        exact absurd (hsole t ht) hc
  exact ⟨fun t u ht hu => (honly t ht).1.trans (honly u hu).1.symm,
    fun t ht => hlock (honly t ht).2, hpanic⟩

omit [DecidableEq T] in
theorem Excl.free (h : Excl s) (hl : s.lock = 0) (t : T) : (s.pc t).holds = false := by
  cases hp : (s.pc t).holds with
  | false => rfl
  | true => exact absurd hl (h.locked t hp)

theorem Excl.exec (debug : Bool) (h : Excl s) : Excl (s.exec debug) := by
  unfold State.exec
  cases hpc : s.pc s.current with
  | outside => exact h.move rfl id rfl nofun
  | lockXchg =>
      dsimp only
      split
      · rename_i hl
        exact .of_sole (fun t ht => by rw [h.free hl t] at ht; cases ht) rfl
          (fun _ => Nat.one_ne_zero) h.unpanicked
      · exact h.move rfl (fun _ => Nat.one_ne_zero) rfl nofun
  | lockYield => exact h
  | critical => exact h.move rfl id rfl (fun _ => by rw [hpc]; rfl)
  | unlockAssert =>
      have hc : (s.pc s.current).holds = true := by rw [hpc]; rfl
      have hpass : (debug && s.lock == 0) = false := by simp [h.locked _ hc]
      dsimp only
      rw [if_neg (by simp [hpass])]
      exact h.move rfl id rfl (fun _ => hc)
  | unlockStore =>
      have hc : (s.pc s.current).holds = true := by rw [hpc]; rfl
      exact .of_sole (fun t ht => h.unique t s.current ht hc) rfl nofun h.unpanicked

theorem Excl.step {debug : Bool} {a : Action T} (h : Excl s) (hst : Step debug s a s') :
    Excl s' := by
  cases hst with
  | exec _ _ => exact h.exec debug
  | tick _ => exact ⟨h.unique, h.locked, h.unpanicked⟩
  | yield _ _ => exact h.move (p := .lockXchg) rfl id rfl nofun

/-- Only the running task moves. -/
theorem Step.pc_eq {debug : Bool} {a : Action T} (hst : Step debug s a s') {t : T}
    (h : t ≠ s.current) : s'.pc t = s.pc t := by
  cases hst with
  | exec _ _ =>
      unfold State.exec
      cases s.pc s.current with
      | lockYield => rfl
      | unlockAssert =>
          dsimp only
          split
          · rfl
          · exact Function.update_of_ne h ..
      | _ => exact Function.update_of_ne h ..
  | tick _ => rfl
  | yield _ _ => exact Function.update_of_ne h ..

end Steps

/-- A spinlock, as a lock for what is done between its two functions. -/
def sections (debug : Bool) : Lock T (State T) (Action T) :=
  .ofRunning (Step debug) (fun s t => s.pc t = .critical) State.current Excl
    (fun h hst => h.step hst)
    (fun h hi hj => h.unique _ _ (by rw [hi]; rfl) (by rw [hj]; rfl))
    (fun hst hne => by rw [hst.pc_eq hne])

instance (debug : Bool) (s : State T) (t : T) : Decidable ((sections debug).inside s t) :=
  inferInstanceAs (Decidable (s.pc t = .critical))

instance (debug : Bool) (s : State T) (t : T) : Decidable ((sections debug).active s t) :=
  inferInstanceAs (Decidable (s.current = t))

theorem sections_init (debug : Bool) (first : T) :
    (sections debug).inv (State.init first) ∧
      ∀ t, ¬ (sections debug).inside (State.init first) t :=
  ⟨Excl.init first, nofun⟩

end Spin

end UlmerOS
