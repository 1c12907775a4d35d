import Mathlib.Logic.Basic

/-!
# Traces of lock operations

What a piece of code does to the locks it uses, as a list of operations.  `run held ops` are
the locks that are held after the operations, if `held` are before.  It is `none` when a lock
is given back that is not held, or taken when it is.

`Disciplined ops` says that nothing of this kind happens and that no lock is held at the end,
when none was at the start.
-/

namespace LockTrace

variable {M : Type}

/-- An operation on a lock. -/
inductive Op (M : Type) where
  | lock (m : M)
  | unlock (m : M)
deriving DecidableEq, Repr

variable [DecidableEq M]

/-- The locks that are held after the operations. -/
def run (held : List M) : List (Op M) → Option (List M)
  | [] => some held
  | .lock m :: ops => if m ∈ held then none else run (m :: held) ops
  | .unlock m :: ops => if m ∈ held then run (held.erase m) ops else none

/-- Every lock that is taken is given back, and no other. -/
def Disciplined (ops : List (Op M)) : Prop := run [] ops = some []

instance (ops : List (Op M)) : Decidable (Disciplined ops) :=
  inferInstanceAs (Decidable (run [] ops = some []))

@[simp] theorem run_nil (held : List M) : run held [] = some held := rfl

@[simp] theorem run_lock_cons (m : M) (ops : List (Op M)) :
    run [] (.lock m :: ops) = run [m] ops := if_neg (List.not_mem_nil)

@[simp] theorem run_unlock_cons (m : M) (ops : List (Op M)) :
    run [m] (.unlock m :: ops) = run [] ops := by
  rw [run, if_pos List.mem_cons_self, List.erase_cons_head]

/-- With no lock held none can be given back. -/
@[simp] theorem run_unlock_nil (m : M) (ops : List (Op M)) : run [] (.unlock m :: ops) = none :=
  if_neg (List.not_mem_nil)

theorem run_append (held : List M) (xs ys : List (Op M)) :
    run held (xs ++ ys) = (run held xs).bind fun held => run held ys := by
  induction xs generalizing held with
  | nil => rfl
  | cons op xs ih =>
      cases op with
      | lock m =>
          rw [List.cons_append, run, run]
          split
          next => rfl
          next => exact ih _
      | unlock m =>
          rw [List.cons_append, run, run]
          split
          next => exact ih _
          next => rfl

theorem disciplined_nil : Disciplined ([] : List (Op M)) := rfl

/-- A lock is taken and given back. -/
theorem disciplined_pair (m : M) : Disciplined [.lock m, .unlock m] := by
  rw [Disciplined, run_lock_cons, run_unlock_cons, run_nil]

/-- A lock that is taken has to be given back. -/
theorem not_disciplined_lock (m : M) : ¬ Disciplined [.lock m] := by
  rw [Disciplined, run_lock_cons, run_nil]
  nofun

/-- A lock that was not taken cannot be given back. -/
theorem not_disciplined_unlock {xs : List (Op M)} (h : Disciplined xs) (m : M)
    (ys : List (Op M)) : ¬ Disciplined (xs ++ .unlock m :: ys) := by
  rw [Disciplined, run_append, show run [] xs = some [] from h, Option.bind_some,
    run_unlock_nil]
  nofun

end LockTrace
