import Mathlib.Logic.Function.Basic

/-!
# Tasks

The part of `task_t` and `proc_t` that the scheduler, the mutexes and the
cleanup task read.  A task's saved context, its kernel stack and its address
space pointer are left out: switching to a task is switching `current_task`.
-/

namespace UlmerOS

/-- `task_state_t`. -/
inductive TaskState where
  | running
  | sleeping
  | killed
deriving DecidableEq, Repr

/-- `proc_state_t`. -/
inductive ProcState where
  | running
  | killed
deriving DecidableEq, Repr

end UlmerOS
