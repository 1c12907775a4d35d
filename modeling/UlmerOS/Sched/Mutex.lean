import Mathlib.Logic.Function.Basic
import UlmerOS.Lib.Run
import UlmerOS.Sched.Task

/-!
# Mutexes and spinlocks

The atomic steps of `mutex_lock` and `mutex_unlock` (`sched/mutex.c`) with the
`spin_lock` and `spin_unlock` they call (`sched/spinlock.c`), for any number of
tasks on one mutex and one processor.

Each task has a program point `Pc`.  The running task is `current`, as
`current_task` is in the kernel, and only it executes.  A timer tick may move
`current` to any schedulable task between any two steps, and a `yield` does the
same when the running task asks for it.  The scheduler's choice is left open,
so round robin is one of the runs.

A failed `assert` panics in the debug build and is compiled out otherwise, which
is the parameter `debug`.  A panicked machine takes no step.
-/

namespace UlmerOS

namespace Mutex

open Transition (Run Guarded)

/-! ## Program points -/

/-- Where a task is in its calls of `mutex_lock` and `mutex_unlock`. -/
inductive Pc where
  /-- In no call, and not holding the mutex. -/
  | outside
  /-- `assert(mtx->lock == 0, ..)`. -/
  | lockAssert
  /-- `while (xchg(1, &mtx->lock))`. -/
  | lockXchg
  /-- The exchange of `spin_lock` in the body of that loop. -/
  | waitSpin
  /-- The `yield` of that `spin_lock`. -/
  | waitSpinYield
  /-- `current_task->state = TASK_SLEEPING`. -/
  | waitSleep
  /-- `list_add(&mtx->waiting_tasks, current_task)`. -/
  | waitEnqueue
  /-- `yield()`, with the spinlock held. -/
  | waitYield
  /-- `spin_unlock`, after which the loop tests again. -/
  | waitRelease
  /-- `mtx->held_by = current_task`. -/
  | lockOwn
  /-- Between the return of `mutex_lock` and the call of `mutex_unlock`. -/
  | critical
  /-- `assert(mtx->lock, ..)`. -/
  | unlockAssertLocked
  /-- `assert(mtx->held_by == current_task, ..)`. -/
  | unlockAssertOwner
  /-- `mtx->held_by = NULL`. -/
  | unlockDisown
  /-- `mtx->lock = 0`. -/
  | unlockStore
  /-- The exchange of `spin_lock` in `mutex_unlock`. -/
  | wakeSpin
  /-- The `yield` of that `spin_lock`. -/
  | wakeSpinYield
  /-- `if (list_size(&mtx->waiting_tasks) > 0)`. -/
  | wakeTest
  /-- The task at index `0` is set to `TASK_RUNNING`.  It stays in the list. -/
  | wakeHead
  /-- `spin_unlock`, after which `mutex_unlock` returns. -/
  | wakeRelease
deriving DecidableEq, Repr

/-- Where a task goes on after a `yield`, at the points that are one. -/
def Pc.afterYield : Pc → Option Pc
  | .waitSpinYield => some .waitSpin
  | .waitYield => some .waitRelease
  | .wakeSpinYield => some .wakeSpin
  | _ => none

/-- The task's exchange took the mutex and it has not stored `lock = 0` yet. -/
def Pc.holds : Pc → Bool
  | .lockOwn | .critical | .unlockAssertLocked | .unlockAssertOwner | .unlockDisown
  | .unlockStore => true
  | _ => false

/-- The task has stored itself in `held_by` and not cleared it yet. -/
def Pc.owns : Pc → Bool
  | .critical | .unlockAssertLocked | .unlockAssertOwner | .unlockDisown => true
  | _ => false

/-- The task's exchange took `waiting_tasks_lock` and it has not released it. -/
def Pc.spins : Pc → Bool
  | .waitSleep | .waitEnqueue | .waitYield | .waitRelease | .wakeTest | .wakeHead
  | .wakeRelease => true
  | _ => false

/-- Inside `mutex_lock`. -/
def Pc.locking : Pc → Bool
  | .lockAssert | .lockXchg | .waitSpin | .waitSpinYield | .waitSleep | .waitEnqueue
  | .waitYield | .waitRelease | .lockOwn => true
  | _ => false

/-- In the loop of `mutex_lock`. -/
def Pc.acquiring : Pc → Bool
  | .lockXchg | .waitSpin | .waitSpinYield | .waitSleep | .waitEnqueue | .waitYield
  | .waitRelease => true
  | _ => false

/-- Between the store `lock = 0` and the end of `mutex_unlock`. -/
def Pc.unlocking : Pc → Bool
  | .wakeSpin | .wakeSpinYield | .wakeTest | .wakeHead | .wakeRelease => true
  | _ => false

/-! ## States and steps -/

variable {T : Type} [DecidableEq T]

/-- One mutex, its tasks and the processor. -/
structure State (T : Type) where
  /-- `mtx->lock`. -/
  lock : Nat
  /-- `mtx->held_by`. -/
  heldBy : Option T
  /-- `mtx->waiting_tasks`. -/
  waitingTasks : List T
  /-- `mtx->waiting_tasks_lock.lock`. -/
  spin : Nat
  /-- The state of each task. -/
  taskState : T → TaskState
  /-- The program point of each task. -/
  pc : T → Pc
  /-- `current_task`. -/
  current : T
  /-- The message of the assertion that failed. -/
  panicked : Option String

/-- A freshly initialised mutex that no task uses yet. -/
def State.init (first : T) : State T where
  lock := 0
  heldBy := none
  waitingTasks := []
  spin := 0
  taskState := fun _ => .running
  pc := fun _ => .outside
  current := first
  panicked := none

/-- The running task goes to `p`. -/
def State.goto (s : State T) (p : Pc) : State T :=
  { s with pc := Function.update s.pc s.current p }

/-- `assert(cond, msg)`, then `p`. -/
def State.assert (debug : Bool) (s : State T) (cond : Bool) (msg : String) (p : Pc) : State T :=
  if debug && !cond then { s with panicked := some msg } else s.goto p

/-- `mutex_held`, as the task `t` evaluates it. -/
def State.mutexHeld (s : State T) (t : T) : Bool := s.heldBy == some t

/-- The atomic step of the running task, at a point that is no `yield`. -/
def State.exec (debug : Bool) (s : State T) : State T :=
  match s.pc s.current with
  | .outside => s.goto .lockAssert
  | .lockAssert => s.assert debug (s.lock == 0) "mutex already acquired" .lockXchg
  | .lockXchg => { s with lock := 1 }.goto (if s.lock = 0 then .lockOwn else .waitSpin)
  | .waitSpin => { s with spin := 1 }.goto (if s.spin = 0 then .waitSleep else .waitSpinYield)
  | .waitSleep =>
      { s with taskState := Function.update s.taskState s.current .sleeping }.goto .waitEnqueue
  | .waitEnqueue => { s with waitingTasks := s.waitingTasks ++ [s.current] }.goto .waitYield
  | .waitRelease => { s with spin := 0 }.goto .lockXchg
  | .lockOwn => { s with heldBy := some s.current }.goto .critical
  | .critical => s.goto .unlockAssertLocked
  | .unlockAssertLocked =>
      s.assert debug (s.lock != 0) "mutex released but not locked" .unlockAssertOwner
  | .unlockAssertOwner =>
      s.assert debug (s.mutexHeld s.current) "mutex released by other task" .unlockDisown
  | .unlockDisown => { s with heldBy := none }.goto .unlockStore
  | .unlockStore => { s with lock := 0 }.goto .wakeSpin
  | .wakeSpin => { s with spin := 1 }.goto (if s.spin = 0 then .wakeTest else .wakeSpinYield)
  | .wakeTest => s.goto (if s.waitingTasks.length > 0 then .wakeHead else .wakeRelease)
  | .wakeHead =>
      match s.waitingTasks with
      | [] => s.goto .wakeRelease
      | t :: _ =>
          if debug && s.taskState t != .sleeping then
            { s with panicked := some "mutex wakeup: task is not sleeping" }
          else
            { s with taskState := Function.update s.taskState t .running }.goto .wakeRelease
  | .wakeRelease => { s with spin := 0 }.goto .outside
  -- the points that are a `yield` take no step of their own
  | .waitSpinYield | .waitYield | .wakeSpinYield => s

/-- What happens next: the running task executes, or the processor goes to a
task, by a timer tick or by the running task's `yield`. -/
inductive Action (T : Type) where
  | exec
  | tick (t : T)
  | yield (t : T)
deriving DecidableEq, Repr

/-- The steps of the machine. -/
inductive Step (debug : Bool) : State T → Action T → State T → Prop where
  | exec {s : State T} : s.panicked = none → (s.pc s.current).afterYield = none →
      Step debug s .exec (s.exec debug)
  | tick {s : State T} {t : T} : s.panicked = none → s.taskState t = .running →
      Step debug s (.tick t) { s with current := t }
  | yield {s : State T} {t : T} {p : Pc} : s.panicked = none →
      (s.pc s.current).afterYield = some p → s.taskState t = .running →
      Step debug s (.yield t) { s.goto p with current := t }

end Mutex

end UlmerOS
