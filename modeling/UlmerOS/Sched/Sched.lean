import UlmerOS.Base
import UlmerOS.Lib.Run
import UlmerOS.Sched.Task

/-!
# The scheduler and the task list

`sched.c`, the task creation of `task.c` and the cleanup task of `tasklist.c`,
on one processor.  `schedule` runs with interrupts disabled and is one step.
Everything else a task does is cut into the stores that a timer tick can fall
between.

A task is named by the `task_t` it was created as, so a name is never used
again after the task was freed.  `sched_tasks` and `task_list` are lists of such
names, and a list iterator is a position.
-/

namespace UlmerOS

namespace Sched

open Transition (Run Guarded)

variable {T P : Type} [DecidableEq T]

/-! ## Lists of tasks -/

/-- `list_rotate`: the head goes to the tail. -/
def listRotate : List T → List T
  | [] => []
  | t :: l => l ++ [t]

/-- `list_find`: the position of the first item with this payload.  `NULL` is no
item's payload. -/
def listFind (l : List T) (t : Option T) : Option Nat :=
  l.findIdx? (fun u => some u == t)

/-- `list_it_remove`, which dereferences the iterator it is given. -/
def listItRemove (l : List T) : Option Nat → Outcome (List T)
  | none => .fault
  | some i => .ret (l.eraseIdx i)

/-! ## The state -/

/-- The fields of `task_t` that are read here. -/
structure Task (P : Type) where
  state : TaskState
  irqWait : Bool
  process : Option P
deriving DecidableEq, Repr

/-- How far a task's creator has come. -/
inductive Stage where
  /-- Not allocated. -/
  | unborn
  /-- `tl_insert` has added it to `task_list`. -/
  | listed
  /-- `tl_insert` has counted it in `task_count`. -/
  | counted
  /-- `sched_insert` has added it to `sched_tasks`. -/
  | inserted
deriving DecidableEq, Repr

/-- Where the cleanup task is.  The lists are the items its iterator has still to
visit, which nobody else changes while it holds `task_list_lock`. -/
inductive CleanupPc (T : Type) where
  /-- `while (task_count > 0)`, with `task_list_lock` free. -/
  | loop
  /-- The next item's state is read. -/
  | scan (rest : List T)
  /-- `task_delete(task)`. -/
  | delete (t : T) (rest : List T)
  /-- `list_it_remove(&task_list, it)`. -/
  | unlist (t : T) (rest : List T)
  /-- `atomic_add(&task_count, -1)`. -/
  | uncount (rest : List T)
  /-- The loop is over. -/
  | done
deriving DecidableEq, Repr

/-- Whether the cleanup task holds `task_list_lock`. -/
def CleanupPc.locked : CleanupPc T → Bool
  | .loop | .done => false
  | _ => true

/-- The scheduler, the task list and the tasks. -/
structure State (T P : Type) where
  /-- The contents of each `task_t`. -/
  tasks : T → Task P
  /-- The state of each process. -/
  procs : P → ProcState
  /-- `sched_tasks`. -/
  schedTasks : List T
  /-- `current_task`. -/
  current : Option T
  /-- `sched_enabled`. -/
  enabled : Bool
  /-- `task_list`. -/
  taskList : List T
  /-- `task_count`. -/
  taskCount : Nat
  /-- How far each task's creation has come. -/
  stage : T → Stage
  /-- The tasks whose `task_t` and kernel stack were freed. -/
  freed : List T
  /-- Where the cleanup task is. -/
  cleanupPc : CleanupPc T
  /-- The idle task. -/
  idle : T
  /-- The cleanup task. -/
  cleanup : T

/-- Store to a task's state. -/
def State.setState (s : State T P) (t : T) (st : TaskState) : State T P :=
  { s with tasks := Function.update s.tasks t { s.tasks t with state := st } }

/-- Store to a task's `irq_wait`. -/
def State.setIrqWait (s : State T P) (t : T) (b : Bool) : State T P :=
  { s with tasks := Function.update s.tasks t { s.tasks t with irqWait := b } }

/-! ## `sched.c` -/

/-- `task->process && task->process->state == PROC_KILLED`. -/
def State.procKilled (s : State T P) (t : T) : Bool :=
  match (s.tasks t).process with
  | none => false
  | some p => s.procs p == .killed

/-- Remove `current_task` from `sched_tasks`, which is what both removals of the
source do. -/
def State.removeCurrent (s : State T P) : Outcome (State T P) :=
  listItRemove s.schedTasks (listFind s.schedTasks s.current) >>= fun l =>
    .ret { s with schedTasks := l }

/-- If the process of a task was killed, the task is killed as well. -/
def State.killWithProcess (s : State T P) (t : T) : State T P :=
  if s.procKilled t then s.setState t .killed else s

/-- `task_schedulable`.  A killed task removes the *current* task from the list. -/
def taskSchedulable (s : State T P) (t : T) : Outcome (Bool × State T P) :=
  let s := s.killWithProcess t
  (if (s.tasks t).state = .killed then s.removeCurrent else .ret s) >>= fun s =>
    .ret (if (s.tasks t).irqWait then false else (s.tasks t).state == .running, s)

/-- `get_next_task`, with a bound on the rounds of its loop. -/
def getNextTask : Nat → State T P → Outcome (T × State T P)
  | 0, _ => .hang
  | fuel + 1, s =>
      match s.schedTasks with
      | [] => .panic "no schedulable task"
      | next :: _ =>
          taskSchedulable { s with schedTasks := listRotate s.schedTasks } next >>= fun (ok, s') =>
            if ok then .ret (next, s') else getNextTask fuel s'

/-- The part of `schedule` that leaves the current task for another one. -/
def State.leaveCurrent (s : State T P) : Outcome (State T P) :=
  match s.current with
  | none => .ret s
  | some c => if (s.tasks c).state = .killed then s.removeCurrent else .ret s

/-- `schedule`. -/
def schedule (fuel : Nat) (s : State T P) : Outcome (State T P) :=
  if !s.enabled then .ret s else
    getNextTask fuel s >>= fun (next, s) =>
      if s.current = some next then .ret s else
        s.leaveCurrent >>= fun s => .ret { s with current := some next }

/-! ## The cleanup task -/

/-- One step of `cleanup_task_func`. -/
def State.cleanupStep (s : State T P) : State T P :=
  match s.cleanupPc with
  | .loop =>
      if s.taskCount > 0 then { s with cleanupPc := .scan s.taskList }
      else { s with cleanupPc := .done }
  | .scan [] => { s with cleanupPc := .loop }
  | .scan (t :: rest) =>
      if (s.tasks t).state = .killed then { s with cleanupPc := .delete t rest }
      else { s with cleanupPc := .scan rest }
  | .delete t rest => { s with freed := t :: s.freed, cleanupPc := .unlist t rest }
  | .unlist t rest => { s with taskList := s.taskList.erase t, cleanupPc := .uncount rest }
  | .uncount rest =>
      { s with taskCount := wrap64 (s.taskCount + minusOne), cleanupPc := .scan rest }
  | .done => s

/-! ## Steps -/

/-- What happens next. -/
inductive Action (T P : Type) where
  /-- `create_kernel_task`, `create_user_task`: up to the `list_add` of `tl_insert`. -/
  | create (t : T)
  /-- The `atomic_add` of `tl_insert`. -/
  | count (t : T)
  /-- `main_thread->process = proc`. -/
  | assign (t : T) (p : P)
  /-- `sched_insert`. -/
  | insert (t : T)
  /-- `sched_enable`. -/
  | enable
  /-- The store of `task_kill`. -/
  | kill
  /-- The first store of `sys_exit`. -/
  | exit
  /-- `current_task->state = TASK_SLEEPING` in `mutex_lock`. -/
  | sleep
  /-- `task->state = TASK_RUNNING` in `mutex_unlock`. -/
  | wake (t : T)
  /-- The store of `irq_wait_until`. -/
  | irqWait
  /-- `irq_signal`. -/
  | irqSignal (t : T)
  /-- A timer tick or a `yield`. -/
  | schedule (fuel : Nat)
  /-- One step of the cleanup task. -/
  | cleanup
deriving DecidableEq, Repr

/-- A task that runs ordinary kernel or user code: it is current and running, and
it is neither the idle task nor the cleanup task inside its loop. -/
def State.Active (s : State T P) (c : T) : Prop :=
  s.current = some c ∧ (s.tasks c).state = .running ∧ c ≠ s.idle ∧
    (c = s.cleanup → s.cleanupPc = .done)

variable [DecidableEq P]

/-- The steps of the kernel. -/
inductive Step : State T P → Action T P → State T P → Prop where
  | create {s : State T P} {t : T} : s.stage t = .unborn → s.cleanupPc.locked = false →
      Step s (.create t)
        { s with
          tasks := Function.update s.tasks t ⟨.running, false, none⟩
          taskList := s.taskList ++ [t]
          stage := Function.update s.stage t .listed }
  | count {s : State T P} {t : T} : s.stage t = .listed →
      Step s (.count t)
        { s with
          taskCount := wrap64 (s.taskCount + 1)
          stage := Function.update s.stage t .counted }
  | assign {s : State T P} {t : T} {p : P} : s.stage t = .counted →
      Step s (.assign t p)
        { s with tasks := Function.update s.tasks t { s.tasks t with process := some p } }
  | insert {s : State T P} {t : T} : s.stage t = .counted →
      Step s (.insert t)
        { s with
          schedTasks := s.schedTasks ++ [t]
          stage := Function.update s.stage t .inserted }
  | enable {s : State T P} : Step s .enable { s with enabled := true }
  | kill {s : State T P} {c : T} : s.Active c → Step s .kill (s.setState c .killed)
  | exit {s : State T P} {c : T} {p : P} : s.Active c →
      (s.tasks c).process = some p →
      Step s .exit { s with procs := Function.update s.procs p .killed }
  | sleep {s : State T P} {c : T} : s.current = some c → (s.tasks c).state = .running →
      c ≠ s.idle → Step s .sleep (s.setState c .sleeping)
  | wake {s : State T P} {t : T} : Step s (.wake t) (s.setState t .running)
  | irqWait {s : State T P} {c : T} : s.current = some c → c ≠ s.idle →
      Step s .irqWait (s.setIrqWait c true)
  | irqSignal {s : State T P} {t : T} : Step s (.irqSignal t) (s.setIrqWait t false)
  | schedule {s s' : State T P} {fuel : Nat} : schedule fuel s = .ret s' →
      Step s (.schedule fuel) s'
  | cleanup {s : State T P} : s.current = some s.cleanup → Step s .cleanup s.cleanupStep

/-- The state `sched_init` leaves: the cleanup task and the idle task. -/
def State.init (idle cleanup : T) : State T P where
  tasks := fun _ => ⟨.running, false, none⟩
  procs := fun _ => .running
  schedTasks := [cleanup, idle]
  current := none
  enabled := false
  taskList := [cleanup, idle]
  taskCount := 2
  stage := fun t => if t = idle ∨ t = cleanup then .inserted else .unborn
  freed := []
  cleanupPc := .loop
  idle := idle
  cleanup := cleanup

end Sched

end UlmerOS
