import UlmerOS.Arch.Context
import UlmerOS.Sched.SchedInv

/-!
# Interrupts and the switch of the context

`x86_irq_handler` of `irq.c`, the end of `schedule` in `sched.c` and the kernel stacks of
`task.c`, over the scheduler of `Sched/Sched.lean`.  An interrupt saves the registers on the
kernel stack of the current task.  Timer ticks and `yield` call `schedule`, which may return the
context of another task, and everything up to `iretq` runs with interrupts disabled and is one
step.  The handlers of system calls and exceptions enable interrupts: their call and their
return are two steps, and other tasks run between them.

The code of the tasks is any change of the registers and of the memory that leaves alone the
kernel stacks of the other tasks, and on the task's own what lies above its stack pointer at the
last interrupt.  A kernel stack that is not large enough is not looked at by the code; here
there is no step without room for a context.
-/

namespace UlmerOS

namespace Switch

variable {T P V : Type} [DecidableEq T] [DecidableEq P] [DecidableEq V]

/-- `KSTACK_SIZE`. -/
def kstackSize : Nat := 8192

/-- `stack_align`. -/
def stackAlign (stackPtr : Nat) : Nat := stackPtr / 8 * 8

/-- `syscall_count`. -/
def syscallCount : Nat := 20

/-- The argument registers of a system call. -/
def syscallArgs : List Reg := [.r8, .r9, .r10, .r11, .r12, .r13]

/-- The scheduler, the processor, the kernel stacks, and what else a `task_t` has. -/
structure State (T P V : Type) where
  sched : Sched.State T P
  /-- The registers of the processor. -/
  cpu : Regs
  /-- `rsp0` of `s_tss`. -/
  rsp0 : Nat
  /-- The address space that was applied last. -/
  cr3 : V
  mem : Words
  /-- `kstack_base`. -/
  kstackBase : T → Nat
  /-- `context`. -/
  context : T → Nat
  /-- `vspace`. -/
  vspace : T → V
  /-- `ctx` in the calls of `x86_irq_handler` that have not returned, the last call first. -/
  handlers : T → List Nat

/-- `kstack_ptr`. -/
def State.kstackPtr (m : State T P V) (t : T) : Nat := stackAlign (m.kstackBase t + kstackSize)

/-- The task was created, and its kernel stack was not freed. -/
def State.Live (m : State T P V) (t : T) : Prop :=
  m.sched.stage t ≠ .unborn ∧ t ∉ m.sched.freed

instance (m : State T P V) (t : T) : Decidable (m.Live t) :=
  inferInstanceAs (Decidable (_ ∧ _))

/-! ## What the kernel does -/

/-- The part of `schedule` behind `get_next_task`: the context that is restored. -/
def State.schedule (m : State T P V) (sched : Sched.State T P) (ctx : Nat) : State T P V × Nat :=
  match sched.current with
  | none => ({ m with sched := sched }, ctx)
  | some next =>
      if m.sched.current = some next then ({ m with sched := sched }, ctx)
      else
        ({ m with
            sched := sched
            context := m.sched.current.elim m.context fun c => Function.update m.context c ctx
            cr3 := if m.sched.current.map m.vspace = some (m.vspace next) then m.cr3
              else m.vspace next
            rsp0 := stackAlign (m.kstackBase next + kstackSize) },
          m.context next)

/-- The registers at the end of an interrupt.  `regs` is what the handler leaves in them. -/
def State.iret (m : State T P V) (ctx : Nat) (regs : Regs) : State T P V :=
  { m with cpu := restoreContext m.mem ctx regs }

/-- Kernel code that neither creates a task, calls `schedule` nor frees a kernel stack. -/
def Plain (s s' : Sched.State T P) : Prop :=
  s' = s ∨ ∃ a, Sched.Step s a s' ∧ (∀ t, a ≠ .create t) ∧ (∀ fuel, a ≠ .schedule fuel) ∧
    (a = .cleanup → ∀ t rest, s.cleanupPc ≠ .delete t rest)

/-- The kernel stacks of the tasks that wait are the same. -/
def State.KeepsOthers (m : State T P V) (mem mem' : Words) : Prop :=
  ∀ t, m.Live t → m.sched.current ≠ some t →
    SameBetween (m.kstackBase t) (m.kstackPtr t) mem mem'

/-- The current task is interrupted, its registers are saved at `ctx`, and the handler has used
memory below. -/
structure State.Saves (m : State T P V) (c : T) (irq error : Nat) (ctx : Nat) (mem : Words) :
    Prop where
  current : m.sched.current = some c
  room : m.kstackBase c + contextSize ≤ entrySp m.cpu m.rsp0
  ctx_eq : ctx = (saveContext m.cpu m.rsp0 irq error m.mem).2
  others : m.KeepsOthers (saveContext m.cpu m.rsp0 irq error m.mem).1 mem
  own : SameBetween ctx (m.kstackPtr c) (saveContext m.cpu m.rsp0 irq error m.mem).1 mem

/-- What happens. -/
inductive Event where
  /-- Code of the task. -/
  | run
  /-- The timer, or `yield`. -/
  | tick
  /-- Another interrupt of a device. -/
  | irq (id : Nat)
  /-- A system call, with its arguments. -/
  | syscall (id : Nat) (args : List Nat)
  /-- A system call that does not exist. -/
  | nosys
  | exception (irq : Nat)
  /-- The handler is done.  That of a system call has a result. -/
  | done (result : Nat)
  | create (entry stackPtr : Nat) (flags : CtxFlags) (arg0 arg1 : Nat)
  /-- `kfree(task->kstack_base)`. -/
  | free
  /-- Code of the startup, which is no task. -/
  | boot

/-- The steps, with the task that they are steps of. -/
inductive Step : State T P V → Option T × Event → State T P V → Prop where
  | run {m : State T P V} {c : T} {cpu : Regs} {mem : Words} {sched : Sched.State T P} :
      m.sched.current = some c → Plain m.sched sched → cpu.user = m.cpu.user →
      (cpu.user = false → m.kstackBase c ≤ cpu .rsp ∧
        cpu .rsp ≤ (m.handlers c).headD (m.kstackPtr c)) →
      m.KeepsOthers m.mem mem →
      SameBetween ((m.handlers c).headD (m.kstackPtr c)) (m.kstackPtr c) m.mem mem →
      Step m (some c, .run) { m with cpu := cpu, mem := mem, sched := sched }
  | tick {m : State T P V} {c : T} {irq fuel ctx : Nat} {mem : Words} {sched : Sched.State T P}
      {regs : Regs} :
      irq = 32 ∧ m.cpu.interruptible = true ∨ irq = 31 ∧ m.cpu.user = false →
      m.Saves c irq 0 ctx mem → Sched.schedule fuel m.sched = .ret sched →
      Step m (some c, .tick)
        ((State.schedule { m with mem := mem } sched ctx).1.iret
          (State.schedule { m with mem := mem } sched ctx).2 regs)
  | irq {m : State T P V} {c : T} {irq ctx : Nat} {mem : Words} {sched : Sched.State T P}
      {regs : Regs} :
      32 < irq → irq < 48 → m.cpu.interruptible = true → m.Saves c irq 0 ctx mem →
      Plain m.sched sched →
      Step m (some c, .irq (irq - 32)) (State.iret { m with mem := mem, sched := sched } ctx regs)
  | syscall {m : State T P V} {c : T} {ctx : Nat} {mem : Words} {cpu : Regs} :
      m.Saves c 0x80 (m.cpu .rax) ctx mem → getField mem ctx .error < syscallCount →
      cpu.user = false → m.kstackBase c ≤ cpu .rsp → cpu .rsp ≤ ctx →
      Step m
        (some c, .syscall (getField mem ctx (.reg .rax))
          (syscallArgs.map fun r => getField mem ctx (.reg r)))
        { m with
          cpu := cpu
          mem := mem
          handlers := Function.update m.handlers c (ctx :: m.handlers c) }
  | nosys {m : State T P V} {c : T} {ctx : Nat} {mem : Words} {regs : Regs} :
      m.Saves c 0x80 (m.cpu .rax) ctx mem → ¬ getField mem ctx .error < syscallCount →
      Step m (some c, .nosys)
        (State.iret { m with mem := setField mem ctx (.reg .rax) (toSize (-enosys)) } ctx regs)
  | exception {m : State T P V} {c : T} {irq error ctx : Nat} {mem : Words} {cpu : Regs} :
      irq < 31 → m.Saves c irq error ctx mem →
      cpu.user = false → m.kstackBase c ≤ cpu .rsp → cpu .rsp ≤ ctx →
      Step m (some c, .exception irq)
        { m with
          cpu := cpu
          mem := mem
          handlers := Function.update m.handlers c (ctx :: m.handlers c) }
  | done {m : State T P V} {c : T} {result ctx : Nat} {ctxs : List Nat} {regs : Regs} :
      m.sched.current = some c → m.cpu.user = false → m.handlers c = ctx :: ctxs →
      Step m (some c, .done result)
        (State.iret
          { m with
            mem := if getField m.mem ctx .irq = 0x80 then setField m.mem ctx (.reg .rax) result
              else m.mem
            handlers := Function.update m.handlers c ctxs }
          ctx regs)
  | create {m : State T P V} {t : T} {kstackBase entry stackPtr arg0 arg1 : Nat} {vspace : V}
      {flags : CtxFlags} {sched : Sched.State T P} :
      Sched.Step m.sched (.create t) sched →
      (∀ u, m.Live u → kstackBase + kstackSize ≤ m.kstackBase u ∨
        m.kstackBase u + kstackSize ≤ kstackBase) →
      (flags.usermode = false → stackPtr = stackAlign (kstackBase + kstackSize)) →
      Step m (some t, .create entry stackPtr flags arg0 arg1)
        { m with
          sched := sched
          mem := (contextInit m.mem (stackAlign (kstackBase + kstackSize)) entry stackPtr flags
            arg0 arg1).1
          kstackBase := Function.update m.kstackBase t kstackBase
          context := Function.update m.context t (contextInit m.mem
            (stackAlign (kstackBase + kstackSize)) entry stackPtr flags arg0 arg1).2
          vspace := Function.update m.vspace t vspace
          handlers := Function.update m.handlers t [] }
  | free {m : State T P V} {t : T} {rest : List T} {sched : Sched.State T P} :
      m.sched.cleanupPc = .delete t rest → Sched.Step m.sched .cleanup sched →
      Step m (some t, .free) { m with sched := sched }
  | boot {m : State T P V} {cpu : Regs} {mem : Words} {sched : Sched.State T P} :
      m.sched.current = none → Plain m.sched sched → m.KeepsOthers m.mem mem →
      Step m (none, .boot) { m with cpu := cpu, mem := mem, sched := sched }
  | start {m : State T P V} {fuel ctx : Nat} {mem : Words} {sched : Sched.State T P}
      {regs : Regs} :
      m.sched.current = none → m.sched.enabled = true → m.KeepsOthers m.mem mem →
      Sched.schedule fuel m.sched = .ret sched →
      Step m (none, .tick)
        ((State.schedule { m with mem := mem } sched ctx).1.iret
          (State.schedule { m with mem := mem } sched ctx).2 regs)

end Switch

end UlmerOS
