import UlmerOS.Lib.Product
import UlmerOS.Sched.Switch

/-!
# Every task keeps its registers

A task should be able to rely on registers of its own: they change by its own code, and a system
call changes `rax`.  `Thread` is such a task, with the contexts that wait for its handlers to
return.  An interrupt changes nothing there, however many tasks run before the next one.

The code has one set of registers, and kernel stacks for all others.  `State.view` reads off a
state what a task's registers are, and `contexts_isolated` is that in every run each task has
made a run of its own as a thread.

The contexts of a task lie on its kernel stack above each other, the oldest at the top
(`Saved`).  A task that was interrupted in user mode has no other, and for one in kernel mode
the stack pointer is below them (`Fits`).
-/

namespace UlmerOS

namespace Switch

open Transition (Run Guarded own)

variable {T P V : Type}

/-! ## What a task sees -/

/-- The registers of a task, and what waits for its handlers: the number of the interrupt, and
the registers that come back. -/
structure Thread where
  regs : Regs
  waiting : List (Nat × Regs)

/-- The registers that are there again when a handler returns. -/
def resumed (irq result : Nat) (regs : Regs) : Regs :=
  if irq = 0x80 then Function.update regs .rax result else regs

/-- The steps of a task that is alone. -/
inductive Thread.Step : Option Thread → Event → Option Thread → Prop where
  | run {th : Thread} {regs : Regs} : regs.user = th.regs.user →
      Step (some th) .run (some { th with regs := regs })
  | tick {th : Option Thread} : Step th .tick th
  | irq {th : Option Thread} {id : Nat} : Step th (.irq id) th
  | syscall {th : Thread} {regs : Regs} : th.regs .rax < syscallCount → regs.user = false →
      Step (some th) (.syscall (th.regs .rax) (syscallArgs.map th.regs))
        (some ⟨regs, (0x80, th.regs) :: th.waiting⟩)
  | nosys {th : Thread} : ¬ th.regs .rax < syscallCount →
      Step (some th) .nosys
        (some { th with regs := Function.update th.regs .rax (toSize (-enosys)) })
  | exception {th : Thread} {irq : Nat} {regs : Regs} : regs.user = false →
      Step (some th) (.exception irq) (some ⟨regs, (irq, th.regs) :: th.waiting⟩)
  | done {regs old : Regs} {irq result : Nat} {rest : List (Nat × Regs)} : regs.user = false →
      Step (some ⟨regs, (irq, old) :: rest⟩) (.done result) (some ⟨resumed irq result old, rest⟩)
  | create {entry stackPtr arg0 arg1 : Nat} {flags : CtxFlags} {regs : Regs} :
      Fresh entry stackPtr flags arg0 arg1 regs →
      Step none (.create entry stackPtr flags arg0 arg1) (some ⟨regs, []⟩)
  | free {th : Option Thread} : Step th .free none
  | boot : Step none .boot none

/-- What the contexts in memory stand for. -/
def waiting (mem : Words) (ctxs : List Nat) : List (Nat × Regs) :=
  ctxs.map fun ctx => (getField mem ctx .irq, loadContext mem ctx)

/-- What a task sees.  The startup, which is no task, is not asked. -/
def State.view [DecidableEq T] (m : State T P V) : Option T → Option Thread
  | none => none
  | some t =>
      if m.Live t then
        some
          { regs := if m.sched.current = some t then m.cpu else loadContext m.mem (m.context t)
            waiting := waiting m.mem (m.handlers t) }
      else none

/-! ## Contexts on a stack -/

/-- The contexts lie above `lo`, one above the other. -/
def Stacked (top : Nat) : Nat → List Nat → Prop
  | lo, [] => lo ≤ top
  | lo, ctx :: ctxs => lo ≤ ctx ∧ Stacked top (ctx + contextSize) ctxs

/-- Registers that go with the contexts above. -/
structure Fits (base top : Nat) (regs : Regs) (ctxs : List Nat) : Prop where
  user : regs.user = true → ctxs = []
  kernel : regs.user = false → base ≤ regs .rsp ∧ Stacked top (regs .rsp) ctxs

/-- The contexts are on the stack, and each fits those above it. -/
def Saved (mem : Words) (base top : Nat) : List Nat → Prop
  | [] => True
  | ctx :: ctxs =>
      base ≤ ctx ∧ Stacked top (ctx + contextSize) ctxs ∧
        Fits base top (loadContext mem ctx) ctxs ∧ Saved mem base top ctxs

theorem Stacked.le_top {top lo : Nat} {ctxs : List Nat} (h : Stacked top lo ctxs) : lo ≤ top := by
  induction ctxs generalizing lo with
  | nil => exact h
  | cons ctx ctxs ih =>
      obtain ⟨hle, hrest⟩ := h
      have hctx := ih hrest
      omega

theorem Stacked.mono {top lo lo' : Nat} {ctxs : List Nat} (h : Stacked top lo ctxs)
    (hle : lo' ≤ lo) : Stacked top lo' ctxs := by
  cases ctxs with
  | nil => exact hle.trans h
  | cons ctx ctxs => exact ⟨hle.trans h.1, h.2⟩

/-- The contexts are above what `headD` gives for the first of them. -/
theorem Stacked.headD {top lo : Nat} {ctxs : List Nat} (h : Stacked top lo ctxs) :
    Stacked top (ctxs.headD top) ctxs := by
  cases ctxs with
  | nil => exact Nat.le_refl top
  | cons ctx ctxs => exact ⟨Nat.le_refl ctx, h.2⟩

/-- The contexts are the same if the memory is. -/
theorem waiting_same {mem mem' : Words} {top lo : Nat} {ctxs : List Nat}
    (hsame : SameBetween lo top mem mem') (h : Stacked top lo ctxs) :
    waiting mem' ctxs = waiting mem ctxs := by
  induction ctxs generalizing lo with
  | nil => rfl
  | cons ctx ctxs ih =>
      obtain ⟨hle, hrest⟩ := h
      have hctx : SameBetween ctx (ctx + contextSize) mem mem' := hsame.narrow hle hrest.le_top
      have htail := ih (hsame.narrow (by omega) (Nat.le_refl top)) hrest
      simp only [waiting, List.map_cons] at htail ⊢
      rw [hctx.getField, hctx.load, htail]

theorem Saved.same {mem mem' : Words} {base top lo : Nat} {ctxs : List Nat}
    (h : Saved mem base top ctxs) (hsame : SameBetween lo top mem mem')
    (hstack : Stacked top lo ctxs) : Saved mem' base top ctxs := by
  induction ctxs generalizing lo with
  | nil => trivial
  | cons ctx ctxs ih =>
      obtain ⟨hbase, hrest, hfits, htail⟩ := h
      obtain ⟨hle, -⟩ := hstack
      have hctx : SameBetween ctx (ctx + contextSize) mem mem' := hsame.narrow hle hrest.le_top
      refine ⟨hbase, hrest, ?_, ih htail (hsame.narrow (by omega) (Nat.le_refl top)) hrest⟩
      rw [hctx.load]
      exact hfits

/-- All contexts are above the base. -/
theorem Saved.stacked {mem : Words} {base top : Nat} {ctxs : List Nat}
    (h : Saved mem base top ctxs) (hle : base ≤ top) : Stacked top base ctxs := by
  cases ctxs with
  | nil => exact hle
  | cons ctx ctxs => exact ⟨h.1, h.2.1⟩

theorem Fits.stacked {base top lo : Nat} {regs : Regs} {ctxs : List Nat}
    (h : Fits base top regs ctxs) (hle : lo ≤ if regs.user then top else regs .rsp) :
    Stacked top lo ctxs := by
  cases huser : regs.user with
  | true =>
      rw [h.user huser]
      show lo ≤ top
      simpa [huser] using hle
  | false =>
      refine (h.kernel huser).2.mono ?_
      simpa [huser] using hle

/-! ## The invariant -/

/-- The kernel stacks do not overlap, the task that runs has the stack and the address space
for it, and the contexts of all tasks are on their stacks. -/
structure Inv (m : State T P V) : Prop where
  sched : Sched.Inv m.sched
  apart : ∀ t u, m.Live t → m.Live u → t ≠ u →
    m.kstackBase t + kstackSize ≤ m.kstackBase u ∨ m.kstackBase u + kstackSize ≤ m.kstackBase t
  rsp0 : ∀ c, m.sched.current = some c → m.rsp0 = m.kstackPtr c
  cr3 : ∀ c, m.sched.current = some c → m.cr3 = m.vspace c
  running : ∀ c, m.sched.current = some c →
    Fits (m.kstackBase c) (m.kstackPtr c) m.cpu (m.handlers c) ∧
      Saved m.mem (m.kstackBase c) (m.kstackPtr c) (m.handlers c)
  waits : ∀ t, m.Live t → m.sched.current ≠ some t →
    Saved m.mem (m.kstackBase t) (m.kstackPtr t) (m.context t :: m.handlers t)

/-- `kstack_ptr` is the end of the block of memory, or a few bytes below. -/
theorem kstackPtr_le (m : State T P V) (t : T) :
    m.kstackPtr t ≤ m.kstackBase t + kstackSize ∧
      m.kstackBase t + contextSize ≤ m.kstackPtr t := by
  simp only [State.kstackPtr, stackAlign, kstackSize, contextSize_eq]
  omega

/-- The task that runs is in the list of the scheduler. -/
theorem Inv.live {m : State T P V} (h : Inv m) {c : T} (hc : m.sched.current = some c) :
    m.Live c := by
  have hmem := h.sched.current_mem c hc
  refine ⟨?_, fun hfreed => (h.sched.freed_gone c hfreed).1 hmem⟩
  rw [h.sched.staged c hmem]
  simp

/-- Nothing has changed for a task that waits. -/
structure Rest (m m' : State T P V) (t : T) : Prop where
  live : m'.Live t ↔ m.Live t
  context : m'.context t = m.context t
  handlers : m'.handlers t = m.handlers t
  base : m'.kstackBase t = m.kstackBase t
  mem : m.Live t → SameBetween (m.kstackBase t) (m.kstackPtr t) m.mem m'.mem

theorem Rest.saved {m m' : State T P V} {t : T} (hrest : Rest m m' t) (hlive : m.Live t)
    (h : Saved m.mem (m.kstackBase t) (m.kstackPtr t) (m.context t :: m.handlers t)) :
    Saved m'.mem (m'.kstackBase t) (m'.kstackPtr t) (m'.context t :: m'.handlers t) := by
  have hptr : m'.kstackPtr t = m.kstackPtr t := by
    rw [State.kstackPtr, hrest.base, State.kstackPtr]
  rw [hrest.context, hrest.handlers, hrest.base, hptr]
  have hptr := kstackPtr_le m t
  exact h.same (hrest.mem hlive) (h.stacked (by omega))

/-- The contexts of a task that waits stand for the same. -/
theorem Rest.contexts {m m' : State T P V} {t : T} (hrest : Rest m m' t) (hlive : m.Live t)
    (h : Saved m.mem (m.kstackBase t) (m.kstackPtr t) (m.context t :: m.handlers t)) :
    loadContext m'.mem (m'.context t) = loadContext m.mem (m.context t) ∧
      waiting m'.mem (m'.handlers t) = waiting m.mem (m.handlers t) := by
  have hsame := hrest.mem hlive
  have hptr := kstackPtr_le m t
  have hstack := h.stacked (by omega)
  rw [hrest.context, hrest.handlers]
  refine ⟨(hsame.narrow hstack.1 hstack.2.le_top).load, ?_⟩
  exact waiting_same (hsame.narrow (hstack.1.trans (Nat.le_add_right _ _)) (Nat.le_refl _)) hstack.2

section

variable [DecidableEq T]

theorem view_live {m : State T P V} {t : T} (h : m.Live t) :
    m.view (some t) = some
      { regs := if m.sched.current = some t then m.cpu else loadContext m.mem (m.context t)
        waiting := waiting m.mem (m.handlers t) } := if_pos h

theorem view_not_live {m : State T P V} {t : T} (h : ¬ m.Live t) : m.view (some t) = none :=
  if_neg h

theorem Rest.view {m m' : State T P V} {t : T} (hrest : Rest m m' t)
    (hcur : m.sched.current ≠ some t) (hcur' : m'.sched.current ≠ some t)
    (h : m.Live t →
      Saved m.mem (m.kstackBase t) (m.kstackPtr t) (m.context t :: m.handlers t)) :
    m'.view (some t) = m.view (some t) := by
  cases Decidable.em (m.Live t) with
  | inl hlive =>
      obtain ⟨hload, hwaiting⟩ := hrest.contexts hlive (h hlive)
      rw [view_live hlive, view_live (hrest.live.mpr hlive), if_neg hcur, if_neg hcur', hload,
        hwaiting]
  | inr hnot => rw [view_not_live hnot, view_not_live (mt hrest.live.mp hnot)]

/-- A step of the task that runs, which goes on to run. -/
theorem Inv.move {m : State T P V} {c : T} (h : Inv m) (m' : State T P V)
    (hc : m.sched.current = some c) (hsched : Sched.Inv m'.sched)
    (hc' : m'.sched.current = some c) (hlive : m'.Live c)
    (hbase : m'.kstackBase c = m.kstackBase c) (hrsp0 : m'.rsp0 = m.rsp0) (hcr3 : m'.cr3 = m.cr3)
    (hvspace : m'.vspace = m.vspace)
    (hfits : Fits (m.kstackBase c) (m.kstackPtr c) m'.cpu (m'.handlers c))
    (hsaved : Saved m'.mem (m.kstackBase c) (m.kstackPtr c) (m'.handlers c))
    (hrest : ∀ t, t ≠ c → Rest m m' t) :
    Inv m' ∧ m'.view (some c) = some ⟨m'.cpu, waiting m'.mem (m'.handlers c)⟩ ∧
      ∀ j, j ≠ some c → m'.view j = m.view j := by
  have hptr : m'.kstackPtr c = m.kstackPtr c := by rw [State.kstackPtr, hbase, State.kstackPtr]
  have hother : ∀ t, t ≠ c → m.sched.current ≠ some t ∧ m'.sched.current ≠ some t := by
    intro t ht
    rw [hc, hc']
    exact ⟨fun heq => ht (Option.some.inj heq).symm, fun heq => ht (Option.some.inj heq).symm⟩
  have hlives : ∀ t, m'.Live t ↔ m.Live t := fun t => by
    cases Decidable.em (t = c) with
    | inl heq => exact heq ▸ ⟨fun _ => h.live hc, fun _ => hlive⟩
    | inr hne => exact (hrest t hne).live
  have hbases : ∀ t, m'.kstackBase t = m.kstackBase t := fun t => by
    cases Decidable.em (t = c) with
    | inl heq => exact heq ▸ hbase
    | inr hne => exact (hrest t hne).base
  have hcurrent : ∀ d, m'.sched.current = some d → d = c := fun d hd =>
    Option.some.inj (hd.symm.trans hc')
  refine ⟨⟨hsched, ?_, ?_, ?_, ?_, ?_⟩, ?_, ?_⟩
  · intro t u ht hu hne
    rw [hbases, hbases]
    exact h.apart t u ((hlives t).mp ht) ((hlives u).mp hu) hne
  · intro d hd
    rw [hcurrent d hd, hrsp0, hptr]
    exact h.rsp0 c hc
  · intro d hd
    rw [hcurrent d hd, hcr3, hvspace]
    exact h.cr3 c hc
  · intro d hd
    rw [hcurrent d hd, hbase, hptr]
    exact ⟨hfits, hsaved⟩
  · intro t ht hcur
    have hne : t ≠ c := fun heq => hcur (heq ▸ hc')
    have hold := (hlives t).mp ht
    exact (hrest t hne).saved hold (h.waits t hold (hother t hne).1)
  · rw [view_live hlive, if_pos hc']
  · intro j hj
    cases j with
    | none => rfl
    | some t =>
        have hne : t ≠ c := fun heq => hj (congrArg some heq)
        exact (hrest t hne).view (hother t hne).1 (hother t hne).2
          fun hold => h.waits t hold (hother t hne).1

/-! ## What the scheduler keeps -/

/-- A change of the scheduler's state that neither switches, creates nor frees. -/
structure SchedKept (s s' : Sched.State T P) : Prop where
  inv : Sched.Inv s'
  current : s'.current = s.current
  freed : s'.freed = s.freed
  stage : ∀ t, s'.stage t = .unborn ↔ s.stage t = .unborn

/-- A creator moves on to a stage behind the first. -/
theorem stage_update {s : Sched.State T P} {t : T} {g : Sched.Stage} (hs : s.stage t ≠ .unborn)
    (hg : g ≠ .unborn) (u : T) :
    Function.update s.stage t g u = .unborn ↔ s.stage u = .unborn := by
  cases Decidable.em (u = t) with
  | inl heq =>
      subst heq
      rw [Function.update_self]
      exact ⟨fun h => absurd h hg, fun h => absurd h hs⟩
  | inr hne => rw [Function.update_of_ne hne]

theorem Plain.kept [DecidableEq P] {s s' : Sched.State T P} (hinv : Sched.Inv s)
    (h : Plain s s') : SchedKept s s' := by
  rcases h with rfl | ⟨a, hst, hcreate, hschedule, hdelete⟩
  · exact ⟨hinv, rfl, rfl, fun _ => Iff.rfl⟩
  · have hinv' : Sched.Inv s' := hinv.step hst fun fuel heq => absurd heq (hschedule fuel)
    cases hst with
    | create => exact absurd rfl (hcreate _)
    | count hstage =>
        exact ⟨hinv', rfl, rfl, stage_update (by rw [hstage]; simp) (by simp)⟩
    | assign => exact ⟨hinv', rfl, rfl, fun _ => Iff.rfl⟩
    | insert hstage =>
        exact ⟨hinv', rfl, rfl, stage_update (by rw [hstage]; simp) (by simp)⟩
    | enable => exact ⟨hinv', rfl, rfl, fun _ => Iff.rfl⟩
    | kill => exact ⟨hinv', rfl, rfl, fun _ => Iff.rfl⟩
    | exit => exact ⟨hinv', rfl, rfl, fun _ => Iff.rfl⟩
    | sleep => exact ⟨hinv', rfl, rfl, fun _ => Iff.rfl⟩
    | wake => exact ⟨hinv', rfl, rfl, fun _ => Iff.rfl⟩
    | irqWait => exact ⟨hinv', rfl, rfl, fun _ => Iff.rfl⟩
    | irqSignal => exact ⟨hinv', rfl, rfl, fun _ => Iff.rfl⟩
    | schedule => exact absurd rfl (hschedule _)
    | cleanup =>
        have hkept : s.cleanupStep.current = s.current ∧ s.cleanupStep.freed = s.freed ∧
            s.cleanupStep.stage = s.stage := by
          unfold Sched.State.cleanupStep
          split
          · split <;> exact ⟨rfl, rfl, rfl⟩
          · exact ⟨rfl, rfl, rfl⟩
          · split <;> exact ⟨rfl, rfl, rfl⟩
          · next hpc => exact absurd hpc (hdelete rfl _ _)
          · exact ⟨rfl, rfl, rfl⟩
          · exact ⟨rfl, rfl, rfl⟩
          · exact ⟨rfl, rfl, rfl⟩
        exact ⟨hinv', hkept.1, hkept.2.1, fun t => by rw [hkept.2.2]⟩

/-- `schedule` returns what it was given, or chooses a task of the list. -/
theorem schedule_kept {s s' : Sched.State T P} {fuel : Nat} (hinv : Sched.Inv s)
    (hclean : s.enabled = true → Sched.ScanClean s) (h : Sched.schedule fuel s = .ret s') :
    Sched.Inv s' ∧ s'.freed = s.freed ∧ s'.stage = s.stage ∧
      (s.enabled = false ∧ s' = s ∨ ∃ next, s'.current = some next) := by
  refine ⟨hinv.schedule hclean h, ?_⟩
  cases he : s.enabled with
  | false =>
      rw [Sched.schedule, if_pos (by simp [he])] at h
      cases h
      exact ⟨rfl, rfl, Or.inl ⟨rfl, rfl⟩⟩
  | true =>
      obtain ⟨next, post, hlist, hnext⟩ := Sched.State.exists_ready hinv.idle_mem hinv.ready_idle
      rw [Sched.schedule_clean he (hclean he) hlist hnext hinv.current_mem] at h
      split at h
      · cases h
      · cases h
        exact ⟨rfl, rfl, Or.inr ⟨next, rfl⟩⟩

end

/-! ## The start of an interrupt -/

/-- What the handler finds: the context of the task, below those that wait. -/
structure Entered (m : State T P V) (c : T) (irq error ctx : Nat) (mem : Words) : Prop where
  base : m.kstackBase c ≤ ctx
  stacked : Stacked (m.kstackPtr c) (ctx + contextSize) (m.handlers c)
  fields : ∀ f, getField mem ctx f = savedField m.cpu irq error f
  saved : Saved mem (m.kstackBase c) (m.kstackPtr c) (m.handlers c)
  waiting : waiting mem (m.handlers c) = waiting m.mem (m.handlers c)
  others : ∀ t, t ≠ c → m.Live t → SameBetween (m.kstackBase t) (m.kstackPtr t) m.mem mem

theorem Entered.load {m : State T P V} {c : T} {irq error ctx : Nat} {mem : Words}
    (h : Entered m c irq error ctx mem) : loadContext mem ctx = m.cpu :=
  funext fun r => h.fields (.reg r)

theorem Inv.enters {m : State T P V} {c : T} {irq error ctx : Nat} {mem : Words} (h : Inv m)
    (hs : m.Saves c irq error ctx mem) : Entered m c irq error ctx mem := by
  have hctx : ctx = entrySp m.cpu m.rsp0 - contextSize := by
    rw [hs.ctx_eq, saveContext_ctx]
  have hroom := hs.room
  obtain ⟨hfits, hsaved⟩ := h.running c hs.current
  -- the context lies below the stack pointer, at a multiple of 16
  have hstack : Stacked (m.kstackPtr c) (entrySp m.cpu m.rsp0) (m.handlers c) := by
    refine hfits.stacked ?_
    rw [entrySp, h.rsp0 c hs.current]
    split <;> omega
  have hend : ctx + contextSize = entrySp m.cpu m.rsp0 := by omega
  have habove : SameBetween (entrySp m.cpu m.rsp0) (m.kstackPtr c) m.mem mem :=
    (saveContext_outside (by omega) (Or.inr (Nat.le_refl _))).trans
      (hs.own.narrow (by omega) (Nat.le_refl _))
  refine ⟨by omega, hend ▸ hstack, fun f => ?_, hsaved.same habove hstack,
    waiting_same habove hstack, fun t ht hlive => ?_⟩
  · have hsame : SameBetween ctx (ctx + contextSize) (saveContext m.cpu m.rsp0 irq error m.mem).1
        mem := hs.own.narrow (Nat.le_refl ctx) (hend ▸ hstack.le_top)
    rw [hsame.getField, hctx, saveContext_get (by omega)]
  · have hcur : m.sched.current ≠ some t := by
      rw [hs.current]
      exact fun heq => ht (Option.some.inj heq).symm
    refine SameBetween.trans ?_ (hs.others t hlive hcur)
    have hc := kstackPtr_le m c
    have htop := kstackPtr_le m t
    have hle := hstack.le_top
    refine saveContext_outside (by omega) ?_
    cases h.apart t c hlive (h.live hs.current) ht with
    | inl hbelow => exact Or.inl (by omega)
    | inr habove' => exact Or.inr (by omega)

/-- The contexts with the new one. -/
theorem Entered.saved_cons {m : State T P V} {c : T} {irq error ctx : Nat} {mem : Words}
    (he : Entered m c irq error ctx mem)
    (hfits : Fits (m.kstackBase c) (m.kstackPtr c) m.cpu (m.handlers c)) :
    Saved mem (m.kstackBase c) (m.kstackPtr c) (ctx :: m.handlers c) :=
  ⟨he.base, he.stacked, he.load.symm ▸ hfits, he.saved⟩

/-! ## The steps -/

/-- A task that is not the one that runs, and whose fields are the same. -/
theorem Rest.of_kept {m m' : State T P V} {t : T} (hkept : SchedKept m.sched m'.sched)
    (hcontext : m'.context t = m.context t) (hhandlers : m'.handlers t = m.handlers t)
    (hbase : m'.kstackBase t = m.kstackBase t)
    (hmem : m.Live t → SameBetween (m.kstackBase t) (m.kstackPtr t) m.mem m'.mem) :
    Rest m m' t := by
  refine ⟨?_, hcontext, hhandlers, hbase, hmem⟩
  simp only [State.Live, ne_eq, hkept.freed, hkept.stage t]

theorem SchedKept.refl {s : Sched.State T P} (h : Sched.Inv s) : SchedKept s s :=
  ⟨h, rfl, rfl, fun _ => Iff.rfl⟩

theorem SchedKept.live {m m' : State T P V} {t : T} (hkept : SchedKept m.sched m'.sched)
    (h : m.Live t) : m'.Live t :=
  ⟨mt (hkept.stage t).mp h.1, hkept.freed ▸ h.2⟩

section

variable [DecidableEq T]

/-- What a step has to do: the task whose step it is makes one as a thread, and the others see
nothing. -/
structure Seen (m m' : State T P V) (i : Option T) (e : Event) : Prop where
  inv : Inv m'
  own : Thread.Step (m.view i) e (m'.view i)
  others : ∀ j, j ≠ i → m'.view j = m.view j

theorem view_running {m : State T P V} {c : T} (h : Inv m) (hc : m.sched.current = some c) :
    m.view (some c) = some ⟨m.cpu, waiting m.mem (m.handlers c)⟩ := by
  rw [view_live (h.live hc), if_pos hc]

theorem Inv.run [DecidableEq P] {m : State T P V} {c : T} {cpu : Regs} {mem : Words}
    {sched : Sched.State T P} (h : Inv m) (hc : m.sched.current = some c)
    (hplain : Plain m.sched sched) (huser : cpu.user = m.cpu.user)
    (hrsp : cpu.user = false → m.kstackBase c ≤ cpu .rsp ∧
      cpu .rsp ≤ (m.handlers c).headD (m.kstackPtr c))
    (hothers : m.KeepsOthers m.mem mem)
    (hown : SameBetween ((m.handlers c).headD (m.kstackPtr c)) (m.kstackPtr c) m.mem mem) :
    Seen m { m with cpu := cpu, mem := mem, sched := sched } (some c) .run := by
  have hkept := hplain.kept h.sched
  obtain ⟨hfits, hsaved⟩ := h.running c hc
  have hstack : Stacked (m.kstackPtr c) ((m.handlers c).headD (m.kstackPtr c)) (m.handlers c) :=
    (hfits.stacked (Nat.le_refl _)).headD
  have hfits' : Fits (m.kstackBase c) (m.kstackPtr c) cpu (m.handlers c) :=
    ⟨fun hu => hfits.user (huser ▸ hu), fun hk => ⟨(hrsp hk).1, hstack.mono (hrsp hk).2⟩⟩
  have hrest : ∀ t, t ≠ c → Rest m { m with cpu := cpu, mem := mem, sched := sched } t :=
    fun t ht => Rest.of_kept hkept rfl rfl rfl fun hlive => hothers t hlive (by
      rw [hc]
      exact fun heq => ht (Option.some.inj heq).symm)
  obtain ⟨hinv, hview, hviews⟩ := h.move { m with cpu := cpu, mem := mem, sched := sched } hc
    hkept.inv (hkept.current.trans hc) (hkept.live (h.live hc)) rfl rfl rfl rfl hfits'
    (hsaved.same hown hstack) hrest
  refine ⟨hinv, ?_, hviews⟩
  rw [hview, view_running h hc, waiting_same hown hstack]
  exact .run huser

/-- An interrupt after which the task goes on, with the registers that are in its context. -/
theorem Inv.back [DecidableEq P] {m : State T P V} {c : T} {irq error ctx : Nat}
    {mem mem' : Words} {sched : Sched.State T P} (h : Inv m) (regs : Regs)
    (hs : m.Saves c irq error ctx mem) (hkept : SchedKept m.sched sched)
    (hmem : ∀ lo hi, hi ≤ ctx ∨ ctx + contextSize ≤ lo → SameBetween lo hi mem mem')
    (hfits : Fits (m.kstackBase c) (m.kstackPtr c) (loadContext mem' ctx) (m.handlers c)) :
    Inv (State.iret { m with mem := mem', sched := sched } ctx regs) ∧
      State.view (State.iret { m with mem := mem', sched := sched } ctx regs) (some c) =
        some ⟨loadContext mem' ctx, waiting m.mem (m.handlers c)⟩ ∧
      ∀ j, j ≠ some c →
        State.view (State.iret { m with mem := mem', sched := sched } ctx regs) j = m.view j := by
  have he := h.enters hs
  have hcpu : (State.iret { m with mem := mem', sched := sched } ctx regs).cpu =
      loadContext mem' ctx := restore_eq_load ..
  have habove : SameBetween (ctx + contextSize) (m.kstackPtr c) mem mem' :=
    hmem _ _ (Or.inr (Nat.le_refl _))
  have hptr := kstackPtr_le m c
  have hle := he.stacked.le_top
  have hrest : ∀ t, t ≠ c →
      Rest m (State.iret { m with mem := mem', sched := sched } ctx regs) t := fun t ht =>
    Rest.of_kept hkept rfl rfl rfl fun hlive => (he.others t ht hlive).trans (hmem _ _ (by
      have htop := kstackPtr_le m t
      have hbase := he.base
      cases h.apart t c hlive (h.live hs.current) ht with
      | inl hbelow => exact Or.inl (by omega)
      | inr habove => exact Or.inr (by omega)))
  obtain ⟨hinv, hview, hviews⟩ := h.move
    (State.iret { m with mem := mem', sched := sched } ctx regs) hs.current hkept.inv
    (hkept.current.trans hs.current) (hkept.live (h.live hs.current)) rfl rfl rfl rfl
    (hcpu ▸ hfits) (he.saved.same habove he.stacked) hrest
  refine ⟨hinv, ?_, hviews⟩
  rw [hview, hcpu]
  show some (Thread.mk _ (waiting mem' (m.handlers c))) = _
  rw [waiting_same habove he.stacked, he.waiting]

/-- The handler of a system call or an exception starts. -/
theorem Inv.enter {m : State T P V} {c : T} {irq error ctx : Nat} {mem : Words} {cpu : Regs}
    (h : Inv m) (hs : m.Saves c irq error ctx mem) (huser : cpu.user = false)
    (hbase : m.kstackBase c ≤ cpu .rsp) (hrsp : cpu .rsp ≤ ctx) :
    let m' : State T P V :=
      { m with
        cpu := cpu
        mem := mem
        handlers := Function.update m.handlers c (ctx :: m.handlers c) }
    Inv m' ∧ m'.view (some c) = some ⟨cpu, (irq, m.cpu) :: waiting m.mem (m.handlers c)⟩ ∧
      ∀ j, j ≠ some c → m'.view j = m.view j := by
  intro m'
  have he := h.enters hs
  have hhandlers : m'.handlers c = ctx :: m.handlers c := Function.update_self ..
  have hfits : Fits (m.kstackBase c) (m.kstackPtr c) cpu (m'.handlers c) := by
    rw [hhandlers]
    exact ⟨fun hu => absurd (hu.symm.trans huser) (by simp), fun _ => ⟨hbase, hrsp, he.stacked⟩⟩
  have hsaved : Saved m'.mem (m.kstackBase c) (m.kstackPtr c) (m'.handlers c) :=
    hhandlers ▸ he.saved_cons (h.running c hs.current).1
  have hrest : ∀ t, t ≠ c → Rest m m' t := fun t ht =>
    Rest.of_kept (SchedKept.refl h.sched) rfl (Function.update_of_ne ht ..) rfl (he.others t ht)
  obtain ⟨hinv, hview, hviews⟩ := h.move m' hs.current h.sched hs.current
    (h.live hs.current) rfl rfl rfl rfl hfits hsaved hrest
  refine ⟨hinv, ?_, hviews⟩
  have hirq : getField mem ctx .irq = irq := he.fields .irq
  rw [hview, hhandlers, ← he.waiting]
  show some (Thread.mk cpu ((getField mem ctx .irq, loadContext mem ctx) ::
    waiting mem (m.handlers c))) = _
  rw [hirq, he.load]

theorem Inv.syscall {m : State T P V} {c : T} {ctx : Nat} {mem : Words} {cpu : Regs}
    (h : Inv m) (hs : m.Saves c 0x80 (m.cpu .rax) ctx mem)
    (hcount : getField mem ctx .error < syscallCount) (huser : cpu.user = false)
    (hbase : m.kstackBase c ≤ cpu .rsp) (hrsp : cpu .rsp ≤ ctx) :
    Seen m
      { m with
        cpu := cpu
        mem := mem
        handlers := Function.update m.handlers c (ctx :: m.handlers c) }
      (some c) (.syscall (getField mem ctx (.reg .rax))
        (syscallArgs.map fun r => getField mem ctx (.reg r))) := by
  have he := h.enters hs
  obtain ⟨hinv, hview, hviews⟩ := h.enter hs huser hbase hrsp
  refine ⟨hinv, ?_, hviews⟩
  have herror : getField mem ctx .error = m.cpu .rax := he.fields .error
  have hargs : (fun r => getField mem ctx (.reg r)) = m.cpu := funext fun r => he.fields (.reg r)
  rw [hview, view_running h hs.current, hargs]
  rw [herror] at hcount
  rw [show getField mem ctx (.reg .rax) = m.cpu .rax from he.fields (.reg .rax)]
  exact @Thread.Step.syscall ⟨m.cpu, waiting m.mem (m.handlers c)⟩ cpu hcount huser

theorem Inv.exception {m : State T P V} {c : T} {irq error ctx : Nat} {mem : Words}
    {cpu : Regs} (h : Inv m) (hs : m.Saves c irq error ctx mem) (huser : cpu.user = false)
    (hbase : m.kstackBase c ≤ cpu .rsp) (hrsp : cpu .rsp ≤ ctx) :
    Seen m
      { m with
        cpu := cpu
        mem := mem
        handlers := Function.update m.handlers c (ctx :: m.handlers c) }
      (some c) (.exception irq) := by
  obtain ⟨hinv, hview, hviews⟩ := h.enter hs huser hbase hrsp
  refine ⟨hinv, ?_, hviews⟩
  rw [hview, view_running h hs.current]
  exact Thread.Step.exception huser

theorem Fits.update {base top : Nat} {regs : Regs} {ctxs : List Nat} {v : Nat}
    (h : Fits base top regs ctxs) : Fits base top (Function.update regs .rax v) ctxs :=
  ⟨h.user, h.kernel⟩

/-- A system call that does not exist returns at once. -/
theorem Inv.nosys [DecidableEq P] {m : State T P V} {c : T} {ctx : Nat} {mem : Words}
    {regs : Regs} (h : Inv m) (hs : m.Saves c 0x80 (m.cpu .rax) ctx mem)
    (hcount : ¬ getField mem ctx .error < syscallCount) :
    Seen m
      (State.iret { m with mem := setField mem ctx (.reg .rax) (toSize (-enosys)) } ctx regs)
      (some c) .nosys := by
  have he := h.enters hs
  have hload : loadContext (setField mem ctx (.reg .rax) (toSize (-enosys))) ctx =
      Function.update m.cpu .rax (toSize (-enosys)) := by
    rw [load_setField, he.load]
  obtain ⟨hinv, hview, hviews⟩ := h.back regs hs (SchedKept.refl h.sched)
    (fun lo hi hout => setField_same hout) (hload ▸ (h.running c hs.current).1.update)
  refine ⟨hinv, ?_, hviews⟩
  rw [show getField mem ctx .error = m.cpu .rax from he.fields .error] at hcount
  rw [hload] at hview
  have hstep := @Thread.Step.nosys ⟨m.cpu, waiting m.mem (m.handlers c)⟩ hcount
  rw [← view_running h hs.current] at hstep
  exact hview ▸ hstep

theorem Inv.irq [DecidableEq P] {m : State T P V} {c : T} {irq ctx id : Nat} {mem : Words}
    {sched : Sched.State T P} {regs : Regs} (h : Inv m) (hs : m.Saves c irq 0 ctx mem)
    (hplain : Plain m.sched sched) :
    Seen m (State.iret { m with mem := mem, sched := sched } ctx regs) (some c) (.irq id) := by
  have he := h.enters hs
  obtain ⟨hinv, hview, hviews⟩ := h.back regs hs (hplain.kept h.sched)
    (fun lo hi _ a _ _ => rfl) (he.load.symm ▸ (h.running c hs.current).1)
  refine ⟨hinv, ?_, hviews⟩
  rw [he.load, ← view_running h hs.current] at hview
  exact hview ▸ Thread.Step.irq

/-- The handler of a system call or an exception returns. -/
theorem Inv.done {m : State T P V} {c : T} {result ctx : Nat} {ctxs : List Nat} {regs : Regs}
    (h : Inv m) (hc : m.sched.current = some c) (huser : m.cpu.user = false)
    (hctxs : m.handlers c = ctx :: ctxs) :
    Seen m
      (State.iret
        { m with
          mem := if getField m.mem ctx .irq = 0x80 then setField m.mem ctx (.reg .rax) result
            else m.mem
          handlers := Function.update m.handlers c ctxs }
        ctx regs)
      (some c) (.done result) := by
  obtain ⟨hfits, hsaved⟩ := h.running c hc
  rw [hctxs] at hsaved
  obtain ⟨hbase, hstack, hfits', htail⟩ := hsaved
  let mem' := if getField m.mem ctx .irq = 0x80 then setField m.mem ctx (.reg .rax) result
    else m.mem
  let m' := State.iret
    { m with mem := mem', handlers := Function.update m.handlers c ctxs } ctx regs
  have hmem : ∀ lo hi, hi ≤ ctx ∨ ctx + contextSize ≤ lo → SameBetween lo hi m.mem mem' := by
    intro lo hi hout
    simp only [mem']
    split
    · exact setField_same hout
    · exact fun _ _ _ => rfl
  have hload : loadContext mem' ctx = resumed (getField m.mem ctx .irq) result
      (loadContext m.mem ctx) := by
    simp only [mem', resumed]
    split
    · exact load_setField ..
    · rfl
  have hcpu : m'.cpu = resumed (getField m.mem ctx .irq) result (loadContext m.mem ctx) :=
    (restore_eq_load ..).trans hload
  have hhandlers : m'.handlers c = ctxs := Function.update_self ..
  have habove : SameBetween (ctx + contextSize) (m.kstackPtr c) m.mem mem' :=
    hmem _ _ (Or.inr (Nat.le_refl _))
  have hresumed : Fits (m.kstackBase c) (m.kstackPtr c) m'.cpu (m'.handlers c) := by
    rw [hcpu, hhandlers, resumed]
    split
    · exact hfits'.update
    · exact hfits'
  have hsaved' : Saved m'.mem (m.kstackBase c) (m.kstackPtr c) (m'.handlers c) :=
    hhandlers ▸ htail.same habove hstack
  have hrest : ∀ t, t ≠ c → Rest m m' t := fun t ht =>
    Rest.of_kept (SchedKept.refl h.sched) rfl (Function.update_of_ne ht ..) rfl
      fun hlive => hmem _ _ (by
        have hptr := kstackPtr_le m c
        have htop := kstackPtr_le m t
        have hle := hstack.le_top
        cases h.apart t c hlive (h.live hc) ht with
        | inl hbelow => exact Or.inl (by omega)
        | inr habove => exact Or.inr (by omega))
  obtain ⟨hinv, hview, hviews⟩ := h.move m' hc h.sched hc (h.live hc) rfl rfl rfl rfl hresumed
    hsaved' hrest
  refine ⟨hinv, ?_, hviews⟩
  have hstep := @Thread.Step.done m.cpu (loadContext m.mem ctx) (getField m.mem ctx .irq) result
    (waiting m.mem ctxs) huser
  rw [hhandlers, hcpu, show waiting m'.mem ctxs = waiting m.mem ctxs from
    waiting_same habove hstack] at hview
  have hbefore : m.view (some c) = some ⟨m.cpu, (getField m.mem ctx .irq, loadContext m.mem ctx) ::
      waiting m.mem ctxs⟩ := by
    rw [view_running h hc, hctxs]
    rfl
  rw [← hbefore, ← hview] at hstep
  exact hstep

/-- Another task goes on.  Before that all tasks wait, the one that was interrupted with the
context `ctx`. -/
theorem Inv.resume [DecidableEq V] {m m' : State T P V} {sched : Sched.State T P} {next : T}
    (h : Inv m) (ctx : Nat) (regs : Regs) (mem : Words) (hsched : Sched.Inv sched)
    (hfreed : sched.freed = m.sched.freed) (hstage : sched.stage = m.sched.stage)
    (hnext : sched.current = some next) (hne : m.sched.current ≠ some next)
    (hm' : m' = (State.schedule { m with mem := mem } sched ctx).1.iret
      (State.schedule { m with mem := mem } sched ctx).2 regs)
    (hsaved : ∀ t, m.Live t → Saved mem (m.kstackBase t) (m.kstackPtr t)
      ((if m.sched.current = some t then ctx else m.context t) :: m.handlers t))
    (hsame : ∀ t, m.Live t →
      loadContext mem (if m.sched.current = some t then ctx else m.context t) =
          (if m.sched.current = some t then m.cpu else loadContext m.mem (m.context t)) ∧
        waiting mem (m.handlers t) = waiting m.mem (m.handlers t)) :
    Inv m' ∧ ∀ j, m'.view j = m.view j := by
  have hcontext : ∀ t, (m.sched.current.elim m.context fun c => Function.update m.context c ctx) t =
      if m.sched.current = some t then ctx else m.context t := by
    intro t
    cases hcur : m.sched.current with
    | none => rfl
    | some c =>
        show Function.update m.context c ctx t = _
        cases Decidable.em (t = c) with
        | inl heq => rw [heq, Function.update_self, if_pos rfl]
        | inr hne =>
            rw [Function.update_of_ne hne, if_neg fun heq => hne (Option.some.inj heq).symm]
  have hschedule : State.schedule { m with mem := mem } sched ctx =
      ({ m with
          mem := mem
          sched := sched
          context := m.sched.current.elim m.context fun c => Function.update m.context c ctx
          cr3 := if m.sched.current.map m.vspace = some (m.vspace next) then m.cr3
            else m.vspace next
          rsp0 := m.kstackPtr next },
        m.context next) := by
    simp only [State.schedule, hnext, if_neg hne]
    rfl
  rw [hschedule] at hm'
  have hlive : ∀ t, m'.Live t ↔ m.Live t := fun t => by
    rw [hm']
    simp only [State.Live, State.iret, hfreed, hstage]
  have hcur' : m'.sched.current = some next := by rw [hm']; exact hnext
  have hcpu : m'.cpu = loadContext mem (m.context next) := by
    rw [hm']
    exact restore_eq_load ..
  have hlivenext : m.Live next := by
    have hmem := hsched.current_mem next hnext
    refine ⟨?_, fun hf => (hsched.freed_gone next (hfreed ▸ hf)).1 hmem⟩
    rw [← hstage, hsched.staged next hmem]
    simp
  have hsavednext := hsaved next hlivenext
  rw [if_neg hne] at hsavednext
  have hother : ∀ t, t ≠ next → m'.sched.current ≠ some t := fun t ht heq =>
    ht (Option.some.inj (heq.symm.trans hcur'))
  have hcurrent : ∀ d, m'.sched.current = some d → d = next := fun d hd =>
    Option.some.inj (hd.symm.trans hcur')
  refine ⟨⟨?_, ?_, ?_, ?_, ?_, ?_⟩, ?_⟩
  · rw [hm']
    exact hsched
  · intro t u ht hu htu
    have hapart := h.apart t u ((hlive t).mp ht) ((hlive u).mp hu) htu
    rw [hm']
    exact hapart
  · intro d hd
    rw [hcurrent d hd, hm']
    rfl
  · intro d hd
    rw [hcurrent d hd, hm']
    show (if m.sched.current.map m.vspace = some (m.vspace next) then m.cr3 else m.vspace next) =
      m.vspace next
    split
    · next hsame =>
        obtain ⟨c, hc, hspace⟩ := Option.map_eq_some_iff.mp hsame
        rw [h.cr3 c hc, hspace]
    · rfl
  · intro d hd
    have hhandlers : m'.handlers next = m.handlers next := by rw [hm']; rfl
    rw [hcurrent d hd, hhandlers, hcpu]
    rw [hm']
    exact ⟨hsavednext.2.2.1, hsavednext.2.2.2⟩
  · intro t ht hcur
    have hwait := hsaved t ((hlive t).mp ht)
    rw [← hcontext t] at hwait
    rw [hm']
    exact hwait
  · intro j
    cases j with
    | none => rfl
    | some t =>
        cases Decidable.em (m.Live t) with
        | inr hnot => rw [view_not_live hnot, view_not_live (mt (hlive t).mp hnot)]
        | inl ht =>
            obtain ⟨hload, hwaiting⟩ := hsame t ht
            rw [view_live ((hlive t).mpr ht), view_live ht, ← hload, ← hwaiting]
            cases Decidable.em (t = next) with
            | inl heq =>
                subst heq
                rw [if_pos hcur', hcpu, if_neg hne, hm']
                rfl
            | inr hnot =>
                rw [if_neg (hother t hnot), ← hcontext t, hm']
                rfl

theorem Inv.tick [DecidableEq P] [DecidableEq V] {m : State T P V} {c : T} {irq fuel ctx : Nat}
    {mem : Words} {sched : Sched.State T P} {regs : Regs} (h : Inv m)
    (hclean : m.sched.enabled = true → Sched.ScanClean m.sched)
    (hs : m.Saves c irq 0 ctx mem) (hschedule : Sched.schedule fuel m.sched = .ret sched) :
    Seen m
      ((State.schedule { m with mem := mem } sched ctx).1.iret
        (State.schedule { m with mem := mem } sched ctx).2 regs)
      (some c) .tick := by
  have he := h.enters hs
  obtain ⟨hinv, hfreed, hstage, hchoice⟩ := schedule_kept h.sched hclean hschedule
  obtain ⟨next, hnext⟩ : ∃ next, sched.current = some next := by
    rcases hchoice with ⟨-, rfl⟩ | hex
    · exact ⟨c, hs.current⟩
    · exact hex
  have hfits := (h.running c hs.current).1
  cases Decidable.em (m.sched.current = some next) with
  | inl hsame =>
      -- the task goes on
      have heq : State.schedule { m with mem := mem } sched ctx =
          ({ m with mem := mem, sched := sched }, ctx) := by
        simp only [State.schedule, hnext, if_pos hsame]
      have hkept : SchedKept m.sched sched :=
        ⟨hinv, hnext.trans hsame.symm, hfreed, fun t => by rw [hstage]⟩
      obtain ⟨hinv', hview, hviews⟩ := h.back regs hs hkept
        (fun lo hi _ a _ _ => rfl) (he.load.symm ▸ hfits)
      rw [heq]
      refine ⟨hinv', ?_, hviews⟩
      rw [he.load, ← view_running h hs.current] at hview
      exact hview ▸ Thread.Step.tick
  | inr hne =>
      have hcur : ∀ t, t ≠ c → m.sched.current ≠ some t := fun t ht heq =>
        ht (Option.some.inj (heq.symm.trans hs.current))
      -- all tasks wait, the one that was interrupted with its new context
      have hsaved : ∀ t, m.Live t → Saved mem (m.kstackBase t) (m.kstackPtr t)
          ((if m.sched.current = some t then ctx else m.context t) :: m.handlers t) := by
        intro t ht
        cases Decidable.em (t = c) with
        | inl heq =>
            rw [heq, if_pos hs.current]
            exact he.saved_cons hfits
        | inr hnot =>
            rw [if_neg (hcur t hnot)]
            have hptr := kstackPtr_le m t
            have hwait := h.waits t ht (hcur t hnot)
            exact hwait.same (he.others t hnot ht) (hwait.stacked (by omega))
      have hsame : ∀ t, m.Live t →
          loadContext mem (if m.sched.current = some t then ctx else m.context t) =
              (if m.sched.current = some t then m.cpu else loadContext m.mem (m.context t)) ∧
            waiting mem (m.handlers t) = waiting m.mem (m.handlers t) := by
        intro t ht
        cases Decidable.em (t = c) with
        | inl heq =>
            rw [heq, if_pos hs.current, if_pos hs.current]
            exact ⟨he.load, he.waiting⟩
        | inr hnot =>
            rw [if_neg (hcur t hnot), if_neg (hcur t hnot)]
            have hrest : Rest m { m with mem := mem } t :=
              Rest.of_kept (SchedKept.refl h.sched) rfl rfl rfl (he.others t hnot)
            exact hrest.contexts ht (h.waits t ht (hcur t hnot))
      obtain ⟨hinv', hviews⟩ := h.resume ctx regs mem hinv hfreed hstage hnext hne rfl hsaved
        hsame
      refine ⟨hinv', ?_, fun j _ => hviews j⟩
      rw [hviews]
      exact .tick

/-- The first task starts. -/
theorem Inv.start [DecidableEq P] [DecidableEq V] {m : State T P V} {fuel ctx : Nat}
    {mem : Words} {sched : Sched.State T P} {regs : Regs} (h : Inv m)
    (hclean : m.sched.enabled = true → Sched.ScanClean m.sched) (hc : m.sched.current = none)
    (henabled : m.sched.enabled = true) (hothers : m.KeepsOthers m.mem mem)
    (hschedule : Sched.schedule fuel m.sched = .ret sched) :
    Seen m
      ((State.schedule { m with mem := mem } sched ctx).1.iret
        (State.schedule { m with mem := mem } sched ctx).2 regs)
      none .tick := by
  obtain ⟨hinv, hfreed, hstage, hchoice⟩ := schedule_kept h.sched hclean hschedule
  obtain ⟨next, hnext⟩ := hchoice.resolve_left fun hdis => by
    simp [henabled] at hdis
  have hcur : ∀ t, m.sched.current ≠ some t := by simp [hc]
  have hrest : ∀ t, Rest m { m with mem := mem } t := fun t =>
    Rest.of_kept (SchedKept.refl h.sched) rfl rfl rfl fun ht => hothers t ht (hcur t)
  obtain ⟨hinv', hviews⟩ := h.resume ctx regs mem hinv hfreed hstage hnext
    (hcur next) rfl
    (fun t ht => by
      rw [if_neg (hcur t)]
      exact (hrest t).saved ht (h.waits t ht (hcur t)))
    (fun t ht => by
      rw [if_neg (hcur t), if_neg (hcur t)]
      exact (hrest t).contexts ht (h.waits t ht (hcur t)))
  refine ⟨hinv', ?_, fun j _ => hviews j⟩
  rw [hviews]
  exact .tick

theorem Inv.boot [DecidableEq P] {m : State T P V} {cpu : Regs} {mem : Words}
    {sched : Sched.State T P} (h : Inv m) (hc : m.sched.current = none)
    (hplain : Plain m.sched sched) (hothers : m.KeepsOthers m.mem mem) :
    Seen m { m with cpu := cpu, mem := mem, sched := sched } none .boot := by
  have hkept := hplain.kept h.sched
  have hcur : ∀ t, m.sched.current ≠ some t := by simp [hc]
  have hcur' : ∀ t, sched.current ≠ some t := by simp [hkept.current, hc]
  have hrest : ∀ t, Rest m { m with cpu := cpu, mem := mem, sched := sched } t := fun t =>
    Rest.of_kept hkept rfl rfl rfl fun ht => hothers t ht (hcur t)
  refine ⟨⟨hkept.inv, ?_, ?_, ?_, ?_, ?_⟩, .boot, ?_⟩
  · intro t u ht hu hne
    exact h.apart t u ((hrest t).live.mp ht) ((hrest u).live.mp hu) hne
  · exact fun c heq => absurd heq (hcur' c)
  · exact fun c heq => absurd heq (hcur' c)
  · exact fun c heq => absurd heq (hcur' c)
  · intro t ht _
    have hold := (hrest t).live.mp ht
    exact (hrest t).saved hold (h.waits t hold (hcur t))
  · intro j hj
    cases j with
    | none => rfl
    | some t => exact (hrest t).view (hcur t) (hcur' t) fun hold => h.waits t hold (hcur t)

/-- A task is created, on a kernel stack that no other task has. -/
theorem Inv.create [DecidableEq P] {m : State T P V} {t : T}
    {kstackBase entry stackPtr arg0 arg1 : Nat} {vspace : V} {flags : CtxFlags}
    {sched : Sched.State T P} (h : Inv m) (hst : Sched.Step m.sched (.create t) sched)
    (happart : ∀ u, m.Live u → kstackBase + kstackSize ≤ m.kstackBase u ∨
      m.kstackBase u + kstackSize ≤ kstackBase)
    (hsp : flags.usermode = false → stackPtr = stackAlign (kstackBase + kstackSize)) :
    Seen m
      { m with
        sched := sched
        mem := (contextInit m.mem (stackAlign (kstackBase + kstackSize)) entry stackPtr flags
          arg0 arg1).1
        kstackBase := Function.update m.kstackBase t kstackBase
        context := Function.update m.context t (contextInit m.mem
          (stackAlign (kstackBase + kstackSize)) entry stackPtr flags arg0 arg1).2
        vspace := Function.update m.vspace t vspace
        handlers := Function.update m.handlers t [] }
      (some t) (.create entry stackPtr flags arg0 arg1) := by
  have hsched : Sched.Inv sched := h.sched.step hst fun fuel heq => by cases heq
  obtain ⟨hunborn, hcurrent, hfreed, hstage⟩ : m.sched.stage t = .unborn ∧
      sched.current = m.sched.current ∧ sched.freed = m.sched.freed ∧
      sched.stage = Function.update m.sched.stage t .listed := by
    cases hst with
    | create hunborn _ => exact ⟨hunborn, rfl, rfl, rfl⟩
  let top := stackAlign (kstackBase + kstackSize)
  let mem' := (contextInit m.mem top entry stackPtr flags arg0 arg1).1
  let m' : State T P V :=
    { m with
      sched := sched
      mem := mem'
      kstackBase := Function.update m.kstackBase t kstackBase
      context := Function.update m.context t (top - contextSize)
      vspace := Function.update m.vspace t vspace
      handlers := Function.update m.handlers t [] }
  have hnot : ¬ m.Live t := fun hl => hl.1 hunborn
  have hnotfreed : t ∉ m.sched.freed := fun hf => by
    have hin := (h.sched.freed_gone t hf).2
    rw [hunborn] at hin
    cases hin
  have htop : kstackBase + contextSize ≤ top ∧ top ≤ kstackBase + kstackSize := by
    simp only [top, stackAlign, kstackSize, contextSize_eq]
    omega
  have hcur : ∀ c, m.sched.current = some c → c ≠ t := fun c hc heq =>
    hnot (heq ▸ h.live hc)
  have hrest : ∀ u, u ≠ t → Rest m m' u := by
    intro u hu
    refine ⟨?_, Function.update_of_ne hu .., Function.update_of_ne hu ..,
      Function.update_of_ne hu .., fun hl => contextInit_same ?_⟩
    · simp only [State.Live, m', hfreed, hstage, Function.update_of_ne hu]
    · have hptr := kstackPtr_le m u
      cases happart u hl with
      | inl hbelow => exact Or.inr (by omega)
      | inr habove => exact Or.inl (by omega)
  have hlive' : m'.Live t := by
    refine ⟨?_, ?_⟩
    · show sched.stage t ≠ .unborn
      simp [hstage]
    · show t ∉ sched.freed
      rw [hfreed]
      exact hnotfreed
  have hbase : m'.kstackBase t = kstackBase := Function.update_self ..
  have hptr : m'.kstackPtr t = top := by simp only [State.kstackPtr, hbase, top]
  have hcontext : m'.context t = top - contextSize := Function.update_self ..
  have hhandlers : m'.handlers t = [] := Function.update_self ..
  have hfresh : Fresh entry stackPtr flags arg0 arg1 (loadContext mem' (top - contextSize)) :=
    load_init ..
  have hold : ∀ u, u ≠ t → (m'.Live u ↔ m.Live u) := fun u hu => (hrest u hu).live
  have hptrs : ∀ u, u ≠ t → m'.kstackPtr u = m.kstackPtr u := fun u hu => by
    rw [State.kstackPtr, (hrest u hu).base, State.kstackPtr]
  refine ⟨⟨hsched, ?_, ?_, ?_, ?_, ?_⟩, ?_, ?_⟩
  · intro u v hu hv huv
    show m'.kstackBase u + kstackSize ≤ m'.kstackBase v ∨
      m'.kstackBase v + kstackSize ≤ m'.kstackBase u
    cases Decidable.em (u = t) with
    | inl heq =>
        have hvt : v ≠ t := fun hv' => huv (heq.trans hv'.symm)
        rw [heq, hbase, (hrest v hvt).base]
        exact happart v ((hold v hvt).mp hv)
    | inr hut =>
        rw [(hrest u hut).base]
        cases Decidable.em (v = t) with
        | inl heq =>
            rw [heq, hbase]
            exact (happart u ((hold u hut).mp hu)).symm
        | inr hvt =>
            rw [(hrest v hvt).base]
            exact h.apart u v ((hold u hut).mp hu) ((hold v hvt).mp hv) huv
  · intro c hc
    have hc' : m.sched.current = some c := hcurrent.symm.trans hc
    show m.rsp0 = m'.kstackPtr c
    rw [hptrs c (hcur c hc')]
    exact h.rsp0 c hc'
  · intro c hc
    have hc' : m.sched.current = some c := hcurrent.symm.trans hc
    show m.cr3 = Function.update m.vspace t vspace c
    rw [Function.update_of_ne (hcur c hc')]
    exact h.cr3 c hc'
  · intro c hc
    have hc' : m.sched.current = some c := hcurrent.symm.trans hc
    have hrestc := hrest c (hcur c hc')
    obtain ⟨hfits, hsaved⟩ := h.running c hc'
    show Fits (m'.kstackBase c) (m'.kstackPtr c) m.cpu (m'.handlers c) ∧
      Saved mem' (m'.kstackBase c) (m'.kstackPtr c) (m'.handlers c)
    rw [hrestc.base, hptrs c (hcur c hc'), hrestc.handlers]
    have hptr := kstackPtr_le m c
    exact ⟨hfits, hsaved.same (hrestc.mem (h.live hc')) (hsaved.stacked (by omega))⟩
  · intro u hu hne
    have hne' : m.sched.current ≠ some u := fun heq => hne (hcurrent.trans heq)
    cases Decidable.em (u = t) with
    | inr hut =>
        have hlu := (hold u hut).mp hu
        exact (hrest u hut).saved hlu (h.waits u hlu hne')
    | inl heq =>
        show Saved mem' (m'.kstackBase u) (m'.kstackPtr u) (m'.context u :: m'.handlers u)
        rw [heq, hbase, hptr, hcontext, hhandlers]
        refine ⟨by omega, ?_, ⟨fun _ => rfl, fun hkernel => ?_⟩, trivial⟩
        · show top - contextSize + contextSize ≤ top
          omega
        · rw [hfresh.user] at hkernel
          rw [hfresh.rsp, hsp hkernel]
          exact ⟨by omega, Nat.le_refl top⟩
  · show Thread.Step (m.view (some t)) _ (m'.view (some t))
    have hne : m'.sched.current ≠ some t := fun heq =>
      hcur t (hcurrent.symm.trans heq) rfl
    rw [view_not_live hnot, view_live hlive', if_neg hne, hcontext, hhandlers]
    exact .create hfresh
  · intro j hj
    cases j with
    | none => rfl
    | some u =>
        have hut : u ≠ t := fun heq => hj (congrArg some heq)
        show m'.view (some u) = m.view (some u)
        cases Decidable.em (m.sched.current = some u) with
        | inr hne => exact (hrest u hut).view hne (hcurrent ▸ hne) fun hl => h.waits u hl hne
        | inl hcu =>
            have hptr := kstackPtr_le m u
            have hstack := (h.running u hcu).2.stacked (by omega)
            have hlu := (hold u hut).mpr (h.live hcu)
            rw [view_running h hcu, view_live hlu, if_pos (hcurrent.trans hcu),
              (hrest u hut).handlers]
            exact congrArg (fun ws => some (Thread.mk m.cpu ws))
              (waiting_same ((hrest u hut).mem (h.live hcu)) hstack)

/-- The kernel stack of a task is freed. -/
theorem Inv.free [DecidableEq P] {m : State T P V} {t : T} {rest : List T}
    {sched : Sched.State T P} (h : Inv m) (hpc : m.sched.cleanupPc = .delete t rest)
    (hst : Sched.Step m.sched .cleanup sched) :
    Seen m { m with sched := sched } (some t) .free := by
  have hsched : Sched.Inv sched := h.sched.step hst fun fuel heq => by cases heq
  obtain ⟨hcurrent, hfreed, hstage⟩ : sched.current = m.sched.current ∧
      sched.freed = t :: m.sched.freed ∧ sched.stage = m.sched.stage := by
    cases hst with
    | cleanup _ =>
        simp [Sched.State.cleanupStep, hpc]
  have hcur : ∀ c, m.sched.current = some c → c ≠ t := fun c hc heq =>
    (h.sched.deleting t rest hpc).1 (heq ▸ h.sched.current_mem c hc)
  have hlive : ∀ u, State.Live { m with sched := sched } u ↔ m.Live u ∧ u ≠ t := fun u => by
    simp only [State.Live, hstage, hfreed, List.mem_cons, not_or]
    tauto
  refine ⟨⟨hsched, ?_, ?_, ?_, ?_, ?_⟩, ?_, ?_⟩
  · intro u v hu hv huv
    exact h.apart u v ((hlive u).mp hu).1 ((hlive v).mp hv).1 huv
  · exact fun c hc => h.rsp0 c (hcurrent.symm.trans hc)
  · exact fun c hc => h.cr3 c (hcurrent.symm.trans hc)
  · exact fun c hc => h.running c (hcurrent.symm.trans hc)
  · exact fun u hu hne => h.waits u ((hlive u).mp hu).1 fun heq => hne (hcurrent.trans heq)
  · rw [view_not_live fun hl => ((hlive t).mp hl).2 rfl]
    exact .free
  · intro j hj
    cases j with
    | none => rfl
    | some u =>
        have hut : u ≠ t := fun heq => hj (congrArg some heq)
        cases Decidable.em (m.Live u) with
        | inl hl =>
            rw [view_live hl, view_live ((hlive u).mpr ⟨hl, hut⟩), hcurrent]
        | inr hnot => rw [view_not_live hnot, view_not_live fun hl => hnot ((hlive u).mp hl).1]

/-- The condition on a run: the scans of `schedule` meet no killed task. -/
def CleanTicks (m : State T P V) (l : Option T × Event) : Prop :=
  l.2 = .tick → m.sched.enabled = true → Sched.ScanClean m.sched

theorem Inv.step [DecidableEq P] [DecidableEq V] {m m' : State T P V} {i : Option T} {e : Event}
    (h : Inv m) (hst : Step m (i, e) m') (hclean : CleanTicks m (i, e)) : Seen m m' i e := by
  cases hst with
  | run hc hplain huser hrsp hothers hown => exact h.run hc hplain huser hrsp hothers hown
  | tick _ hs hschedule => exact h.tick (hclean rfl) hs hschedule
  | irq _ _ _ hs hplain => exact h.irq hs hplain
  | syscall hs hcount huser hbase hrsp => exact h.syscall hs hcount huser hbase hrsp
  | nosys hs hcount => exact h.nosys hs hcount
  | exception _ hs huser hbase hrsp => exact h.exception hs huser hbase hrsp
  | done hc huser hctxs => exact h.done hc huser hctxs
  | create hst happart hsp => exact h.create hst happart hsp
  | free hpc hst => exact h.free hpc hst
  | boot hc hplain hothers => exact h.boot hc hplain hothers
  | start hc henabled hothers hschedule => exact h.start (hclean rfl) hc henabled hothers hschedule

/-! ## Runs -/

/-- What `sched_init` leaves: two kernel tasks with contexts as `create_kernel_task` makes them,
on kernel stacks of their own. -/
structure Started (m : State T P V) (idle cleanup : T) : Prop where
  sched : m.sched = Sched.State.init idle cleanup
  ne : idle ≠ cleanup
  apart : m.kstackBase idle + kstackSize ≤ m.kstackBase cleanup ∨
    m.kstackBase cleanup + kstackSize ≤ m.kstackBase idle
  handlers : ∀ t, m.handlers t = []
  contexts : ∀ t, t = idle ∨ t = cleanup → ∃ mem entry arg0,
    m.context t =
      (contextInit mem (m.kstackPtr t) entry (m.kstackPtr t) ⟨false, false⟩ arg0 0).2 ∧
    SameBetween (m.kstackBase t) (m.kstackPtr t)
      (contextInit mem (m.kstackPtr t) entry (m.kstackPtr t) ⟨false, false⟩ arg0 0).1 m.mem

theorem Started.inv {m : State T P V} {idle cleanup : T} (h : Started m idle cleanup) : Inv m := by
  have hlive : ∀ t, m.Live t → t = idle ∨ t = cleanup := fun t ht => by
    by_contra hnot
    refine ht.1 ?_
    rw [h.sched]
    exact if_neg hnot
  have hcurrent : m.sched.current = none := by
    rw [h.sched]
    rfl
  refine ⟨h.sched ▸ Sched.Inv.init h.ne, ?_, ?_, ?_, ?_, ?_⟩
  · intro t u ht hu hne
    rcases hlive t ht with rfl | rfl <;> rcases hlive u hu with rfl | rfl
    · exact absurd rfl hne
    · exact h.apart
    · exact h.apart.symm
    · exact absurd rfl hne
  · simp [hcurrent]
  · simp [hcurrent]
  · simp [hcurrent]
  · intro t ht _
    obtain ⟨mem, entry, arg0, hctx, hmem⟩ := h.contexts t (hlive t ht)
    have hptr := kstackPtr_le m t
    have hctx' : m.context t = m.kstackPtr t - contextSize := hctx
    have hload : loadContext m.mem (m.kstackPtr t - contextSize) = loadContext
        (contextInit mem (m.kstackPtr t) entry (m.kstackPtr t) ⟨false, false⟩ arg0 0).1
        (m.kstackPtr t - contextSize) := (hmem.narrow (by omega) (by omega)).load
    have hfresh := load_init mem (m.kstackPtr t) entry (m.kstackPtr t) ⟨false, false⟩ arg0 0
    rw [h.handlers, hctx']
    refine ⟨by omega, ?_, ⟨fun _ => rfl, fun _ => ?_⟩, trivial⟩
    · show m.kstackPtr t - contextSize + contextSize ≤ m.kstackPtr t
      omega
    · rw [hload, hfresh.rsp]
      exact ⟨by omega, Nat.le_refl _⟩

/-- **Every task keeps its registers.**  In every run from `sched_init` whose scans meet no killed
task, each task has made a run of a thread that has the processor for itself: its registers
change by its own code, a system call gets six of them and changes `rax`, an exception changes
none, and the interrupts and the other tasks are not seen.  The task that runs has its registers
in the processor, its address space is applied, and `rsp0` is the end of its kernel stack. -/
theorem contexts_isolated [DecidableEq P] [DecidableEq V] {m m' : State T P V} {idle cleanup : T}
    {ls : List (Option T × Event)} (hm : Started m idle cleanup)
    (hr : Run (Guarded Step CleanTicks) m ls m') :
    (∀ t, Run Thread.Step (m.view (some t)) (own (some t) ls) (m'.view (some t))) ∧
      ∀ c, m'.sched.current = some c →
        m'.view (some c) = some ⟨m'.cpu, waiting m'.mem (m'.handlers c)⟩ ∧
          m'.cr3 = m'.vspace c ∧ m'.rsp0 = m'.kstackPtr c := by
  have hinv : Inv m' :=
    Run.invariant (P := Inv) (fun _ _ _ h hst => (h.step hst.1 hst.2).inv) hm.inv hr
  refine ⟨fun t => ?_, fun c hc => ⟨view_running hinv hc, hinv.cr3 c hc, hinv.rsp0 c hc⟩⟩
  refine hr.project (P := Inv) State.view (fun s i e u h hst => ?_) hm.inv (some t)
  have hseen := h.step hst.1 hst.2
  exact ⟨hseen.inv, hseen.own, hseen.others⟩

end

/-- The contexts of the cleanup task 1 and of the idle task 0. -/
def twoContexts : Words :=
  (contextInit (contextInit (fun _ => 0) 0x22000 0x1000 0x22000 ⟨false, false⟩ 0x2000 0).1
    0x12000 0x1000 0x12000 ⟨false, false⟩ 0x3000 0).1

def twoTasks : State Nat Nat Unit where
  sched := Sched.State.init 0 1
  cpu := fun _ => 0
  rsp0 := 0
  cr3 := ()
  mem := twoContexts
  kstackBase := fun t => 0x10000 * (t + 1)
  context := fun t => 0x10000 * (t + 1) + 8192 - 192
  vspace := fun _ => ()
  handlers := fun _ => []

theorem twoTasks_cleanup : SameBetween 0x20000 0x22000
    (contextInit (fun _ => 0) 0x22000 0x1000 0x22000 ⟨false, false⟩ 0x2000 0).1 twoContexts :=
  contextInit_same (Or.inr (by decide))

theorem twoTasks_started : Started twoTasks 0 1 where
  sched := rfl
  ne := by decide
  apart := Or.inl (by decide)
  handlers _ := rfl
  contexts t ht := by
    rcases ht with rfl | rfl
    · exact ⟨_, 0x1000, 0x3000, rfl, fun _ _ _ => rfl⟩
    · exact ⟨_, 0x1000, 0x2000, rfl, twoTasks_cleanup⟩

/-- The cleanup task starts, and the timer interrupts it before it has done anything. -/
theorem contexts_isolated_two : ∃ m : State Nat Nat Unit,
    Run (Guarded Step CleanTicks) twoTasks [(none, .boot), (none, .tick), (some 1, .tick)] m ∧
      m.sched.current = some 0 ∧
      Run Thread.Step (twoTasks.view (some 1)) [.tick] (m.view (some 1)) := by
  have hfresh : Fresh 0x1000 0x22000 ⟨false, false⟩ 0x2000 0
      (loadContext twoContexts (0x22000 - contextSize)) := by
    rw [(twoTasks_cleanup.narrow (by decide) (by decide)).load]
    exact load_init ..
  have hplain : Plain twoTasks.sched { twoTasks.sched with enabled := true } :=
    Or.inr ⟨.enable, .enable, nofun, nofun, nofun⟩
  obtain ⟨m0, hboot, hm0⟩ : ∃ m0, Guarded Step CleanTicks twoTasks (none, .boot) m0 ∧
      m0 = { twoTasks with sched := { twoTasks.sched with enabled := true } } :=
    ⟨_, ⟨.boot rfl hplain fun _ _ _ _ _ _ => rfl, nofun⟩, rfl⟩
  obtain ⟨m1, hstart, hsched, hcpu, hbase⟩ : ∃ m1,
      Guarded Step CleanTicks m0 (none, .tick) m1 ∧
        m1.sched = { twoTasks.sched with
          enabled := true, schedTasks := [0, 1], current := some 1 } ∧
        m1.cpu = loadContext twoContexts (0x22000 - contextSize) ∧
        m1.kstackBase 1 = 0x20000 := by
    rw [hm0]
    exact ⟨_, ⟨@Step.start _ _ _ _ _ _ _ 1 0 _ _ (fun _ => 0) rfl rfl
      (fun _ _ _ _ _ _ => rfl) rfl, fun _ _ => by decide⟩, rfl, restore_eq_load .., rfl⟩
  rw [← hcpu] at hfresh
  have hentry : entrySp m1.cpu m1.rsp0 = 0x22000 := by
    simp [entrySp, hfresh.user, hfresh.rsp]
  have hsaves : m1.Saves 1 32 0 (saveContext m1.cpu m1.rsp0 32 0 m1.mem).2
      (saveContext m1.cpu m1.rsp0 32 0 m1.mem).1 := by
    refine ⟨by rw [hsched], ?_, rfl, fun _ _ _ _ _ _ => rfl, fun _ _ _ => rfl⟩
    rw [hentry, hbase]
    decide
  have htimer : m1.cpu.interruptible = true := by
    rw [Regs.interruptible, hfresh.rflags]
    decide
  have hschedule : Sched.schedule 1 m1.sched = .ret { twoTasks.sched with
      enabled := true, schedTasks := [1, 0], current := some 0 } := by
    rw [hsched]
    rfl
  obtain ⟨m2, htick, hm2⟩ : ∃ m2, Guarded Step CleanTicks m1 (some 1, .tick) m2 ∧
      m2.sched.current = some 0 := by
    refine ⟨_, ⟨@Step.tick _ _ _ _ _ _ _ _ _ _ _ _ _ (fun _ => 0) (Or.inl ⟨rfl, htimer⟩) hsaves
      hschedule, fun _ _ => ?_⟩, ?_⟩
    · rw [hsched]
      decide
    · simp [State.schedule, State.iret, hsched]
  have hrun : Run (Guarded Step CleanTicks) twoTasks [(none, .boot), (none, .tick), (some 1, .tick)]
      m2 := .cons hboot (.cons hstart (.cons htick .nil))
  exact ⟨m2, hrun, hm2, (contexts_isolated twoTasks_started hrun).1 1⟩

end Switch

end UlmerOS
