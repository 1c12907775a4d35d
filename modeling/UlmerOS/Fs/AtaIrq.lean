import UlmerOS.Sched.TaskStage
import UlmerOS.Fs.BlockIo

/-!
# The disk interrupt

`ata_read` and `ata_irq` of `drivers/pc/ata.c` with the `irq_wait_until` and `irq_signal`
they use, for any number of controllers and of tasks on one processor.  The section of
`irq_wait_until` with interrupts disabled is one step, as are `ata_irq` and a call of
`schedule`.  Everything else is cut wherever an interrupt can arrive.

Only the holder of `transfer_lock` resets `data_ready` and writes `signal_task`.  The
interrupt stores to both sides at once: the transfer is complete, and the task that is to
be signalled no longer waits.  So a task that waits is one whose transfer is not complete
(`Inv.waiting`), whatever the interrupt falls between.

What the disk does is open: the status register reads as anything at any time.  The
registers that `ata_read` programs are left out.
-/

namespace UlmerOS

namespace Ata

open Function (update)
open Sched (Scans)
open Transition (Run)

/-! ## The driver's state -/

/-- `DMA_STAT_IRQ`. -/
def dmaStatIrq : Nat := 4

/-- The fields of `ide_channel_t` that belong to the interrupt. -/
structure IdeChannel (T : Type) where
  dataReady : Bool
  irqStatus : Nat
  /-- `signal_task`, which points to no task before the first transfer. -/
  signalTask : Option T
deriving DecidableEq, Repr

/-- Where a task is in its call of `ata_read`. -/
inductive Point where
  /-- `mutex_lock(&controller->transfer_lock)`. -/
  | lock
  /-- `while (blocks_remaining > 0)`. -/
  | loop
  /-- `channel->data_ready = 0`. -/
  | reset
  /-- `channel->signal_task = current_task`. -/
  | sign
  /-- The commands to the disk. -/
  | command
  /-- The section of `irq_wait_until` with interrupts disabled. -/
  | test
  /-- The `yield` of `irq_wait_until`. -/
  | yield
  /-- `irq_wait_until` has returned: the status is read, and the data is copied. -/
  | check
deriving DecidableEq, Repr

/-- A call of `ata_read`. -/
structure Call (C : Type) where
  controller : C
  chNo : Fin 2
  blocksRemaining : Nat
  point : Point
deriving DecidableEq, Repr

/-- The channel that a call reads from. -/
def Call.channel {C : Type} (c : Call C) : C × Fin 2 := (c.controller, c.chNo)

/-- `ch_no` of a minor number. -/
def channelNumber (minor : Nat) : Fin 2 := if minor % 4 ≥ 2 then 1 else 0

/-- The scheduler and the controllers. -/
structure State (C T P : Type) where
  sched : Sched.State T P
  /-- The holder of each controller's `transfer_lock`. -/
  transferLock : C → Option T
  /-- `ide_channels` of each controller. -/
  channels : C × Fin 2 → IdeChannel T
  /-- Where each task is in `ata_read`, if it is. -/
  calls : T → Option (Call C)

/-! ## The steps -/

section Steps

variable {C T P : Type} [DecidableEq C] [DecidableEq T]

/-- The task goes on in its call. -/
def State.setCall (s : State C T P) (t : T) (c : Call C) : State C T P :=
  { s with calls := update s.calls t (some c) }

/-- The task goes on to a point of its call. -/
def State.goto (s : State C T P) (t : T) (c : Call C) (p : Point) : State C T P :=
  s.setCall t { c with point := p }

/-- Store to a channel. -/
def State.setChannel (s : State C T P) (k : C × Fin 2) (ch : IdeChannel T) : State C T P :=
  { s with channels := update s.channels k ch }

/-- `mutex_unlock(&controller->transfer_lock)` and the return. -/
def State.unlock (s : State C T P) (t : T) (c : Call C) : State C T P :=
  { s with
    transferLock := update s.transferLock c.controller none
    calls := update s.calls t none }

/-- `irq_wait_until` up to `preempt_enable`. -/
def State.irqWaitTest (s : State C T P) (t : T) (c : Call C) : State C T P :=
  if (s.channels c.channel).dataReady then s.goto t c .check
  else { s with sched := s.sched.setIrqWait t true }.goto t c .yield

/-- `ata_irq`.  A store through `signal_task` when it points to no task is a fault. -/
def State.ataIrq (s : State C T P) (k : C × Fin 2) (status : Nat) : Outcome (State C T P) :=
  if status &&& dmaStatIrq ≠ 0 then
    match (s.channels k).signalTask with
    | none => .fault
    | some t =>
        .ret { s with
          sched := s.sched.setIrqWait t false
          channels := update s.channels k
            { s.channels k with dataReady := true, irqStatus := status } }
  else .ret s

/-- What happens next. -/
inductive Action (C T P : Type) where
  /-- `ata_read` is called. -/
  | call (t : T) (controller : C) (minor count : Nat)
  /-- `transfer_lock` is acquired. -/
  | lock (t : T)
  | loop (t : T)
  | reset (t : T)
  | sign (t : T)
  | command (t : T)
  | test (t : T)
  | yield (t : T) (fuel : Nat)
  /-- The status of the transfer, and the data. -/
  | check (t : T) (failed : Bool)
  /-- An interrupt of a channel. -/
  | irq (k : C × Fin 2) (status : Nat)
  /-- Anything else the kernel does, a timer tick for one. -/
  | kernel (a : Sched.Action T P)
deriving DecidableEq, Repr

/-- A task executes its call, at a point. -/
structure State.Runs (s : State C T P) (t : T) (c : Call C) (p : Point) : Prop where
  current : s.sched.current = some t
  call : s.calls t = some c
  point : c.point = p

variable [DecidableEq P]

/-- The steps of the disk driver and the kernel around it. -/
inductive Step : State C T P → Action C T P → State C T P → Prop where
  | call {s : State C T P} {t : T} {controller : C} {minor count : Nat} :
      s.sched.current = some t → s.calls t = none →
      Step s (.call t controller minor count)
        (s.setCall t ⟨controller, channelNumber minor, count, .lock⟩)
  | lock {s : State C T P} {t : T} {c : Call C} : s.Runs t c .lock →
      s.transferLock c.controller = none →
      Step s (.lock t)
        ({ s with transferLock := update s.transferLock c.controller (some t) }.goto t c .loop)
  | loop {s : State C T P} {t : T} {c : Call C} : s.Runs t c .loop →
      Step s (.loop t) (if c.blocksRemaining = 0 then s.unlock t c else s.goto t c .reset)
  | reset {s : State C T P} {t : T} {c : Call C} : s.Runs t c .reset →
      Step s (.reset t)
        ((s.setChannel c.channel { s.channels c.channel with dataReady := false }).goto t c .sign)
  | sign {s : State C T P} {t : T} {c : Call C} : s.Runs t c .sign →
      Step s (.sign t)
        ((s.setChannel c.channel { s.channels c.channel with signalTask := some t }).goto t c
          .command)
  | command {s : State C T P} {t : T} {c : Call C} : s.Runs t c .command →
      Step s (.command t) (s.goto t c .test)
  | test {s : State C T P} {t : T} {c : Call C} : s.Runs t c .test →
      Step s (.test t) (s.irqWaitTest t c)
  | yield {s : State C T P} {t : T} {c : Call C} {fuel : Nat} {sched : Sched.State T P} :
      s.Runs t c .yield → Sched.schedule fuel s.sched = .ret sched →
      Step s (.yield t fuel) ({ s with sched := sched }.goto t c .test)
  | check {s : State C T P} {t : T} {c : Call C} {failed : Bool} : s.Runs t c .check →
      Step s (.check t failed)
        (if failed then s.unlock t c
        else s.setCall t { c with
          blocksRemaining := c.blocksRemaining - min c.blocksRemaining blocksPerPrd
          point := .loop })
  | irq {s s' : State C T P} {k : C × Fin 2} {status : Nat} : s.ataIrq k status = .ret s' →
      Step s (.irq k status) s'
  | kernel {s : State C T P} {a : Sched.Action T P} {sched : Sched.State T P} :
      Sched.Step s.sched a sched → a ≠ .irqWait →
      Step s (.kernel a) { s with sched := sched }

/-- Nobody reads.  What the channels hold is left to chance. -/
def State.init (idle cleanup : T) (channels : C × Fin 2 → IdeChannel T) : State C T P where
  sched := .init idle cleanup
  transferLock := fun _ => none
  channels := channels
  calls := fun _ => none

end Steps

/-! ## The invariant -/

/-- Behind `mutex_lock`. -/
def Point.locked : Point → Bool
  | .lock => false
  | _ => true

/-- Behind the store to `signal_task`. -/
def Point.signed : Point → Bool
  | .command | .test | .yield | .check => true
  | _ => false

/-- Inside `irq_wait_until`. -/
def Point.waits : Point → Bool
  | .test | .yield => true
  | _ => false

section Inv

variable {C T P : Type} {s : State C T P} {t : T} {c : Call C}

/-- What holds in every reachable state. -/
structure Inv (s : State C T P) : Prop where
  /-- A call that is past `mutex_lock` holds the lock. -/
  locked : ∀ t c, s.calls t = some c → c.point.locked = true →
    s.transferLock c.controller = some t
  /-- The interrupt signals the task that waits for it. -/
  signed : ∀ t c, s.calls t = some c → c.point.signed = true →
    (s.channels c.channel).signalTask = some t
  /-- A task that does not run until an interrupt waits for a transfer that is not
  complete. -/
  waiting : ∀ t, (s.sched.tasks t).irqWait = true → ∃ c, s.calls t = some c ∧
    c.point.waits = true ∧ (s.channels c.channel).dataReady = false
  /-- `assert(channel->data_ready, "irq not ready!")`. -/
  complete : ∀ t c, s.calls t = some c → c.point = .check →
    (s.channels c.channel).dataReady = true

theorem Inv.init [DecidableEq T] {idle cleanup : T} {channels : C × Fin 2 → IdeChannel T} :
    Inv (State.init idle cleanup channels : State C T P) where
  locked := nofun
  signed := nofun
  waiting := nofun
  complete := nofun

/-- Two calls that are past `mutex_lock` of one controller are one. -/
theorem Inv.alone (h : Inv s) {u : T} {d : Call C} (hcall : s.calls t = some c)
    (hlock : c.point.locked = true) (hcall' : s.calls u = some d) (hlock' : d.point.locked = true)
    (hsame : d.channel = c.channel) : u = t := by
  have hheld := h.locked t c hcall hlock
  have hheld' := h.locked u d hcall' hlock'
  rw [(Prod.mk.inj hsame).1, hheld] at hheld'
  exact (Option.some.inj hheld').symm

theorem Point.locked_of_signed {p : Point} (h : p.signed = true) : p.locked = true := by
  cases p <;> first | rfl | cases h

theorem Point.signed_of_waits {p : Point} (h : p.waits = true) : p.signed = true := by
  cases p <;> first | rfl | cases h

/-- A task that waits does so in the call that it executes. -/
theorem Inv.pending (h : Inv s) (hcall : s.calls t = some c)
    (hw : (s.sched.tasks t).irqWait = true) :
    c.point.waits = true ∧ (s.channels c.channel).dataReady = false := by
  obtain ⟨d, hd, hwaits, hready⟩ := h.waiting t hw
  rw [hcall] at hd
  cases hd
  exact ⟨hwaits, hready⟩

/-- A task that executes its call at another point than the wait does not wait. -/
theorem Inv.awake (h : Inv s) (hcall : s.calls t = some c) (hp : c.point.waits = false) :
    (s.sched.tasks t).irqWait = false := by
  cases hw : (s.sched.tasks t).irqWait with
  | false => rfl
  | true =>
      have hwaits := (h.pending hcall hw).1
      rw [hp] at hwaits
      cases hwaits

/-- The scheduler does anything that makes no task wait. -/
theorem Inv.reschedule (h : Inv s) {sched : Sched.State T P}
    (hw : ∀ t, (sched.tasks t).irqWait = true → (s.sched.tasks t).irqWait = true) :
    Inv { s with sched := sched } :=
  { h with waiting := fun t ht => h.waiting t (hw t ht) }

variable [DecidableEq T]

/-- A task goes on in its call. -/
theorem Inv.setCall (h : Inv s)
    (hlocked : c.point.locked = true → s.transferLock c.controller = some t)
    (hsigned : c.point.signed = true → (s.channels c.channel).signalTask = some t)
    (hwaits : (s.sched.tasks t).irqWait = true →
      c.point.waits = true ∧ (s.channels c.channel).dataReady = false)
    (hcomplete : c.point = .check → (s.channels c.channel).dataReady = true) :
    Inv (s.setCall t c) := by
  have hcalls : ∀ u d, (s.setCall t c).calls u = some d →
      u = t ∧ d = c ∨ u ≠ t ∧ s.calls u = some d := by
    intro u d hd
    by_cases hu : u = t
    · subst hu
      exact Or.inl ⟨rfl, by simpa [State.setCall, eq_comm] using hd⟩
    · exact Or.inr ⟨hu, (Function.update_of_ne hu ..).symm.trans hd⟩
  refine { locked := ?_, signed := ?_, waiting := ?_, complete := ?_ }
  · intro u d hd hp
    cases hcalls u d hd with
    | inl he =>
        obtain ⟨rfl, rfl⟩ := he
        exact hlocked hp
    | inr hold => exact h.locked u d hold.2 hp
  · intro u d hd hp
    cases hcalls u d hd with
    | inl he =>
        obtain ⟨rfl, rfl⟩ := he
        exact hsigned hp
    | inr hold => exact h.signed u d hold.2 hp
  · intro u hw
    by_cases hu : u = t
    · subst hu
      exact ⟨c, Function.update_self .., hwaits hw⟩
    · obtain ⟨d, hd, hready⟩ := h.waiting u hw
      exact ⟨d, (Function.update_of_ne hu ..).trans hd, hready⟩
  · intro u d hd hp
    cases hcalls u d hd with
    | inl he =>
        obtain ⟨rfl, rfl⟩ := he
        exact hcomplete hp
    | inr hold => exact h.complete u d hold.2 hp

/-- A call that does not wait goes on, on the same channel. -/
theorem Inv.advance (h : Inv s) {c' : Call C} {p : Point} (hr : s.Runs t c p)
    (hp : p.locked = true ∧ p.waits = false) (hsame : c'.channel = c.channel)
    (hsigned : c'.point.signed = true → (s.channels c.channel).signalTask = some t)
    (hpoint : c'.point ≠ .check) : Inv (s.setCall t c') := by
  obtain ⟨-, hcall, rfl⟩ := hr
  refine h.setCall (fun _ => ?_) (fun hp' => ?_) (fun hw => ?_) (fun hp' => absurd hp' hpoint)
  · rw [(Prod.mk.inj hsame).1]
    exact h.locked t c hcall hp.1
  · rw [hsame]
    exact hsigned hp'
  · rw [h.awake hcall hp.2] at hw
    cases hw

variable [DecidableEq C]

omit [DecidableEq T] in
/-- The holder of the lock stores to its channel, before it waits. -/
theorem Inv.setChannel (h : Inv s) {ch : IdeChannel T} (hcall : s.calls t = some c)
    (hlock : c.point.locked = true) (hsigned : c.point.signed = false) :
    Inv (s.setChannel c.channel ch) := by
  -- nobody else reads from this channel
  have hother : ∀ u d, s.calls u = some d → d.point.signed = true → d.channel ≠ c.channel := by
    intro u d hd hp hsame
    obtain rfl := h.alone hcall hlock hd (Point.locked_of_signed hp) hsame
    rw [hcall] at hd
    cases hd
    rw [hsigned] at hp
    cases hp
  have hkeep : ∀ u d, s.calls u = some d → d.point.signed = true →
      (s.setChannel c.channel ch).channels d.channel = s.channels d.channel :=
    fun u d hd hp => Function.update_of_ne (hother u d hd hp) ..
  refine { h with signed := ?_, waiting := ?_, complete := ?_ }
  · intro u d hd hp
    rw [hkeep u d hd hp]
    exact h.signed u d hd hp
  · intro u hw
    obtain ⟨d, hd, hp, hready⟩ := h.waiting u hw
    refine ⟨d, hd, hp, ?_⟩
    rw [hkeep u d hd (Point.signed_of_waits hp)]
    exact hready
  · intro u d hd hp
    rw [hkeep u d hd (by rw [hp]; rfl)]
    exact h.complete u d hd hp

/-- A call returns. -/
theorem Inv.unlock (h : Inv s) (hcall : s.calls t = some c) (hlock : c.point.locked = true)
    (hwaits : c.point.waits = false) : Inv (s.unlock t c) := by
  have hother : ∀ u d, (s.unlock t c).calls u = some d → u ≠ t ∧ s.calls u = some d := by
    intro u d hd
    by_cases hu : u = t
    · subst hu
      simp [State.unlock] at hd
    · exact ⟨hu, (Function.update_of_ne hu ..).symm.trans hd⟩
  refine { locked := ?_, signed := ?_, waiting := ?_, complete := ?_ }
  · intro u d hd hp
    obtain ⟨hu, hd⟩ := hother u d hd
    have hheld := h.locked u d hd hp
    have hne : d.controller ≠ c.controller := by
      intro hsame
      rw [hsame, h.locked t c hcall hlock] at hheld
      exact hu (Option.some.inj hheld).symm
    exact (Function.update_of_ne hne ..).trans hheld
  · intro u d hd hp
    exact h.signed u d (hother u d hd).2 hp
  · intro u hw
    have hu : u ≠ t := by
      rintro rfl
      exact absurd hw (by simp [State.unlock, h.awake hcall hwaits])
    obtain ⟨d, hd, hp, hready⟩ := h.waiting u hw
    exact ⟨d, (Function.update_of_ne hu ..).trans hd, hp, hready⟩
  · intro u d hd hp
    exact h.complete u d (hother u d hd).2 hp

/-! ## It is kept by every step -/

/-- `mutex_lock` returns. -/
theorem Inv.lock (h : Inv s) (hr : s.Runs t c .lock)
    (hfree : s.transferLock c.controller = none) :
    Inv ({ s with
      transferLock := update s.transferLock c.controller (some t) }.goto t c .loop) := by
  obtain ⟨-, hcall, hpoint⟩ := hr
  have hheld : Inv { s with transferLock := update s.transferLock c.controller (some t) } := by
    refine { h with locked := ?_ }
    intro u d hd hp
    have hold := h.locked u d hd hp
    have hne : d.controller ≠ c.controller := by
      intro hsame
      rw [hsame, hfree] at hold
      cases hold
    exact (Function.update_of_ne hne ..).trans hold
  refine hheld.setCall (fun _ => Function.update_self ..) nofun (fun hw => ?_) nofun
  exact absurd hw (by simp [h.awake hcall (by simp [hpoint, Point.waits])])

omit [DecidableEq C] in
/-- The section of `irq_wait_until`: the task waits, or its transfer is complete. -/
theorem Inv.test (h : Inv s) (hr : s.Runs t c .test) : Inv (s.irqWaitTest t c) := by
  obtain ⟨-, hcall, hpoint⟩ := hr
  have hlocked := h.locked t c hcall (by simp [hpoint, Point.locked])
  have hsigned := h.signed t c hcall (by simp [hpoint, Point.signed])
  unfold State.irqWaitTest
  split
  · rename_i hready
    refine h.setCall (fun _ => hlocked) (fun _ => hsigned) (fun hw => ?_) (fun _ => hready)
    have hnot := (h.pending hcall hw).2
    rw [hready] at hnot
    cases hnot
  · rename_i hready
    have hnot : (s.channels c.channel).dataReady = false := by simpa using hready
    have hwait : Inv { s with sched := s.sched.setIrqWait t true } := by
      refine { h with waiting := ?_ }
      intro u hw
      by_cases hu : u = t
      · subst hu
        exact ⟨c, hcall, by simp [hpoint, Point.waits], hnot⟩
      · exact h.waiting u (by simpa [Sched.State.setIrqWait, Function.update_of_ne hu] using hw)
    exact hwait.setCall (fun _ => hlocked) (fun _ => hsigned) (fun _ => ⟨rfl, hnot⟩) nofun

omit [DecidableEq C] in
/-- The task is back from the `yield` of `irq_wait_until`. -/
theorem Inv.back (h : Inv s) (hcall : s.calls t = some c) (hpoint : c.point = .yield) :
    Inv (s.goto t c .test) := by
  refine h.setCall (fun _ => h.locked t c hcall (by simp [hpoint, Point.locked]))
    (fun _ => h.signed t c hcall (by simp [hpoint, Point.signed]))
    (fun hw => ⟨rfl, (h.pending hcall hw).2⟩) nofun

/-- The interrupt completes a transfer and wakes the task that waits for it. -/
theorem Inv.ataIrq {s' : State C T P} (h : Inv s) {k : C × Fin 2} {status : Nat}
    (hirq : s.ataIrq k status = .ret s') : Inv s' := by
  unfold State.ataIrq at hirq
  split at hirq
  · split at hirq
    · cases hirq
    · rename_i v hsignal
      obtain rfl := Outcome.ret.inj hirq
      refine { h with signed := ?_, waiting := ?_, complete := ?_ }
      · intro u d hd hp
        by_cases hk : d.channel = k
        · have hsigned := h.signed u d hd hp
          simpa [hk] using hsigned
        · simpa [Function.update_of_ne hk] using h.signed u d hd hp
      · intro u hw
        have hold : (s.sched.tasks u).irqWait = true := Sched.update_irqWait hw (by simp)
        have hu : u ≠ v := by
          rintro rfl
          simp [Sched.State.setIrqWait] at hw
        obtain ⟨d, hd, hp, hready⟩ := h.waiting u hold
        -- it waits for another channel, whose interrupt would have signalled it
        have hk : d.channel ≠ k := by
          rintro rfl
          have hsigned := h.signed u d hd (Point.signed_of_waits hp)
          rw [hsignal] at hsigned
          exact hu (Option.some.inj hsigned).symm
        exact ⟨d, hd, hp, by simpa [Function.update_of_ne hk] using hready⟩
      · intro u d hd hp
        by_cases hk : d.channel = k
        · simp [hk]
        · simpa [Function.update_of_ne hk] using h.complete u d hd hp
  · exact Outcome.ret.inj hirq ▸ h

variable [DecidableEq P] {s' : State C T P}

theorem Inv.step {a : Action C T P} (h : Inv s) (hs : Step s a s') : Inv s' := by
  cases hs with
  | @call t _ _ _ _ hcall =>
      refine h.setCall nofun nofun (fun hw => ?_) nofun
      obtain ⟨d, hd, -⟩ := h.waiting t hw
      rw [hcall] at hd
      cases hd
  | lock hr hfree => exact h.lock hr hfree
  | loop hr =>
      split
      · exact h.unlock hr.call (by rw [hr.point]; rfl) (by rw [hr.point]; rfl)
      · exact h.advance hr ⟨rfl, rfl⟩ rfl nofun nofun
  | reset hr =>
      exact (h.setChannel hr.call (by rw [hr.point]; rfl) (by rw [hr.point]; rfl)).advance
        ⟨hr.current, hr.call, hr.point⟩ ⟨rfl, rfl⟩ rfl nofun nofun
  | sign hr =>
      exact (h.setChannel hr.call (by rw [hr.point]; rfl) (by rw [hr.point]; rfl)).advance
        ⟨hr.current, hr.call, hr.point⟩ ⟨rfl, rfl⟩ rfl
        (fun _ => by simp [State.setChannel]) nofun
  | command hr =>
      exact h.advance hr ⟨rfl, rfl⟩ rfl
        (fun _ => h.signed _ _ hr.call (by rw [hr.point]; rfl)) nofun
  | test hr => exact h.test hr
  | yield hr hsched =>
      have hsame := (Scans.schedule hsched).irqWait
      exact (h.reschedule (fun t hw => (hsame t).symm.trans hw)).back hr.call hr.point
  | check hr =>
      split
      · exact h.unlock hr.call (by rw [hr.point]; rfl) (by rw [hr.point]; rfl)
      · exact h.advance hr ⟨rfl, rfl⟩ rfl nofun nofun
  | irq hirq => exact h.ataIrq hirq
  | kernel hst ha => exact h.reschedule (fun t hw => Sched.irqWait_of_step hst ha hw)

end Inv

/-! ## No interrupt is lost -/

section

variable {C T P : Type} [DecidableEq T]

/-- No interrupt was lost. -/
structure NoLostIrq (s : State C T P) : Prop where
  /-- A task that does not run until an interrupt is one in `irq_wait_until`, -/
  waits : ∀ t, (s.sched.tasks t).irqWait = true → ∃ c, s.calls t = some c ∧ c.point.waits = true
  /-- and the condition that it waits for does not hold. -/
  pending : ∀ t c, s.calls t = some c → (s.sched.tasks t).irqWait = true →
    (s.channels c.channel).dataReady = false
  /-- With its transfer complete it can be scheduled, if nothing else is in the way. -/
  schedulable : ∀ t c, s.calls t = some c → (s.channels c.channel).dataReady = true →
    (s.sched.tasks t).state = .running → s.sched.procKilled t = false →
    Sched.taskSchedulable s.sched t = .ret (true, s.sched)

theorem Inv.noLostIrq {s : State C T P} (h : Inv s) : NoLostIrq s := by
  have hpending : ∀ t c, s.calls t = some c → (s.sched.tasks t).irqWait = true →
      (s.channels c.channel).dataReady = false := fun t c hcall hw => (h.pending hcall hw).2
  refine { waits := fun t hw => ?_, pending := hpending, schedulable := ?_ }
  · obtain ⟨c, hcall, hp, -⟩ := h.waiting t hw
    exact ⟨c, hcall, hp⟩
  · intro t c hcall hready hrun hproc
    have hw : (s.sched.tasks t).irqWait = false := by
      cases hw : (s.sched.tasks t).irqWait with
      | false => rfl
      | true =>
          rw [hpending t c hcall hw] at hready
          cases hready
    simp [Sched.taskSchedulable, Sched.State.killWithProcess, hproc, hrun, hw]

variable [DecidableEq C] [DecidableEq P]

/-- No interrupt is lost, in any run of any number of transfers. -/
theorem no_lost_irq {idle cleanup : T} {channels : C × Fin 2 → IdeChannel T}
    {as : List (Action C T P)} {s : State C T P}
    (hr : Run Step (State.init idle cleanup channels) as s) : NoLostIrq s :=
  (Run.invariant (P := Inv) (fun _ _ _ hi hst => hi.step hst) Inv.init hr).noLostIrq

/-- A task reads a block and waits, and the interrupt comes before its `yield`. -/
theorem no_lost_irq_before_yield : ∃ s s' : State Unit Nat Nat,
    Run Step (State.init 0 1 (fun _ => ⟨true, 0, none⟩))
      [.kernel .enable, .kernel (.schedule 1), .call 1 () 0 1, .lock 1, .loop 1, .reset 1, .sign 1,
        .command 1, .test 1] s ∧
    s.ataIrq ((), 0) 4 = .ret s' ∧ (s.sched.tasks 1).irqWait = true ∧
    (s'.sched.tasks 1).irqWait = false ∧ NoLostIrq s := by
  have hr : Run Step (State.init 0 1 (fun _ => ⟨true, 0, none⟩) : State Unit Nat Nat)
      [.kernel .enable, .kernel (.schedule 1), .call 1 () 0 1, .lock 1, .loop 1, .reset 1, .sign 1,
        .command 1, .test 1] _ :=
    .cons (.kernel .enable nofun) (.cons (.kernel (.schedule rfl) nofun) (.cons (.call rfl rfl)
    (.cons (.lock ⟨rfl, rfl, rfl⟩ rfl) (.cons (.loop ⟨rfl, rfl, rfl⟩)
    (.cons (.reset ⟨rfl, rfl, rfl⟩) (.cons (.sign ⟨rfl, rfl, rfl⟩)
    (.cons (.command ⟨rfl, rfl, rfl⟩) (.cons (.test ⟨rfl, rfl, rfl⟩) .nil))))))))
  exact ⟨_, _, hr, rfl, rfl, rfl, no_lost_irq hr⟩

end

end Ata

end UlmerOS
