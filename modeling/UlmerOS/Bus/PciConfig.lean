import UlmerOS.Bus.Pci
import UlmerOS.Sched.LockedSections

/-!
# Access to the configuration space

`pci_read32` and `pci_write32` of `pc/pci.c`, called by any number of tasks.  Each writes an
address to the port `CONFIG_ADDRESS` and then reads or writes the port `CONFIG_DATA`, between
`spin_lock(&pci_spinlock)` and `spin_unlock`.  The address stays in the bridge, so that a task
that comes between the two would send the access to another register.

The bridge takes the address apart and passes the access to the function it names.  What the
functions do is left open: a `Bus` says what a register returns and how it changes.

`pci_config_atomic` says that the accesses reach the bus one at a time, each in the register
that its caller has asked for.
-/

namespace UlmerOS

namespace Pci

open Transition

/-! ## The bridge -/

/-- A register of 32 bits of a function. -/
structure Register where
  bus : Nat
  slot : Nat
  func : Nat
  reg : Nat
deriving DecidableEq, Repr

/-- What the functions on the bus do. -/
structure Bus (β : Type) where
  read : β → Register → Nat × β
  write : β → Register → Nat → β

/-- The bridge: what was written to `CONFIG_ADDRESS`, and the bus behind it. -/
structure Bridge (β : Type) where
  address : Nat
  bus : β

/-- The register at an address.  Bit 31 enables the access. -/
def decode (address : Nat) : Option Register :=
  if address / 2 ^ 31 % 2 = 1 then
    some ⟨address / 2 ^ 16 % 256, address / 2 ^ 11 % 32, address / 2 ^ 8 % 8, address / 4 % 64⟩
  else none

variable {β : Type}

/-- `outl(CONFIG_ADDRESS, address)`. -/
def Bridge.outlAddress (b : Bridge β) (address : Nat) : Bridge β := { b with address := address }

/-- `inl(CONFIG_DATA)`. -/
def Bridge.inlData (B : Bus β) (b : Bridge β) : Nat × Bridge β :=
  match decode b.address with
  | none => (2 ^ 32 - 1, b)
  | some r => ((B.read b.bus r).1, { b with bus := (B.read b.bus r).2 })

/-- `outl(CONFIG_DATA, value)`. -/
def Bridge.outlData (B : Bus β) (b : Bridge β) (value : Nat) : Bridge β :=
  match decode b.address with
  | none => b
  | some r => { b with bus := B.write b.bus r value }

/-! ## The accesses -/

/-- A function that `pci_init` has found. -/
structure Fn where
  bus : Fin 256
  slot : Fin 32
  func : Fin 8
deriving DecidableEq, Repr

/-- The address of a register. -/
def Fn.address (f : Fn) (offset : Fin 256) : Nat :=
  f.bus.val <<< 16 ||| f.slot.val <<< 11 ||| f.func.val <<< 8 ||| (offset.val &&& 0xfc) ||| 1 <<< 31

/-- The register with the byte at an offset. -/
def Fn.register (f : Fn) (offset : Fin 256) : Register where
  bus := f.bus
  slot := f.slot
  func := f.func
  reg := offset / 4

/-- A call. -/
inductive Access where
  | read32 (f : Fn) (offset : Fin 256)
  | write32 (f : Fn) (offset : Fin 256) (value : Nat)
deriving DecidableEq, Repr

/-- What it returns. -/
inductive Reply where
  | value (v : Nat)
  | void
deriving DecidableEq, Repr

/-- What is done between `spin_lock` and `spin_unlock`. -/
def Access.code (B : Bus β) : Access → Section (Bridge β) Reply
  | .read32 f offset =>
      .atom (fun b => some (b.outlAddress (f.address offset))) fun _ =>
        .atom (fun b => some (b.inlData B).2) fun b => .done (.value (b.inlData B).1)
  | .write32 f offset value =>
      .atom (fun b => some (b.outlAddress (f.address offset))) fun _ =>
        .atom (fun b => some (b.outlData B value)) fun _ => .done .void

/-- A task keeps nothing from one access to the next. -/
def client : Client Unit Access Reply where
  start := fun _ _ => some ()
  finish := fun _ _ _ => ()

/-- What an access is on the bus. -/
inductive BusStep {T : Type} (B : Bus β) : β → T × Access × Reply → β → Prop where
  | read32 {b b' : β} {t : T} {f : Fn} {offset : Fin 256} {v : Nat} :
      B.read b (f.register offset) = (v, b') →
      BusStep B b (t, .read32 f offset, .value v) b'
  | write32 {b : β} {t : T} {f : Fn} {offset : Fin 256} {value : Nat} :
      BusStep B b (t, .write32 f offset value, .void) (B.write b (f.register offset) value)

/-! ## The address -/

theorem and_fc : ∀ offset : Fin 256, offset.val &&& 0xfc = offset.val / 4 * 4 := by
  decide +kernel

/-- A field above the lower ones. -/
theorem shift_add_lt {a x i j : Nat} (ha : a < 2 ^ j) (hx : x < 2 ^ i) :
    a <<< i + x < 2 ^ (j + i) := by
  rw [Nat.shiftLeft_eq, Nat.pow_add]
  calc a * 2 ^ i + x
      < a * 2 ^ i + 2 ^ i := Nat.add_lt_add_left hx _
    _ = (a + 1) * 2 ^ i := (Nat.succ_mul a _).symm
    _ ≤ 2 ^ j * 2 ^ i := Nat.mul_le_mul_right _ ha

/-- The fields do not overlap. -/
theorem Fn.address_eq (f : Fn) (offset : Fin 256) :
    f.address offset = 1 * 2 ^ 31 + (f.bus * 2 ^ 16 + (f.slot * 2 ^ 11 +
      (f.func * 2 ^ 8 + offset / 4 * 4))) := by
  have hlow : offset.val / 4 * 4 < 2 ^ 8 := by omega
  have hfunc : f.func.val <<< 8 + offset.val / 4 * 4 < 2 ^ 11 :=
    shift_add_lt (j := 3) f.func.isLt hlow
  have hslot : f.slot.val <<< 11 + (f.func.val <<< 8 + offset.val / 4 * 4) < 2 ^ 16 :=
    shift_add_lt (j := 5) f.slot.isLt hfunc
  have hbus : f.bus.val <<< 16 + (f.slot.val <<< 11 + (f.func.val <<< 8 + offset.val / 4 * 4)) <
      2 ^ 31 :=
    (shift_add_lt (j := 8) f.bus.isLt hslot).trans (by decide)
  calc f.address offset
      = 1 <<< 31 ||| (f.bus.val <<< 16 ||| (f.slot.val <<< 11 |||
          (f.func.val <<< 8 ||| offset.val / 4 * 4))) := by
        rw [Fn.address, and_fc, Nat.or_comm _ (1 <<< 31)]
        simp only [Nat.or_assoc]
    _ = 1 <<< 31 + (f.bus.val <<< 16 + (f.slot.val <<< 11 +
          (f.func.val <<< 8 + offset.val / 4 * 4))) := by
        rw [← Nat.shiftLeft_add_eq_or_of_lt hlow, ← Nat.shiftLeft_add_eq_or_of_lt hfunc,
          ← Nat.shiftLeft_add_eq_or_of_lt hslot, ← Nat.shiftLeft_add_eq_or_of_lt hbus]
    _ = _ := by simp only [Nat.shiftLeft_eq]

/-- The bridge finds the register that is meant. -/
theorem decode_address (f : Fn) (offset : Fin 256) :
    decode (f.address offset) = some (f.register offset) := by
  have hbus := f.bus.isLt
  have hslot := f.slot.isLt
  have hfunc := f.func.isLt
  rw [Fn.address_eq, decode, if_pos (by omega)]
  simp only [Fn.register, Option.some.injEq, Register.mk.injEq]
  omega

/-- It is the address that `pci_init` reads from. -/
theorem pciRead32_eq (config : Nat → Nat) (f : Fn) (offset : Fin 256) :
    pciRead32 config f.bus f.slot f.func offset = config (f.address offset) % 2 ^ 32 := rfl

/-! ## Every interleaving -/

/-- An access in one go is one on the bus, whatever address was in the bridge. -/
theorem Calls.bus {T : Type} [DecidableEq T] {B : Bus β} {q q' : Bridge β × (T → Unit)}
    {l : T × Access × Reply} (h : Calls client (fun a => (Access.code B a).run) q l q') :
    BusStep B q.1.bus l q'.1.bus := by
  cases h with
  | @call b b' c t a started r _ hcall =>
      cases a with
      | read32 f offset =>
          simp only [Access.code, Section.run, Bridge.outlAddress, Bridge.inlData,
            decode_address, Option.bind_some, Option.some.injEq, Prod.mk.injEq] at hcall
          obtain ⟨rfl, rfl⟩ := hcall
          exact .read32 rfl
      | write32 f offset value =>
          simp only [Access.code, Section.run, Bridge.outlAddress, Bridge.outlData,
            decode_address, Option.bind_some, Option.some.injEq, Prod.mk.injEq] at hcall
          obtain ⟨rfl, rfl⟩ := hcall
          exact .write32

/-- The spinlock, the bridge and the tasks, before the first access. -/
def accessInit {T : Type} (first : T) (b : Bridge β) :
    Sections T (Spin.State T) (Bridge β) Unit Access Reply where
  lock := .init first
  data := b
  client := fun _ => ()
  work := fun _ => none

/-- **The accesses are atomic.**  For any number of tasks and any interleaving, the accesses
that have returned are made on the bus one after the other, in the registers they are meant
for, and the bus is where they have led whenever nobody has the spinlock.  No task fails the
assertion of `spin_unlock`. -/
theorem pci_config_atomic {T : Type} [DecidableEq T] (debug : Bool) (B : Bus β) (first : T)
    (b : Bridge β) {es : List (SectionEvent T Access Reply)}
    {s : Sections T (Spin.State T) (Bridge β) Unit Access Reply}
    (hrun : Run (Sections.Step (Spin.sections debug) client (Access.code B)) (accessInit first b)
      es s) :
    s.lock.panicked = none ∧
      ∃ bus, Run (BusStep B) b.bus (es.filterMap SectionEvent.returned) bus ∧
        ((∀ t, s.lock.pc t ≠ .critical) → s.data.bus = bus) := by
  obtain ⟨hinv, hout⟩ := Spin.sections_init debug first
  obtain ⟨q, hcalls, hbehind⟩ := Sections.serial
    (fun a => (⟨Access.code B a, fun _ => rfl⟩ : Cut (Access.code B a).run)) hinv hout hrun
  have hbus := hcalls.simulates (fun q => q.1.bus)
    (fun _ _ _ (_ : True) hst => ⟨trivial, Calls.bus hst⟩) trivial
  refine ⟨hbehind.inv.unpanicked, q.1.bus, hbus.2, fun hfree => ?_⟩
  cases hbehind.place with
  | inl hquiet => rw [hquiet.2.1]
  | inr hbusy => exact hbusy.elim fun t ht => absurd ht.inside (hfree t)

/-- Registers that keep what is written to them. -/
def registers : Bus (Register → Nat) where
  read := fun b r => (b r, b)
  write := fun b r value => Function.update b r value

/-- A second task comes between the two port accesses of a read, and has to wait. -/
theorem pci_config_atomic_waits : ∃ s es bus,
    Run (Sections.Step (Spin.sections true) client (Access.code registers))
      (accessInit (0 : Fin 2) ⟨0, fun r => r.slot⟩) es s ∧
    es.filterMap SectionEvent.returned = [(0, .read32 ⟨0, 3, 1⟩ 4, .value 3)] ∧
    Run (BusStep registers) (fun r => r.slot) (es.filterMap SectionEvent.returned) bus := by
  have hrun : Run (Sections.Step (Spin.sections true) client (Access.code registers))
      (accessInit (0 : Fin 2) ⟨0, fun r => r.slot⟩)
      [.other, .enter 0 (.read32 ⟨0, 3, 1⟩ 4), .work 0, .other, .other, .other, .other, .work 0,
        .leave 0 (.read32 ⟨0, 3, 1⟩ 4) (.value 3)] _ :=
    .cons (.other (.exec rfl (by decide)) (by decide))
      (.cons (.enter (.exec rfl (by decide)) (by decide) (by decide) rfl)
      (.cons (.work (by decide) (by decide) rfl rfl)
      (.cons (.other (.tick (t := 1) rfl) (by decide))
      (.cons (.other (.exec rfl (by decide)) (by decide))
      (.cons (.other (.exec rfl (by decide)) (by decide))
      (.cons (.other (.yield (t := 0) rfl rfl) (by decide))
      (.cons (.work (by decide) (by decide) rfl rfl)
      (.cons (.leave (.exec rfl (by decide)) (by decide) (by decide) rfl) .nil))))))))
  obtain ⟨-, bus, hbus, -⟩ := pci_config_atomic true registers 0 _ hrun
  exact ⟨_, _, bus, hrun, rfl, hbus⟩

end Pci

end UlmerOS
