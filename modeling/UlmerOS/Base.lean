import Mathlib.Algebra.Group.Nat.Defs

/-!
# Machine words and outcomes

`size_t` is a natural number below `2^64`, and the arithmetic the source does on
it is written with an explicit `wrap64` wherever it can leave that range.

A kernel function returns, or it ends in one of the ways the source has of not
returning: a failed `kpanic`, a null pointer that is dereferenced, a lock that
nobody will release, or a loop that does not end.
-/

namespace UlmerOS

/-! ## Words -/

/-- The number of `size_t` values. -/
def word : Nat := 2 ^ 64

/-- A result stored in a `size_t`. -/
def wrap64 (n : Nat) : Nat := n % word

/-- `(size_t)-1`. -/
def minusOne : Nat := word - 1

theorem wrap64_lt (n : Nat) : wrap64 n < word := Nat.mod_lt _ (by decide)

theorem wrap64_of_lt {n : Nat} (h : n < word) : wrap64 n = n := Nat.mod_eq_of_lt h

/-- A `ssize_t` where a `size_t` is wanted. -/
def toSize (n : Int) : Nat := (n % (word : Int)).toNat

/-- A `size_t` that is returned as a `ssize_t`. -/
def toSsize (n : Nat) : Int := if n < 2 ^ 63 then n else (n : Int) - word

/-! ## Errors and limits -/

/-- The errors that are returned as negative numbers. -/
def enoent : Int := 2
def eio : Int := 5
def enoexec : Int := 8
def ebadf : Int := 9
def einval : Int := 22
def enosys : Int := 38
def enotsup : Int := 95

/-- Only one number reads as `-EINVAL`. -/
theorem toSsize_eq_einval {n : Nat} : toSsize n = -einval ↔ n = word - 22 := by
  simp only [toSsize, word, einval]
  split
  next => omega
  next => omega

/-- `USER_BREAK`. -/
def userBreak : Nat := 0x0000800000000000

/-! ## Outcomes -/

/-- How a call of a kernel function ends. -/
inductive Outcome (α : Type) where
  /-- It returns. -/
  | ret (a : α)
  /-- `kpanic` fails with this message and the core halts. -/
  | panic (msg : String)
  /-- A null pointer is dereferenced. -/
  | fault
  /-- It waits for a lock that is never released. -/
  | blocked
  /-- A loop did not end within the given number of rounds. -/
  | hang
deriving DecidableEq, Repr

namespace Outcome

variable {α β : Type}

/-- Go on with the result of a call that returns. -/
def bind : Outcome α → (α → Outcome β) → Outcome β
  | .ret a, f => f a
  | .panic msg, _ => .panic msg
  | .fault, _ => .fault
  | .blocked, _ => .blocked
  | .hang, _ => .hang

instance : Monad Outcome where
  pure := .ret
  bind := bind

@[simp] theorem ret_bind (a : α) (f : α → Outcome β) : (Outcome.ret a >>= f) = f a := rfl
@[simp] theorem panic_bind (msg : String) (f : α → Outcome β) :
    ((.panic msg : Outcome α) >>= f) = .panic msg := rfl

theorem ret_ite (p : Prop) [Decidable p] (a b : α) :
    (if p then Outcome.ret a else .ret b) = .ret (if p then a else b) := by
  split <;> rfl

/-- The message of a `kpanic` that fails. -/
def panicText : Outcome α → Option String
  | .panic msg => some msg
  | _ => none

theorem panicText_eq_some {x : Outcome α} {msg : String} :
    x.panicText = some msg ↔ x = .panic msg := by
  cases x <;> simp [panicText]

/-- A sequence returns only if its first call does. -/
theorem bind_eq_ret {x : Outcome α} {f : α → Outcome β} {b : β} :
    (x >>= f) = .ret b ↔ ∃ a, x = .ret a ∧ f a = .ret b := by
  cases x with
  | ret a =>
      constructor
      · intro h; exact ⟨a, rfl, h⟩
      · rintro ⟨a', ha, h⟩; cases ha; exact h
  | _ => exact ⟨fun h => (nomatch h), fun ⟨_, h, _⟩ => (nomatch h)⟩

/-- A sequence waits for ever if one of its calls does. -/
theorem bind_ne_blocked {x : Outcome α} {f : α → Outcome β} (hx : x ≠ .blocked)
    (hf : ∀ a, f a ≠ .blocked) : (x >>= f) ≠ .blocked := by
  cases x with
  | ret a => exact hf a
  | blocked => exact absurd rfl hx
  | _ => nofun

end Outcome

end UlmerOS
