import Mathlib.Data.List.Basic
import Mathlib.Logic.Function.Basic

/-!
# A stack of words

Memory is a function from addresses to values, and a word has eight of them.  The stack grows
down: `push` stores below the stack pointer, and `popAll` loads a list of registers from the
stack pointer upwards.

What was pushed is found in the opposite order (`pushAll_get`), and nothing else was changed
(`pushAll_outside`).  `popAll_get` says where a register comes from.
-/

namespace WordStack

variable {α ρ : Type*}

/-- A word goes below the stack pointer, which then points to it. -/
def push (s : (Nat → α) × Nat) (v : α) : (Nat → α) × Nat :=
  (Function.update s.1 (s.2 - 8) v, s.2 - 8)

def pushAll (s : (Nat → α) × Nat) (vs : List α) : (Nat → α) × Nat := vs.foldl push s

/-- The registers get the words above the stack pointer, one after the other. -/
def popAll [DecidableEq ρ] (mem : Nat → α) : Nat → (ρ → α) → List ρ → ρ → α
  | _, regs, [] => regs
  | sp, regs, r :: rs => popAll mem (sp + 8) (Function.update regs r (mem sp)) rs

@[simp] theorem pushAll_nil (s : (Nat → α) × Nat) : pushAll s [] = s := rfl

@[simp] theorem pushAll_cons (s : (Nat → α) × Nat) (v : α) (vs : List α) :
    pushAll s (v :: vs) = pushAll (push s v) vs := rfl

theorem pushAll_append (s : (Nat → α) × Nat) (vs ws : List α) :
    pushAll s (vs ++ ws) = pushAll (pushAll s vs) ws := List.foldl_append

theorem pushAll_sp (mem : Nat → α) (sp : Nat) (vs : List α) :
    (pushAll (mem, sp) vs).2 = sp - 8 * vs.length := by
  induction vs generalizing mem sp with
  | nil => rfl
  | cons v vs ih =>
      rw [pushAll_cons, push, ih, List.length_cons]
      omega

/-- Only the words below the stack pointer were written. -/
theorem pushAll_outside {mem : Nat → α} {sp : Nat} {vs : List α} {a : Nat}
    (hroom : 8 * vs.length ≤ sp) (ha : a < sp - 8 * vs.length ∨ sp ≤ a) :
    (pushAll (mem, sp) vs).1 a = mem a := by
  induction vs generalizing mem sp with
  | nil => rfl
  | cons v vs ih =>
      rw [List.length_cons] at hroom ha
      rw [pushAll_cons, push, ih (by omega) (by omega)]
      exact Function.update_of_ne (by omega) _ _

/-- Upwards from the stack pointer are the words in the opposite order. -/
theorem pushAll_get {mem : Nat → α} {sp : Nat} {vs : List α} {i : Nat} {v : α}
    (hroom : 8 * vs.length ≤ sp) (hi : vs.reverse[i]? = some v) :
    (pushAll (mem, sp) vs).1 (sp - 8 * vs.length + 8 * i) = v := by
  induction vs generalizing mem sp with
  | nil => simp at hi
  | cons w vs ih =>
      rw [List.length_cons] at hroom ⊢
      rw [pushAll_cons, push]
      rw [List.reverse_cons] at hi
      cases Nat.lt_or_ge i vs.length with
      | inl hlt =>
          rw [List.getElem?_append_left (by simpa using hlt)] at hi
          have haddr : sp - 8 * (vs.length + 1) + 8 * i = sp - 8 - 8 * vs.length + 8 * i := by
            omega
          rw [haddr]
          exact ih (by omega) hi
      | inr hge =>
          rw [List.getElem?_append_right (by simpa using hge)] at hi
          have heq : i = vs.length := by
            have hlen := (List.getElem?_eq_some_iff.mp hi).1
            simp at hlen
            omega
          subst heq
          rw [pushAll_outside (by omega) (by omega)]
          have haddr : sp - 8 * (vs.length + 1) + 8 * vs.length = sp - 8 := by omega
          rw [haddr, Function.update_self]
          simpa using hi

section

variable [DecidableEq ρ] (mem : Nat → α)

theorem popAll_of_not_mem {sp : Nat} {regs : ρ → α} {rs : List ρ} {r : ρ} (hr : r ∉ rs) :
    popAll mem sp regs rs r = regs r := by
  induction rs generalizing sp regs with
  | nil => rfl
  | cons q rs ih =>
      rw [List.mem_cons, not_or] at hr
      rw [popAll, ih hr.2]
      exact Function.update_of_ne hr.1 _ _

theorem popAll_get {sp : Nat} {regs : ρ → α} {rs : List ρ} {r : ρ} {i : Nat}
    (hnodup : rs.Nodup) (hi : rs[i]? = some r) : popAll mem sp regs rs r = mem (sp + 8 * i) := by
  induction rs generalizing sp regs i with
  | nil => simp at hi
  | cons q rs ih =>
      rw [popAll]
      cases i with
      | zero =>
          obtain rfl : q = r := by simpa using hi
          rw [popAll_of_not_mem mem (List.nodup_cons.mp hnodup).1, Function.update_self]
          rfl
      | succ i =>
          rw [ih (List.nodup_cons.mp hnodup).2 (by simpa using hi)]
          congr 1
          omega

end

end WordStack
