import UlmerOS.Lib.WordStack

/-!
# Saving and restoring a context

`interrupt.S`, `context.h` and `context.c`, with what the processor does when an interrupt
starts and at `iretq`.  The registers are saved on a kernel stack, in the order in which
`context_t` has its fields, and `x86_irq_handler` gets a pointer to them.

`restore_saved` is that nothing is lost: the registers come back as they were, if the words of
the context are as they were.  `restore_init` is what a new task starts with.

A word of memory stands for eight bytes at a multiple of eight.

The state of the x87 and MMX unit is not in `context_t`.  `interrupt.S` neither saves nor
restores it, and it is no part of this.
-/

namespace UlmerOS

open WordStack (push pushAll popAll)

/-! ## Registers -/

/-- The registers of a thread that `context_t` has a field for. -/
inductive Reg where
  | r15 | r14 | r13 | r12 | r11 | r10 | r9 | r8 | rdi | rsi | rdx | rcx | rbx | rax | rbp
  | gs | fs | rip | cs | rflags | rsp | ss
deriving DecidableEq, Repr

abbrev Regs := Reg → Nat

abbrev Words := Nat → Nat

/-- The processor is not in kernel mode. -/
def Regs.user (regs : Regs) : Bool := regs .cs % 4 ≠ 0

/-- The interrupt flag. -/
def Regs.interruptible (regs : Regs) : Bool := (regs .rflags).testBit 9

/-! ## `context_t` -/

inductive Field where
  | reg (r : Reg)
  | irq
  | error
deriving DecidableEq, Repr

/-- The fields of `context_t`, in their order. -/
def contextFields : List Field :=
  [.reg .r15, .reg .r14, .reg .r13, .reg .r12, .reg .r11, .reg .r10, .reg .r9, .reg .r8,
    .reg .rdi, .reg .rsi, .reg .rdx, .reg .rcx, .reg .rbx, .reg .rax, .reg .rbp, .reg .gs,
    .reg .fs, .irq, .error, .reg .rip, .reg .cs, .reg .rflags, .reg .rsp, .reg .ss]

/-- `sizeof(context_t)`. -/
def contextSize : Nat := 8 * contextFields.length

def Field.offset (f : Field) : Nat := 8 * contextFields.idxOf f

/-- `ctx->f`. -/
def getField (mem : Words) (ctx : Nat) (f : Field) : Nat := mem (ctx + f.offset)

/-- `ctx->f = v`. -/
def setField (mem : Words) (ctx : Nat) (f : Field) (v : Nat) : Words :=
  Function.update mem (ctx + f.offset) v

/-! ## `interrupt.S` -/

/-- What the processor pushes first. -/
def interruptOrder : List Reg := [.ss, .rsp, .rflags, .cs, .rip]

/-- The pushes of `save_context`. -/
def saveOrder : List Reg :=
  [.fs, .gs, .rbp, .rax, .rbx, .rcx, .rdx, .rsi, .rdi, .r8, .r9, .r10, .r11, .r12, .r13, .r14,
    .r15]

/-- The pops behind the call of `x86_irq_handler`. -/
def restoreOrder : List Reg :=
  [.r15, .r14, .r13, .r12, .r11, .r10, .r9, .r8, .rdi, .rsi, .rdx, .rcx, .rbx, .rax, .rbp, .gs,
    .fs]

/-- What `iretq` pops. -/
def iretOrder : List Reg := [.rip, .cs, .rflags, .rsp, .ss]

/-- Where the processor begins to push: at `rsp0` of the `tss_t` if it was in user mode, and
otherwise where it is, at a multiple of 16. -/
def entrySp (regs : Regs) (rsp0 : Nat) : Nat :=
  (if regs.user then rsp0 else regs .rsp) / 16 * 16

/-- From the interrupt to the call of `x86_irq_handler`.  The error code is one of the processor,
or 0, or for a system call the register `rax`. -/
def saveContext (regs : Regs) (rsp0 irq error : Nat) (mem : Words) : Words × Nat :=
  let s := pushAll (mem, entrySp regs rsp0) (interruptOrder.map regs)
  let s := pushAll s [error, irq]
  pushAll s (saveOrder.map regs)

/-- From the return of `x86_irq_handler` to the end of `iretq`. -/
def restoreContext (mem : Words) (ctx : Nat) (regs : Regs) : Regs :=
  let regs := popAll mem ctx regs restoreOrder
  popAll mem (ctx + 8 * restoreOrder.length + 0x10) regs iretOrder

/-! ## `context.c` -/

/-- The flags of `context_init`: user mode, and compatibility mode. -/
structure CtxFlags where
  usermode : Bool
  user32 : Bool
deriving DecidableEq, Repr

/-- `cs` of a new context. -/
def CtxFlags.cs (flags : CtxFlags) : Nat :=
  if flags.usermode then if flags.user32 then 0x2b else 0x1b else 0x08

/-- `ss`, `fs` and `gs`. -/
def CtxFlags.ds (flags : CtxFlags) : Nat :=
  if flags.usermode then if flags.user32 then 0x33 else 0x23 else 0x10

/-- `context_init`.  The other registers have what was in the memory. -/
def contextInit (mem : Words) (kstackPtr entryAddr stackPtr : Nat) (flags : CtxFlags)
    (arg0 arg1 : Nat) : Words × Nat :=
  let ctx := kstackPtr - contextSize
  let mem := setField mem ctx (.reg .rsp) stackPtr
  let mem := setField mem ctx (.reg .rip) entryAddr
  let mem := setField mem ctx (.reg .rdi) arg0
  let mem := setField mem ctx (.reg .rsi) arg1
  let mem := setField mem ctx (.reg .cs) flags.cs
  let mem := setField mem ctx (.reg .ss) flags.ds
  let mem := setField mem ctx (.reg .fs) flags.ds
  let mem := setField mem ctx (.reg .gs) flags.ds
  (setField mem ctx (.reg .rflags) (1 <<< 9), ctx)

/-! ## Fields -/

theorem contextSize_eq : contextSize = 192 := rfl

theorem mem_contextFields (f : Field) : f ∈ contextFields := by
  cases f with
  | reg r => cases r <;> decide
  | irq => decide
  | error => decide

theorem Field.offset_lt (f : Field) : f.offset + 8 ≤ contextSize := by
  have hlt := List.idxOf_lt_length_of_mem (mem_contextFields f)
  simp only [Field.offset, contextSize]
  omega

theorem Field.offset_inj {f g : Field} (h : f.offset = g.offset) : f = g := by
  have hidx : contextFields.idxOf f = contextFields.idxOf g := by
    simp only [Field.offset] at h
    omega
  exact (List.idxOf_inj (mem_contextFields f)).mp hidx

theorem getField_setField_self (mem : Words) (ctx : Nat) (f : Field) (v : Nat) :
    getField (setField mem ctx f v) ctx f = v := Function.update_self ..

theorem getField_setField_ne (mem : Words) (ctx : Nat) {f g : Field} (v : Nat) (h : g ≠ f) :
    getField (setField mem ctx f v) ctx g = getField mem ctx g :=
  Function.update_of_ne (fun heq => h (Field.offset_inj (Nat.add_left_cancel heq))) ..

/-- Two memories have the same words from one address up to another. -/
def SameBetween (lo hi : Nat) (mem mem' : Words) : Prop := ∀ a, lo ≤ a → a < hi → mem' a = mem a

theorem SameBetween.trans {lo hi : Nat} {mem mem' mem'' : Words} (h : SameBetween lo hi mem mem')
    (h' : SameBetween lo hi mem' mem'') : SameBetween lo hi mem mem'' :=
  fun a hlo hhi => (h' a hlo hhi).trans (h a hlo hhi)

theorem SameBetween.narrow {lo hi lo' hi' : Nat} {mem mem' : Words}
    (h : SameBetween lo hi mem mem') (hlo : lo ≤ lo') (hhi : hi' ≤ hi) :
    SameBetween lo' hi' mem mem' :=
  fun a ha hb => h a (Nat.le_trans hlo ha) (Nat.lt_of_lt_of_le hb hhi)

theorem SameBetween.getField {ctx : Nat} {mem mem' : Words}
    (h : SameBetween ctx (ctx + contextSize) mem mem') (f : Field) :
    getField mem' ctx f = getField mem ctx f := by
  have hlt := f.offset_lt
  exact h _ (Nat.le_add_right _ _) (by omega)

theorem setField_same {mem : Words} {ctx : Nat} {f : Field} {v lo hi : Nat}
    (h : hi ≤ ctx ∨ ctx + contextSize ≤ lo) : SameBetween lo hi mem (setField mem ctx f v) := by
  intro a hlo hhi
  have hlt := f.offset_lt
  exact Function.update_of_ne (by omega) ..

/-! ## Saving and restoring -/

/-- The value that goes to a field when an interrupt starts. -/
def savedField (regs : Regs) (irq error : Nat) : Field → Nat
  | .reg r => regs r
  | .irq => irq
  | .error => error

/-- All that is pushed, in its order: `context_t` from its end. -/
theorem saveContext_eq (regs : Regs) (rsp0 irq error : Nat) (mem : Words) :
    saveContext regs rsp0 irq error mem =
      pushAll (mem, entrySp regs rsp0)
        (contextFields.map (savedField regs irq error)).reverse := by
  simp only [saveContext, ← WordStack.pushAll_append]
  rfl

theorem saveContext_ctx (regs : Regs) (rsp0 irq error : Nat) (mem : Words) :
    (saveContext regs rsp0 irq error mem).2 = entrySp regs rsp0 - contextSize := by
  rw [saveContext_eq, WordStack.pushAll_sp]
  simp [contextSize]

/-- The context has the registers as they were, the number of the interrupt and the error
code. -/
theorem saveContext_get {regs : Regs} {rsp0 irq error : Nat} {mem : Words}
    (hroom : contextSize ≤ entrySp regs rsp0) (f : Field) :
    getField (saveContext regs rsp0 irq error mem).1 (entrySp regs rsp0 - contextSize) f =
      savedField regs irq error f := by
  have hlen : (contextFields.map (savedField regs irq error)).reverse.length =
      contextFields.length := by simp
  have hfield : (contextFields.map (savedField regs irq error)).reverse.reverse[
      contextFields.idxOf f]? = some (savedField regs irq error f) := by
    rw [List.reverse_reverse, List.getElem?_map, List.getElem?_idxOf (mem_contextFields f)]
    rfl
  have hget : (WordStack.pushAll (mem, entrySp regs rsp0)
      (contextFields.map (savedField regs irq error)).reverse).1 _ = _ :=
    WordStack.pushAll_get (by rw [hlen]; exact hroom) hfield
  rw [hlen] at hget
  rw [saveContext_eq]
  exact hget

/-- Only the words of the context were written. -/
theorem saveContext_outside {regs : Regs} {rsp0 irq error : Nat} {mem : Words}
    (hroom : contextSize ≤ entrySp regs rsp0) {lo hi : Nat}
    (h : hi ≤ entrySp regs rsp0 - contextSize ∨ entrySp regs rsp0 ≤ lo) :
    SameBetween lo hi mem (saveContext regs rsp0 irq error mem).1 := by
  intro a hlo hhi
  rw [saveContext_eq]
  refine WordStack.pushAll_outside ?_ ?_
  · simpa [contextSize] using hroom
  · simp only [List.length_reverse, List.length_map]
    simp only [contextSize] at h
    omega

/-- What `restoreContext` loads is what is in the fields. -/
theorem restoreContext_eq (mem : Words) (ctx : Nat) (regs : Regs) (r : Reg) :
    restoreContext mem ctx regs r = getField mem ctx (.reg r) := by
  have hpop : ∀ i, restoreOrder[i]? = some r → r ∉ iretOrder →
      restoreContext mem ctx regs r = mem (ctx + 8 * i) := fun i hi hnot => by
    rw [restoreContext, WordStack.popAll_of_not_mem mem hnot]
    exact WordStack.popAll_get mem (by decide) hi
  have hiret : ∀ i, iretOrder[i]? = some r →
      restoreContext mem ctx regs r = mem (ctx + 152 + 8 * i) := fun i hi =>
    WordStack.popAll_get mem (by decide) hi
  cases r with
  | rip => exact hiret 0 rfl
  | cs => exact hiret 1 rfl
  | rflags => exact hiret 2 rfl
  | rsp => exact hiret 3 rfl
  | ss => exact hiret 4 rfl
  | r15 => exact hpop 0 rfl (by decide)
  | r14 => exact hpop 1 rfl (by decide)
  | r13 => exact hpop 2 rfl (by decide)
  | r12 => exact hpop 3 rfl (by decide)
  | r11 => exact hpop 4 rfl (by decide)
  | r10 => exact hpop 5 rfl (by decide)
  | r9 => exact hpop 6 rfl (by decide)
  | r8 => exact hpop 7 rfl (by decide)
  | rdi => exact hpop 8 rfl (by decide)
  | rsi => exact hpop 9 rfl (by decide)
  | rdx => exact hpop 10 rfl (by decide)
  | rcx => exact hpop 11 rfl (by decide)
  | rbx => exact hpop 12 rfl (by decide)
  | rax => exact hpop 13 rfl (by decide)
  | rbp => exact hpop 14 rfl (by decide)
  | gs => exact hpop 15 rfl (by decide)
  | fs => exact hpop 16 rfl (by decide)

/-- The registers that a context stands for. -/
def loadContext (mem : Words) (ctx : Nat) : Regs := fun r => getField mem ctx (.reg r)

theorem restore_eq_load (mem : Words) (ctx : Nat) (regs : Regs) :
    restoreContext mem ctx regs = loadContext mem ctx :=
  funext fun r => restoreContext_eq mem ctx regs r

theorem SameBetween.load {ctx : Nat} {mem mem' : Words}
    (h : SameBetween ctx (ctx + contextSize) mem mem') :
    loadContext mem' ctx = loadContext mem ctx :=
  funext fun r => h.getField (.reg r)

/-- The registers come back as they were. -/
theorem load_saved {regs : Regs} {rsp0 irq error : Nat} {mem : Words}
    (hroom : contextSize ≤ entrySp regs rsp0) :
    loadContext (saveContext regs rsp0 irq error mem).1 (entrySp regs rsp0 - contextSize) = regs :=
  funext fun r => saveContext_get hroom (.reg r)

/-- A store to a field of a register is one to the register. -/
theorem load_setField (mem : Words) (ctx : Nat) (r : Reg) (v : Nat) :
    loadContext (setField mem ctx (.reg r) v) ctx = Function.update (loadContext mem ctx) r v := by
  funext q
  cases Decidable.em (q = r) with
  | inl heq =>
      subst heq
      rw [Function.update_self]
      exact getField_setField_self ..
  | inr hne =>
      rw [Function.update_of_ne hne]
      exact getField_setField_ne _ _ _ fun h => hne (Field.reg.inj h)

/-- The registers of a new task, of which some are not set. -/
structure Fresh (entryAddr stackPtr : Nat) (flags : CtxFlags) (arg0 arg1 : Nat) (regs : Regs) :
    Prop where
  rip : regs .rip = entryAddr
  rsp : regs .rsp = stackPtr
  rdi : regs .rdi = arg0
  rsi : regs .rsi = arg1
  cs : regs .cs = flags.cs
  ss : regs .ss = flags.ds
  fs : regs .fs = flags.ds
  gs : regs .gs = flags.ds
  rflags : regs .rflags = 1 <<< 9

/-- What a new task starts with. -/
theorem load_init (mem : Words) (kstackPtr entryAddr stackPtr : Nat) (flags : CtxFlags)
    (arg0 arg1 : Nat) :
    Fresh entryAddr stackPtr flags arg0 arg1
      (loadContext (contextInit mem kstackPtr entryAddr stackPtr flags arg0 arg1).1
        (kstackPtr - contextSize)) := by
  simp only [contextInit, load_setField]
  constructor <;> simp

/-- Only the words of the context were written. -/
theorem contextInit_same {mem : Words} {kstackPtr entryAddr stackPtr : Nat} {flags : CtxFlags}
    {arg0 arg1 lo hi : Nat} (h : hi ≤ kstackPtr - contextSize ∨
      kstackPtr - contextSize + contextSize ≤ lo) :
    SameBetween lo hi mem
      (contextInit mem kstackPtr entryAddr stackPtr flags arg0 arg1).1 :=
  (setField_same h).trans <| (setField_same h).trans <| (setField_same h).trans <|
    (setField_same h).trans <| (setField_same h).trans <| (setField_same h).trans <|
    (setField_same h).trans <| (setField_same h).trans <| setField_same h

theorem Fresh.user {entryAddr stackPtr arg0 arg1 : Nat} {flags : CtxFlags} {regs : Regs}
    (h : Fresh entryAddr stackPtr flags arg0 arg1 regs) : regs.user = flags.usermode := by
  obtain ⟨usermode, user32⟩ := flags
  cases usermode <;> cases user32 <;> simp [Regs.user, h.cs, CtxFlags.cs]

end UlmerOS
