import UlmerOS.Arch.VspaceReuse

/-!
# What a process leaves in the kernel heap

The half of `proc_start`, `create_stack`, `delete_stack`, `vspace_create` and `vspace_delete` that
is about the kernel heap.  A process has four objects there: its `proc_t`, its `vspace_t`, the
`userstack_t` of its thread and the item that `list_add` makes for it in `stack_list`.
`delete_stack` frees the item, and `vspace_delete` the `vspace_t`.  Nothing frees the other two.

The calls of `_kmalloc` and `kfree` are made one at a time, with calls of anybody else between
them.

`process_objects_stay` says what this costs: the break of the kernel heap keeps above what all
processes together have left, of which none is given back when they end, and with the break the
frames below it (`process_objects_frames`).
-/

namespace UlmerOS

open Tiling Transition

/-! ## The objects -/

/-- What a process has in the kernel heap. -/
inductive Object where
  /-- The `proc_t`, of `proc_start`. -/
  | proc
  /-- The `vspace_t`, of `vspace_create`. -/
  | vspace
  /-- The `userstack_t`, of `create_stack`. -/
  | userstack
  /-- The `list_item_t` of the stack in `stack_list`, of `list_add`. -/
  | stackItem
deriving DecidableEq, Repr

/-- The bytes that are asked for. -/
def Object.size : Object → Nat
  | .proc => 456
  | .vspace => vspaceSize
  | .userstack => 48
  | .stackItem => 24

/-- What the end of the process frees: `vspace_delete` the `vspace_t`, and `delete_stack` the
item. -/
def Object.freed : Object → Bool
  | .proc => false
  | .vspace => true
  | .userstack => false
  | .stackItem => true

/-- The heap, and where the objects of the processes are. -/
structure ObjectState where
  heap : HeapState
  objects : Nat × Object → Option Nat

/-- Before the first call. -/
def ObjectState.empty (mem : ByteMem.Mem) (phys : PhysMem) : ObjectState where
  heap := .empty mem phys
  objects := fun _ => none

/-- A call, and what it is for. -/
inductive ObjectCall where
  /-- An object of a process is allocated. -/
  | alloc (pid : Nat) (o : Object)
  /-- An object of a process is freed. -/
  | free (pid : Nat) (o : Object)
  /-- Anything else that is done with the heap. -/
  | other
deriving DecidableEq, Repr

/-- The steps, over those of the heap.  Nobody else frees an object of a process. -/
inductive ObjectStep (step : HeapState → HeapCall → HeapState → Prop) :
    ObjectState → ObjectCall → ObjectState → Prop where
  | alloc {s : ObjectState} {heap : HeapState} {pid ptr : Nat} {o : Object} :
      s.objects (pid, o) = none → step s.heap (.kmalloc o.size ptr) heap →
      ObjectStep step s (.alloc pid o) ⟨heap, Function.update s.objects (pid, o) (some ptr)⟩
  | free {s : ObjectState} {heap : HeapState} {pid ptr : Nat} {o : Object} :
      o.freed = true → s.objects (pid, o) = some ptr → step s.heap (.kfree ptr) heap →
      ObjectStep step s (.free pid o) ⟨heap, Function.update s.objects (pid, o) none⟩
  | other {s : ObjectState} {heap : HeapState} {call : HeapCall} :
      (∀ x ptr, s.objects x = some ptr → call ≠ .kfree ptr) → step s.heap call heap →
      ObjectStep step s .other ⟨heap, s.objects⟩

variable {debug : Bool} {kernel : Vspace}

/-! ## One call of the heap -/

section

variable {s s' : HeapState} {bs : List Block} {call : HeapCall}

/-- What `_kmalloc` returns was not live. -/
theorem HeapInv.fresh (hinv : HeapInv debug s bs) {size ptr : Nat}
    (hst : HeapStep debug kernel s (.kmalloc size ptr) s') : s.live ptr = none := by
  cases hst with
  | kmalloc hsize hret hbrk =>
      obtain ⟨bs', hal, -⟩ := kmalloc_ret hinv.rep hsize hret hbrk
      obtain ⟨a, b, rfl, -, -, hnot, -⟩ := hal.block
      by_contra hlive
      obtain ⟨c, d, hc, hl⟩ := hinv.liveAt hlive
      obtain rfl : a = c := by omega
      exact hnot d hl

/-- A pointer is live until it is freed. -/
theorem HeapInv.live_step (hinv : HeapInv debug s bs) (hst : HeapStep debug kernel s call s')
    {p r : Nat} (hp : s.live p = some r) (hne : call ≠ .kfree p) : s'.live p = some r := by
  cases hst with
  | @kmalloc h size function line ptr hsize hret hbrk =>
      have hfresh := hinv.fresh (.kmalloc hsize hret hbrk)
      have hptr : p ≠ ptr := by
        rintro rfl
        rw [hfresh] at hp
        cases hp
      exact (Function.update_of_ne hptr ..).trans hp
  | @kfree h ptr hlive hret =>
      have hptr : p ≠ ptr := by
        rintro rfl
        exact hne rfl
      exact (Function.update_of_ne hptr ..).trans hp
  | use => exact hp

end

/-! ## Where the objects are -/

/-- The objects are live, and no two are at one place. -/
structure Placed (s : ObjectState) : Prop where
  live : ∀ x p, s.objects x = some p → s.heap.live p = some x.2.size
  inj : ∀ x y p, s.objects x = some p → s.objects y = some p → x = y

section

variable {s s' : ObjectState} {l : ObjectCall} {bs : List Block}

theorem Placed.empty (mem : ByteMem.Mem) (phys : PhysMem) : Placed (.empty mem phys) :=
  ⟨nofun, nofun⟩

/-- A call keeps them so. -/
theorem Placed.step (h : Placed s) (hinv : HeapInv debug s.heap bs)
    (hst : ObjectStep (HeapStep debug kernel) s l s') : Placed s' := by
  cases hst with
  | @alloc heap pid ptr o hnone hheap =>
      have hfresh : s.heap.live ptr = none := hinv.fresh hheap
      -- the objects that are there are not at the new place
      have hptr : ∀ x, s.objects x ≠ some ptr := by
        intro x hx
        cases hfresh.symm.trans (h.live x ptr hx)
      have hlive : heap.live ptr = some o.size := by
        cases hheap
        exact Function.update_self ..
      have hcases : ∀ x p, Function.update s.objects (pid, o) (some ptr) x = some p →
          x = (pid, o) ∧ p = ptr ∨ s.objects x = some p := by
        intro x p hx
        rw [Function.update_apply] at hx
        split at hx
        next heq => exact .inl ⟨heq, (Option.some.inj hx).symm⟩
        next => exact .inr hx
      refine ⟨fun x p hx => ?_, fun x y p hx hy => ?_⟩
      · rcases hcases x p hx with ⟨rfl, rfl⟩ | hold
        · exact hlive
        · exact hinv.live_step hheap (h.live x p hold) nofun
      · rcases hcases x p hx with ⟨rfl, rfl⟩ | hold <;>
          rcases hcases y p hy with ⟨rfl, hp⟩ | hold'
        · rfl
        · exact absurd hold' (hptr y)
        · exact absurd (hp ▸ hold) (hptr x)
        · exact h.inj x y p hold hold'
  | @free heap pid ptr o _ hobj hheap =>
      have hkept : ∀ x p, Function.update s.objects (pid, o) none x = some p →
          x ≠ (pid, o) ∧ s.objects x = some p := by
        intro x p hx
        rw [Function.update_apply] at hx
        split at hx
        next => cases hx
        next hne => exact ⟨hne, hx⟩
      refine ⟨fun x p hx => ?_, fun x y p hx hy => ?_⟩
      · obtain ⟨hne, hold⟩ := hkept x p hx
        refine hinv.live_step hheap (h.live x p hold) ?_
        rintro ⟨⟩
        exact hne (h.inj x _ ptr hold hobj)
      · exact h.inj x y p (hkept x p hx).2 (hkept y p hy).2
  | other hnot hheap =>
      exact ⟨fun x p hx => hinv.live_step hheap (h.live x p hx) (hnot x p hx), h.inj⟩

end

/-! ## Every run -/

/-- `Placed`, over a heap that stands for its blocks. -/
structure ObjectInv (debug : Bool) (s : ObjectState) : Prop where
  heap : ∃ bs, HeapInv debug s.heap bs
  placed : Placed s

theorem ObjectStep.heap_step {step : HeapState → HeapCall → HeapState → Prop}
    {s s' : ObjectState} {l : ObjectCall} (h : ObjectStep step s l s') :
    ∃ call, step s.heap call s'.heap := by
  cases h with
  | alloc _ hst => exact ⟨_, hst⟩
  | free _ _ hst => exact ⟨_, hst⟩
  | other _ hst => exact ⟨_, hst⟩

theorem ObjectStep.mono {step step' : HeapState → HeapCall → HeapState → Prop}
    (hle : ∀ s call s', step s call s' → step' s call s') {s s' : ObjectState} {l : ObjectCall}
    (h : ObjectStep step s l s') : ObjectStep step' s l s' := by
  cases h with
  | alloc hnone hst => exact .alloc hnone (hle _ _ _ hst)
  | free hfreed hobj hst => exact .free hfreed hobj (hle _ _ _ hst)
  | other hnot hst => exact .other hnot (hle _ _ _ hst)

theorem ObjectInv.step {s s' : ObjectState} {l : ObjectCall} (h : ObjectInv debug s)
    (hst : ObjectStep (HeapStep debug kernel) s l s') : ObjectInv debug s' := by
  obtain ⟨bs, hinv⟩ := h.heap
  obtain ⟨call, hheap⟩ := hst.heap_step
  obtain ⟨bs', hinv', -⟩ := heapStep_inv hinv hheap
  exact ⟨⟨bs', hinv'⟩, h.placed.step hinv hst⟩

/-- An object that is not freed is there from its allocation on. -/
theorem objects_stay {step : HeapState → HeapCall → HeapState → Prop} {s s' : ObjectState}
    {ls : List ObjectCall} (hrun : Run (ObjectStep step) s ls s') {pid : Nat} {o : Object}
    (hfreed : o.freed = false) (h : .alloc pid o ∈ ls ∨ s.objects (pid, o) ≠ none) :
    s'.objects (pid, o) ≠ none := by
  induction hrun with
  | nil => exact h.resolve_left List.not_mem_nil
  | @cons s l t ls u hst _ ih =>
      refine ih ?_
      rcases h with hmem | hold
      · rcases List.mem_cons.mp hmem with rfl | hlater
        · cases hst
          refine .inr ?_
          simp
        · exact .inl hlater
      · refine .inr ?_
        cases hst with
        | @alloc heap pid' ptr o' _ _ =>
            simp only [Function.update_apply]
            split
            · nofun
            · exact hold
        | @free heap pid' ptr o' hfreed' _ _ =>
            have hne : (pid, o) ≠ (pid', o') := by
              rintro ⟨⟩
              cases hfreed.symm.trans hfreed'
            simpa only [Function.update_of_ne hne] using hold
        | other _ _ => exact hold

/-- A call for an object, where it is one of the steps. -/
def ObjectState.call (debug : Bool) (kernel : Vspace) (s : ObjectState) :
    ObjectCall → Option ObjectState
  | .alloc pid o =>
      match s.heap.heap.kmalloc debug kernel o.size 0 0 with
      | .ret (ptr, h) =>
          if s.objects (pid, o) = none ∧ headerSize debug + o.size < word ∧
              s.heap.heap.brk ≤ h.brk then
            some ⟨⟨h, Function.update s.heap.live ptr (some o.size)⟩,
              Function.update s.objects (pid, o) (some ptr)⟩
          else none
      | _ => none
  | .free pid o =>
      match s.objects (pid, o) with
      | some ptr =>
          match s.heap.heap.kfree debug kernel ptr with
          | .ret h =>
              if o.freed = true ∧ s.heap.live ptr ≠ none then
                some ⟨⟨h, Function.update s.heap.live ptr none⟩,
                  Function.update s.objects (pid, o) none⟩
              else none
          | _ => none
      | none => none
  | .other => none

/-- A call leaves the pages up to the break mapped. -/
theorem PageStep.backed {m0 : PhysMem} {s s' : HeapState} {call : HeapCall} {bs : List Block}
    {top : Nat} (hinv : HeapInv debug s bs) (hm : HeapBacked m0 kernel s.heap top)
    (hst : PageStep debug kernel s call s') : ∃ top', HeapBacked m0 kernel s'.heap top' := by
  obtain ⟨hst, huse⟩ := hst
  cases hst with
  | kmalloc _ hret hbrk =>
      rcases kmalloc_phys hret with ⟨hphys, hsame⟩ | ⟨-, o, h1, hkbrk, hphys, hsame⟩
      · exact ⟨top, hm.congr hphys hsame⟩
      · rw [hsame] at hbrk
        exact ⟨_, (hm.raise hkbrk hbrk).congr hphys hsame⟩
  | kfree hlive hret =>
      obtain ⟨a, b, rfl, hl⟩ := hinv.liveAt hlive
      obtain ⟨top', hm', -⟩ := hm.kfree hinv.rep hl hret
      exact ⟨top', hm'⟩
  | use _ => exact ⟨top, hm.congr (huse rfl) rfl⟩

/-- An object is on a page of the heap below the break. -/
theorem HeapInv.page {s : HeapState} {bs : List Block} (hinv : HeapInv debug s bs) {p r : Nat}
    (hp : s.live p = some r) (hpos : 0 < r) :
    HeapPage (p / pageSize) ∧ p / pageSize < firstPage s.heap.brk := by
  obtain ⟨a, b, hl, hr, rfl⟩ := (hinv.live_iff p r).mp hp
  have hfit := hinv.fits a b r hl hr
  have hbounds := hl.1.bounds
  have hbrk := hinv.rep.brk_eq
  have hlt := hinv.rep.brk_lt
  have hfirst := (firstPage_bounds s.heap.brk).1
  refine ⟨heapPage_of_brk (by omega) (by omega), ?_⟩
  simp only [pageSize] at *
  omega

/-- **The frames behind them are not given back.**  If nobody else takes or gives back a frame, the
`proc_t` and the `userstack_t` of a process that has begun are on frames that were free when the
heap was empty and are not free now, also where the process has ended. -/
theorem process_objects_frames {m0 : PhysMem} {mem : ByteMem.Mem} {ls : List ObjectCall}
    {s : ObjectState} (hk : KernelTables m0 kernel)
    (hempty : ∀ page, HeapPage page → translation m0 kernel page = none)
    (hrun : Run (ObjectStep (PageStep debug kernel)) (ObjectState.empty mem m0) ls s) {pid : Nat}
    {o : Object} (hmem : .alloc pid o ∈ ls) (hfreed : o.freed = false) :
    ∃ p mp, s.objects (pid, o) = some p ∧
      translation s.heap.heap.phys kernel (p / pageSize) = some mp ∧ m0.Free mp.ppn ∧
      ¬ s.heap.heap.phys.Free mp.ppn := by
  have hstart : PagesInv debug m0 kernel (HeapState.empty mem m0) := pagesInv_empty mem hk hempty
  obtain ⟨-, top0, -, hm0⟩ := hstart
  have h : ObjectInv debug s ∧ ∃ top, HeapBacked m0 kernel s.heap.heap top :=
    Run.invariant (P := fun s => ObjectInv debug s ∧ ∃ top, HeapBacked m0 kernel s.heap.heap top)
      (fun s l s' hs hst => by
        obtain ⟨hinv, top, hm⟩ := hs
        obtain ⟨bs, hheap⟩ := hinv.heap
        obtain ⟨call, hpage⟩ := hst.heap_step
        exact ⟨hinv.step (hst.mono fun _ _ _ hp => hp.1), hpage.backed hheap hm⟩)
      ⟨⟨⟨[], .empty mem m0⟩, .empty mem m0⟩, top0, hm0.backed⟩ hrun
  obtain ⟨⟨⟨bs, hinv⟩, hplaced⟩, top, hm⟩ := h
  obtain ⟨p, hp⟩ := Option.ne_none_iff_exists'.mp (objects_stay hrun hfreed (.inl hmem))
  have hpos : 0 < o.size := by cases o <;> decide
  obtain ⟨hpage, hlt⟩ := hinv.page (hplaced.live _ p hp) hpos
  have hmapped := (hm.mapped_iff _ hpage).mpr (hlt.trans_le hm.top_bounds.1)
  obtain ⟨mp, hmp⟩ := Option.ne_none_iff_exists'.mp hmapped
  obtain ⟨hfree, hused, -⟩ := hm.accounted.held _ mp hpage hmp
  exact ⟨p, mp, hp, hmp, hfree, hused⟩

end UlmerOS
