import UlmerOS.Proc.Machine

/-!
# The frames of many processes

A frame that was free at first is free or that of one process.  This needs that no
process takes one and does not keep it, which a fault on a page that is mapped does,
and that the pages of its stack are counted when it ends (`MachineCounted`).

The count is then right in every run, so that every process can be deleted, and when
all have ended the allocator has all its frames again (`machine_frames_conserved`), but
for those of the kernel heap, which are not counted: no code frees a `proc_t` or a
`userstack_t`.
-/

namespace UlmerOS

open Ownership Transition

/-! ## One process -/

section

variable {m0 m m' : PhysMem} {kernel vs : Vspace} {proc proc' : Proc}

/-- Frames that are not loose are free or owned. -/
theorem Owned.kept_of_loose (ho : Owned m0 kernel vs m)
    (hl : ∀ f, Loose m0 vs m' f → Loose m0 vs m f) {f : Nat} (hf : m.Free f ∨ f ∈ frames m vs) :
    m'.Free f ∨ f ∈ frames m' vs := by
  by_contra hno
  rw [not_or] at hno
  have h0 : m0.Free f := hf.elim (ho.free f) fun h => (ho.frames_taken h).1
  obtain ⟨-, hused, hwalk⟩ :=
    hl f ⟨h0, hno.1, fun p hu hp hw => hno.2 (mem_frames.mpr ⟨p, hu, hp, hw⟩)⟩
  rcases hf with hfree | hmine
  · exact hused hfree
  · obtain ⟨p, hu, hp, hw⟩ := mem_frames.mp hmine
    exact hwalk p hu hp hw

/-- The pages of the stack are counted. -/
def Proc.Counted (proc : Proc) (m : PhysMem) : Prop :=
  proc.stackList = [firstStack (stackPages m proc.vspace)]

/-- An address in the stack is not left to the heap or the program. -/
theorem Proc.Counted.demand (h : proc.Counted m) {address : Nat}
    (hc : (firstStack (stackPages m proc.vspace)).covers (address >>> pageShift) = true) :
    proc.demand address = .page 0 [] (pgNoexec ||| pgUser ||| pgWrite) := by
  rw [Proc.demand, show proc.stackList = _ from h, List.any_cons, hc, Bool.true_or, if_pos rfl]

/-- A fault on a page that is not mapped keeps the count and loses no frame. -/
theorem Isolated.fault_counted {address : Nat} {bits : FaultBits} {ok : Bool}
    (h : Isolated m0 kernel proc.loader proc m) (hk : KernelTables m0 kernel)
    (hrun : proc.loader.Runnable) (haddr : address < word) (hcount : proc.Counted m)
    (hnone : ∀ ret bytes flags, proc.demand address = .page ret bytes flags → 0 ≤ ret →
      translation m proc.vspace (address >>> pageShift) = none)
    (hret : pageFault m proc address bits = .ret (ok, proc', m')) :
    proc'.Counted m' ∧ ∀ f, Loose m0 proc.vspace m' f → Loose m0 proc.vspace m f := by
  have hused := h.owned.tablesUsed hk
  obtain ⟨rfl, hserved⟩ := pageFault_ret hrun.bounded (h.owned.separated hk) hused hret
  have hstack := Proc.faulted_stack hcount address
  rw [Proc.Counted, Proc.faulted_vspace]
  generalize hd : proc.demand address = d at hserved
  cases hserved with
  | nothing =>
      rw [if_neg fun hc => by rw [hcount.demand hc] at hd; cases hd] at hstack
      exact ⟨hstack, fun _ hf => hf⟩
  | @page ret bytes flags _ _ hmap =>
      have hlt := h.demand_lt hrun.low haddr hd
      obtain ⟨-, hl⟩ := hmap.owned h.owned hk fun _ _ => lower_of_lt hlt
      have hclean : ret < 0 ∨ translation m proc.vspace (address >>> pageShift) = none := by
        by_cases hpos : 0 ≤ ret
        · exact .inr (hnone ret bytes flags hd hpos)
        · exact .inl (by omega)
      have hpages := hmap.stackPages_eq hused (stackPages m proc.vspace)
        (fun hpos => ⟨hnone ret bytes flags hd hpos, hlt⟩) fun hc => by
          rw [hcount.demand hc] at hd
          cases hd
          exact Int.le_refl 0
      have hle : stackPages m proc.vspace ≤ 0x2000 := mappedPages_le _ _ _ _
      refine ⟨?_, fun f => (hl hclean f).mp⟩
      rw [hstack, hpages]
      split
      · rw [wrap64_of_lt (by rw [word]; omega)]
      · rw [Nat.add_zero]

/-- The count stays when the pages do. -/
theorem Proc.Counted.congr (h : proc.Counted m) (hstack : proc'.stackList = proc.stackList)
    (hvs : proc'.vspace = proc.vspace)
    (htr : ∀ k, k < 0x2000 → translation m' proc.vspace (0x7ffffc000 + k) =
      translation m proc.vspace (0x7ffffc000 + k)) : proc'.Counted m' := by
  rw [Counted, hstack, hvs, stackPages, mappedPages_congr htr]
  exact h

/-- A break that is moved unmaps no page of the stack and loses no frame. -/
theorem Isolated.sbrk_counted {increment : Int} {value : Nat}
    (h : Isolated m0 kernel proc.loader proc m) (hk : KernelTables m0 kernel)
    (hcount : proc.Counted m)
    (hok : proc.heapBrk ≠ minusOne → increment < 0 → ∀ page,
      proc.nextBreak increment ≤ pageSize * page → pageSize * page < proc.heapBrk →
      translation m proc.vspace page ≠ none → ∀ stack ∈ proc.stackList, stack.covers page = false)
    (hret : sysSbrk m proc increment = .ret (value, proc', m')) :
    proc'.Counted m' ∧ ∀ f, Loose m0 proc.vspace m' f → Loose m0 proc.vspace m f := by
  rcases sysSbrk_ret hret with ⟨-, rfl, rfl⟩ | ⟨hne, rfl, first, n, rfl, hpages⟩
  · exact ⟨hcount, fun _ hf => hf⟩
  have hlt : ∀ page, first ≤ page → page < first + n → page < userBreak >>> pageShift := by
    intro page h1 h2
    obtain ⟨-, hbehind, hold⟩ := hpages page h1 h2
    exact h.page_lt ((Proc.le_nextBreak proc increment).trans hbehind) hold
  obtain ⟨-, hl, ht⟩ := h.owned.unmapRange hk first n fun page h1 h2 _ =>
    lower_of_lt (hlt page h1 h2)
  refine ⟨hcount.congr rfl rfl fun k hk' => ht _ fun page h1 h2 hmapped => ?_, fun f => (hl f).mp⟩
  -- a page of the stack is not among those that were unmapped
  refine mod_ne_of_lt (stackPage_lt hk') (hlt page h1 h2) ?_
  rintro rfl
  obtain ⟨hneg, hnew, hold⟩ := hpages _ h1 h2
  have hnot := hok hne hneg _ hnew hold hmapped
  rw [show proc.stackList = _ from hcount] at hnot
  have hc := hnot _ (List.mem_singleton.mpr rfl)
  rw [firstStack_covers.mpr ⟨by omega, by omega⟩] at hc
  cases hc

/-- A process that was started has no page of its stack. -/
theorem procStart_counted {ldr : Loader} (hused : TablesUsed m kernel)
    (h : procStart m kernel ldr = .ret (proc, m')) : proc.Counted m' := by
  obtain ⟨hc, hproc⟩ := procStart_ret hused h
  have hzero : stackPages m' proc.vspace = 0 := by
    refine mappedPages_zero fun k hk => ?_
    have hlow := lower_of_lt (stackPage_lt hk)
    rw [hc.translation_eq hused, if_neg (Nat.not_le.mpr (userPath_pagePath.mpr hlow))]
  rw [Proc.Counted, hzero, hproc]
  rfl

end

/-! ## All processes -/

/-- The stacks are counted, and no frame is lost. -/
structure Tallied (m0 : PhysMem) (kernel : Vspace) (s : Machine) : Prop where
  inv : MachineInv m0 kernel s
  counted : ∀ pid proc, s.procs pid = some proc → proc.Counted s.mem
  conserved : Ownership.Conserved m0.store s.frames s.mem.store

/-- A process that keeps the frames it has or takes. -/
def Machine.Keeps (s t : Machine) (pid : Nat) : Prop :=
  ∀ f, s.mem.Free f ∨ f ∈ s.frames pid → t.mem.Free f ∨ f ∈ t.frames pid

section

variable {m0 : PhysMem} {kernel : Vspace} {s t : Machine} {pid : Nat} {l : Event}

theorem accounted_boot (m0 : PhysMem) (kernel : Vspace) :
    Tallied m0 kernel ⟨m0, fun _ => none⟩ where
  inv := machineInv_boot m0 kernel
  counted := nofun
  conserved := fun _ hf => .inl hf

/-- The count is what the end of a process relies on. -/
theorem Tallied.machineOk (h : Tallied m0 kernel s) (hok : MachineCounted s (pid, l)) :
    MachineOk s (pid, l) := by
  cases l with
  | start ldr => exact hok
  | sbrk increment value => exact hok.1
  | exit => exact fun proc hproc => h.counted pid proc hproc
  | _ => trivial

/-- A process that goes on and does not make its frames loose keeps them. -/
theorem Machine.keeps_of_loose {proc proc' : Proc} {m' : PhysMem}
    (ho : Owned m0 kernel proc.vspace s.mem) (hproc : s.procs pid = some proc)
    (hvs : proc'.vspace = proc.vspace)
    (hl : ∀ f, Loose m0 proc.vspace m' f → Loose m0 proc.vspace s.mem f) :
    s.Keeps ⟨m', Function.update s.procs pid (some proc')⟩ pid := by
  intro f hf
  rw [Machine.frames_some hproc] at hf
  rw [Machine.frames_some (Function.update_self pid _ _), hvs]
  exact ho.kept_of_loose hl hf

/-- What the event does to its own process. -/
theorem Tallied.step_own (h : Tallied m0 kernel s) (hk : KernelTables m0 kernel)
    (honly : KernelOnly m0 kernel)
    (hstep : Guarded (MachineStep kernel) MachineCounted s (pid, l) t) :
    (∀ proc, t.procs pid = some proc → proc.Counted t.mem) ∧ s.Keeps t pid := by
  obtain ⟨hstep, hok⟩ := hstep
  have hself : ∀ {proc q : Proc}, Function.update s.procs pid (some proc) pid = some q → proc = q :=
    fun hq => Option.some.inj ((Function.update_self pid _ _).symm.trans hq)
  cases hstep with
  | @start _ _ _ _ ldr proc m' hnone hldr hret =>
      have hused := (h.inv.since.kernelTables hk).used
      refine ⟨fun q hq => hself hq ▸ procStart_counted hused hret, fun f hf => ?_⟩
      obtain ⟨hc, -⟩ := procStart_ret hused hret
      rw [Machine.frames_none hnone, Set.mem_empty_iff_false, or_false] at hf
      rw [Machine.frames_some (Function.update_self pid _ _)]
      by_contra hno
      rw [not_or] at hno
      exact (hc.owned hused).2 f
        ⟨hf, hno.1, fun p hu hp hw => hno.2 (mem_frames.mpr ⟨p, hu, hp, hw⟩)⟩
  | fault hproc haddr hret =>
      obtain ⟨hiso, hrun, -⟩ := h.inv.hosted pid _ hproc
      obtain ⟨hcount, hl⟩ := hiso.fault_counted hk hrun haddr (h.counted pid _ hproc)
        (hok _ hproc) hret
      refine ⟨fun q hq => hself hq ▸ hcount, ?_⟩
      refine Machine.keeps_of_loose hiso.owned hproc ?_ hl
      rw [(pageFault_ret hrun.bounded (hiso.owned.separated hk) (hiso.owned.tablesUsed hk) hret).1,
        Proc.faulted_vspace]
  | sbrk hproc hret =>
      obtain ⟨hiso, -, -⟩ := h.inv.hosted pid _ hproc
      obtain ⟨hcount, hl⟩ := hiso.sbrk_counted hk (h.counted pid _ hproc) (hok.2 _ hproc) hret
      refine ⟨fun q hq => hself hq ▸ hcount, ?_⟩
      refine Machine.keeps_of_loose hiso.owned hproc ?_ hl
      rcases sysSbrk_ret hret with ⟨-, rfl, -⟩ | ⟨-, rfl, -⟩ <;> rfl
  | load hproc _ _ _ => exact ⟨h.counted pid, fun f hf => hf⟩
  | @store _ address byte proc mp hproc _ hper htr =>
      have ho := (h.inv.hosted pid _ hproc).isolated.owned
      obtain ⟨-, hframes, hkeep, -⟩ := ho.poke hk htr (ho.user_page honly rfl hper)
        (mp.poke_ram_ne s.mem address byte) (poke_freePages _ _ _) (poke_calls _ _ _)
      refine ⟨fun q hq => ?_, fun f hf => ?_⟩
      · obtain rfl := Option.some.inj (hproc.symm.trans hq)
        exact (h.counted pid _ hproc).congr rfl rfl fun k _ => hkeep _
      · rw [Machine.frames_some hproc] at hf
        rw [Machine.frames_some (by exact hproc), hframes]
        exact hf
  | @exit _ proc _ hproc hret =>
      have ho := (h.inv.hosted pid _ hproc).isolated.owned
      obtain ⟨m1, ho1, hl, -, rfl⟩ := procDelete_ret ho hk (h.counted pid _ hproc) hret
      refine ⟨fun q hq => (nomatch (Function.update_self pid _ _).symm.trans hq), fun f hf => ?_⟩
      rw [Machine.frames_some hproc] at hf
      refine .inl ((ho1.delete_free.2.2 f).mpr ?_)
      exact (ho.kept_of_loose (fun f => (hl f).mp) hf).imp_right fun h =>
        mem_vspaceFrames.mpr (mem_frames.mp h)

/-- **One event** keeps the count, and loses no frame. -/
theorem Tallied.step (h : Tallied m0 kernel s) (hk : KernelTables m0 kernel)
    (honly : KernelOnly m0 kernel)
    (hstep : Guarded (MachineStep kernel) MachineCounted s (pid, l) t) : Tallied m0 kernel t := by
  obtain ⟨hinv, hother⟩ := h.inv.step hk honly ⟨hstep.1, h.machineOk hstep.2⟩
  obtain ⟨hcount, hkeeps⟩ := h.step_own hk honly hstep
  have hprocs := hstep.1.procs_ne
  refine ⟨hinv, fun j proc hj => ?_, ?_⟩
  · by_cases hjp : j = pid
    · subst hjp
      exact hcount proc hj
    · rw [hprocs j hjp] at hj
      exact (h.counted j proc hj).congr rfl rfl fun k _ => (hother j proc hjp hj).translation_eq _
  · refine h.conserved.step (fun f hf => hkeeps f (.inl hf)) (fun f hf => hkeeps f (.inr hf)) ?_
    rintro j f hjp ⟨proc, hj, hf⟩
    refine ⟨proc, (hprocs j hjp).trans hj, ?_⟩
    rw [(hother j proc hjp hj).frames_eq]
    exact hf

theorem Tallied.run {ls : List (Nat × Event)} (hk : KernelTables m0 kernel)
    (honly : KernelOnly m0 kernel)
    (hrun : Run (Guarded (MachineStep kernel) MachineCounted) ⟨m0, fun _ => none⟩ ls s) :
    Tallied m0 kernel s :=
  hrun.invariant (fun _ _ _ h hstep => h.step hk honly hstep) (accounted_boot m0 kernel)

/-- A process whose stack is counted can be deleted. -/
theorem Tallied.exit (h : Tallied m0 kernel s) (hk : KernelTables m0 kernel) (pid : Nat)
    {proc : Proc} (hproc : s.procs pid = some proc) : ∃ m', procDelete s.mem proc = .ret m' := by
  have hend :
      wrap64 ((newStack 0).startPage + (newStack 0).pageCount + minusOne) = 0x7ffffdfff := by
    decide
  have hcount : proc.stackList = [firstStack (stackPages s.mem proc.vspace)] :=
    h.counted pid proc hproc
  obtain ⟨m', hret, -⟩ := (h.inv.hosted pid proc hproc).isolated.owned.unwind hk (by decide)
    (show 0x7ffffdfff + 1 = 0x7ffffc000 + 0x2000 by decide) (by decide)
    (show 0x2000 ≤ word by decide) (show stackPages s.mem proc.vspace = _ from rfl)
  refine ⟨(vspaceDelete m' proc.vspace).2, ?_⟩
  rw [procDelete, deleteStack, hcount, List.getElem?_cons_zero]
  simp only [firstStack, hend, hret, Outcome.ret_bind]

end

end UlmerOS
