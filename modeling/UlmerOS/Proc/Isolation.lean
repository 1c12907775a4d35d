import UlmerOS.Proc.Frames
import UlmerOS.Proc.Image

/-!
# User and kernel are kept apart

Nothing in the three loaders or in `sys_sbrk` compares an address with `USER_BREAK`.
What keeps a process out of the upper half is where its segments are and how far it
has moved its break.  `LowSegments` and `BreakOk` say what is needed of them.  A break
that is moved below zero wraps around and is not noticed.  A driver that writes behind
the page it reads for would write into any frame, so that the file is `Bounded`.

In every run in which they hold, the upper half is that of the kernel, and no page
from `USER_BREAK` on is mapped (`demand_paging_isolated`).
-/

namespace UlmerOS

open ByteMem Transition

/-- No segment to load has a page from `USER_BREAK` on. -/
def LowSegments (ldr : Loader) : Prop :=
  ∀ phte ∈ ldr.loads, ∀ page, userBreak >>> pageShift ≤ page → page < 2 ^ 52 →
    phte.covers page = false

/-- The break is not moved behind `USER_BREAK`, or it is where the heap is empty. -/
def BreakOk (s : Proc × PhysMem) : ProcCall → Prop
  | .fault _ _ => True
  | .sbrk increment => s.1.heapBrk ≠ minusOne →
      s.1.nextBreak increment ≤ userBreak ∨
        s.1.nextBreak increment = s.1.loader.minHeapBreak

/-- What every step keeps. -/
structure Isolated (m0 : PhysMem) (kernel : Vspace) (ldr : Loader) (proc : Proc) (m : PhysMem) :
    Prop where
  owned : Owned m0 kernel proc.vspace m
  stack : ∃ n, proc.stackList = [firstStack n]
  loader : proc.loader = ldr
  brk : proc.heapBrk ≤ userBreak ∨ proc.heapBrk = ldr.minHeapBreak

namespace Isolated

variable {m0 m m' : PhysMem} {kernel : Vspace} {ldr : Loader} {proc proc' : Proc}

/-- A page that a fault asks for is below `USER_BREAK`. -/
theorem demand_lt {address flags : Nat} {ret : Int} {bytes : List UInt8}
    (h : Isolated m0 kernel ldr proc m) (hlow : LowSegments ldr) (haddr : address < word)
    (hd : proc.demand address = .page ret bytes flags) :
    address >>> pageShift < userBreak >>> pageShift := by
  obtain ⟨-, ⟨n, hstack⟩, hldr, hbrk⟩ := h
  rw [Proc.demand, hstack, List.any_cons, List.any_nil, Bool.or_false] at hd
  split at hd
  · rename_i hc
    exact Nat.lt_trans (firstStack_covers.mp hc).2 (by decide)
  split at hd
  · rename_i hheap
    rw [hldr] at hheap
    have hlt : address < userBreak := by omega
    rw [pageShift, userBreak, Nat.shiftRight_eq_div_pow, Nat.shiftRight_eq_div_pow] at *
    omega
  · obtain ⟨phte, hfind, -, -⟩ := Loader.demand_page hd
    rw [hldr] at hfind
    by_contra hge
    have hpage : address >>> pageShift < 2 ^ 52 := by
      rw [word] at haddr
      rw [pageShift, Nat.shiftRight_eq_div_pow]
      omega
    have hno := hlow phte (List.mem_of_find?_eq_some hfind) _ (Nat.not_lt.mp hge) hpage
    have hyes := List.find?_some hfind
    rw [hno] at hyes
    cases hyes

theorem fault {address : Nat} {bits : FaultBits} {ok : Bool} (h : Isolated m0 kernel ldr proc m)
    (hk : KernelTables m0 kernel) (hfile : ldr.file.Bounded) (hset : ldr.Settled)
    (hlow : LowSegments ldr) (haddr : address < word)
    (hret : pageFault m proc address bits = .ret (ok, proc', m')) :
    Isolated m0 kernel ldr proc' m' := by
  obtain ⟨rfl, hserved⟩ := pageFault_ret (by rw [h.loader]; exact hfile) (h.owned.separated hk)
    (h.owned.tablesUsed hk) hret
  obtain ⟨n, hstack⟩ := h.stack
  have hnot : proc.demand address ≠ .stuck := by
    intro hd
    rw [hd] at hserved
    cases hserved
  refine ⟨?_, ⟨_, Proc.faulted_stack hstack address⟩, ?_, ?_⟩
  · rw [Proc.faulted_vspace]
    generalize hd : proc.demand address = d at hserved
    cases hserved with
    | nothing => exact h.owned
    | page hmap =>
        exact (hmap.owned h.owned hk fun _ _ => lower_of_lt (h.demand_lt hlow haddr hd)).1
  · exact (Proc.faulted_loader (by rw [h.loader]; exact hset) hnot).trans h.loader
  · rw [Proc.faulted_heapBrk]
    exact h.brk

theorem sbrk {increment : Int} {brk : Nat} (h : Isolated m0 kernel ldr proc m)
    (hk : KernelTables m0 kernel) (hok : BreakOk (proc, m) (.sbrk increment))
    (hret : sysSbrk m proc increment = .ret (brk, proc', m')) :
    Isolated m0 kernel ldr proc' m' := by
  rcases sysSbrk_ret hret with ⟨-, rfl, rfl⟩ | ⟨hne, rfl, first, n, rfl, hpages⟩
  · exact h
  · have hbrk := h.brk
    have hmin : ldr.minHeapBreak ≤ proc.nextBreak increment := by
      rw [Proc.nextBreak, h.loader]
      split <;> omega
    refine ⟨(h.owned.unmapRange hk first n fun page h1 h2 _ => ?_).1, h.stack, h.loader, ?_⟩
    · -- a page below the old break is below USER_BREAK, where the heap is not empty
      obtain ⟨-, hnew, hold⟩ := hpages page h1 h2
      have hlt : pageSize * page < userBreak := by omega
      refine lower_of_lt ?_
      rw [pageSize, userBreak] at hlt
      rw [userBreak, pageShift, Nat.shiftRight_eq_div_pow]
      omega
    · rw [← h.loader]
      exact hok hne

end Isolated

/-- **User/kernel isolation of demand paging.**  For every program without a segment
from `USER_BREAK` on and every run in which the break is never moved behind
`USER_BREAK`, no entry of the upper half has changed, and a fault that maps a page maps
one below `USER_BREAK`. -/
theorem demand_paging_isolated {m0 m m' : PhysMem} {kernel : Vspace} {hdrBuf phtBuf : Mem}
    {file : File} {ldr : Loader} {proc proc' : Proc} {calls : List ProcCall}
    (hkernel : KernelTables m0 kernel) (hfile : file.Bounded)
    (hldr : loaderCreate hdrBuf phtBuf file = some ldr) (hlow : LowSegments ldr)
    (hstart : procStart m0 kernel ldr = .ret (proc, m))
    (hrun : Run (Guarded ProcStep BreakOk) (proc, m) calls (proc', m')) :
    (∀ p i, ¬ UserPath (p ++ [i]) → p.length ≤ 3 →
      entry m' proc'.vspace p i = entry m0 kernel p i) ∧
    ∀ address bits ok proc'' m'', address < word →
      pageFault m' proc' address bits = .ret (ok, proc'', m'') →
      translation m' proc'.vspace (address >>> pageShift) = none →
      translation m'' proc'.vspace (address >>> pageShift) ≠ none →
      address >>> pageShift < userBreak >>> pageShift := by
  obtain ⟨hc, hproc⟩ := procStart_ret hkernel.used hstart
  obtain ⟨rfl, -⟩ := loaderCreate_cases hldr
  have hinit : Isolated m0 kernel ldr proc m := by
    refine ⟨(hc.owned hkernel.used).1, ⟨0, ?_⟩, ?_, .inr ?_⟩
    · rw [hproc]
      rfl
    · rw [hproc]
    · rw [hproc]
  have hinv : Isolated m0 kernel ldr proc' m' := by
    refine hrun.invariant (P := fun s => Isolated m0 kernel ldr s.1 s.2) ?_ hinit
    rintro s call t hs ⟨hstep, hok⟩
    cases hstep with
    | fault haddr hret =>
        exact hs.fault hkernel hfile (loaderCreate_settled hldr) hlow haddr hret
    | sbrk hret => exact hs.sbrk hkernel hok hret
  refine ⟨hinv.owned.kernel_entry, fun address bits ok proc'' m'' haddr hret hnone hsome => ?_⟩
  obtain ⟨-, hserved⟩ :=
    pageFault_ret (by rw [hinv.loader]; exact hfile) (hinv.owned.separated hkernel)
      (hinv.owned.tablesUsed hkernel) hret
  generalize hd : proc'.demand address = d at hserved
  cases hserved with
  | nothing => exact absurd hnone hsome
  | page hmap => exact hinv.demand_lt hlow haddr hd

/-- The text of the program is far below `USER_BREAK`. -/
theorem lowSegments_text {ldr : Loader} (h : ldr.loads = [⟨1, 5, 120, 0x400000, 4, 4⟩]) :
    LowSegments ldr := by
  intro phte hphte page hpage hlt
  rw [h, List.mem_singleton] at hphte
  subst hphte
  rw [userBreak, pageShift, Nat.shiftRight_eq_div_pow] at hpage
  have hend : (⟨1, 5, 120, 0x400000, 4, 4⟩ : Phte).endAddr = 0x400004 := by decide
  rw [Phte.covers, hend, decide_eq_false_iff_not, wrap64, word, pageShift, Nat.shiftLeft_eq]
  omega

/-- A process gets a page of heap and uses it. -/
theorem demand_paging_isolated_heap_page : ∃ proc m proc' m',
    boot textElf = .ret (proc, m) ∧
      Run (Guarded ProcStep BreakOk) (proc, m)
        [.sbrk 4096, .fault 0x401000 ⟨false, true, true, false⟩] (proc', m') ∧
      ∀ p i, ¬ UserPath (p ++ [i]) → p.length ≤ 3 →
        entry m' proc'.vspace p i = entry emptyMachine ⟨0⟩ p i := by
  have hcompute : (do
      let booted ← boot textElf
      let grown ← sysSbrk booted.2 booted.1 4096
      let faulted ← pageFault grown.2.2 grown.2.1 0x401000 ⟨false, true, true, false⟩
      .ret (faulted.1, booted.1.nextBreak 4096, booted.1.loader.loads)) =
      .ret (true, 0x402000, [⟨1, 5, 120, 0x400000, 4, 4⟩]) := by decide +kernel
  obtain ⟨⟨proc, m⟩, hboot, hrest⟩ := Outcome.bind_eq_ret.mp hcompute
  obtain ⟨⟨brk, proc1, m1⟩, hsbrk, hrest⟩ := Outcome.bind_eq_ret.mp hrest
  obtain ⟨⟨ok, proc2, m2⟩, hfault, hvals⟩ := Outcome.bind_eq_ret.mp hrest
  simp only [Outcome.ret.injEq, Prod.mk.injEq] at hvals
  obtain ⟨-, hnext, hloads⟩ := hvals
  obtain ⟨ldr, hldr, hstart⟩ := boot_ret hboot
  have hproc := (procStart_ret emptyMachine_kernel.used hstart).2
  have hrun : Run (Guarded ProcStep BreakOk) (proc, m)
      [.sbrk 4096, .fault 0x401000 ⟨false, true, true, false⟩] (proc2, m2) := by
    refine .cons ⟨.sbrk hsbrk, fun _ => .inl ?_⟩ (.cons ⟨.fault (by decide) hfault, trivial⟩ .nil)
    simp only [hnext]
    decide
  refine ⟨proc, m, proc2, m2, hboot, hrun, (demand_paging_isolated emptyMachine_kernel
    (File.ofBytes_bounded textElf) hldr (lowSegments_text ?_) hstart hrun).1⟩
  rw [hproc] at hloads
  exact hloads

/-- A break that is moved below zero is behind the end of the kernel.  The next fault
maps a page for the user in the upper half. -/
theorem break_below_zero : ∃ proc m proc1 m1 proc2 m2,
    boot textElf = .ret (proc, m) ∧
      Run ProcStep (proc, m)
        [.sbrk (-0x402000), .fault 0xffff900000000000 ⟨false, true, true, false⟩] (proc2, m2) ∧
      ProcStep (proc, m) (.sbrk (-0x402000)) (proc1, m1) ∧
      translation m1 proc1.vspace (0xffff900000000000 >>> pageShift) = none ∧
      translation m2 proc1.vspace (0xffff900000000000 >>> pageShift) ≠ none ∧
      ¬ 0xffff900000000000 >>> pageShift < userBreak >>> pageShift ∧
      ¬ ∀ p i, ¬ UserPath (p ++ [i]) → p.length ≤ 3 →
        entry m2 proc2.vspace p i = entry emptyMachine ⟨0⟩ p i := by
  have hcompute : (do
      let booted ← boot textElf
      let shrunk ← sysSbrk booted.2 booted.1 (-0x402000)
      let faulted ← pageFault shrunk.2.2 shrunk.2.1 0xffff900000000000
        ⟨false, true, true, false⟩
      .ret ((translation shrunk.2.2 shrunk.2.1.vspace
          (0xffff900000000000 >>> pageShift)).map Mapping.user,
        (translation faulted.2.2 shrunk.2.1.vspace
          (0xffff900000000000 >>> pageShift)).map Mapping.user,
        (entry faulted.2.2 faulted.2.1.vspace [] 288).map Gpte.present,
        (entry emptyMachine ⟨0⟩ [] 288).map Gpte.present)) =
      .ret (none, some true, some true, some false) := by decide +kernel
  obtain ⟨⟨proc, m⟩, hboot, hrest⟩ := Outcome.bind_eq_ret.mp hcompute
  obtain ⟨⟨brk, proc1, m1⟩, hsbrk, hrest⟩ := Outcome.bind_eq_ret.mp hrest
  obtain ⟨⟨ok, proc2, m2⟩, hfault, hvals⟩ := Outcome.bind_eq_ret.mp hrest
  simp only [Outcome.ret.injEq, Prod.mk.injEq, Option.map_eq_none_iff] at hvals
  obtain ⟨hbefore, hafter, hnow, hkernel⟩ := hvals
  refine ⟨proc, m, proc1, m1, proc2, m2, hboot,
    .cons (.sbrk hsbrk) (.cons (.fault (by decide) hfault) .nil), .sbrk hsbrk, hbefore, ?_,
    by decide, fun hsame => ?_⟩
  · intro hnone
    rw [hnone] at hafter
    cases hafter
  · rw [hsame [] 288 (show ¬ (288 : Fin 512).val < 256 by decide) (Nat.zero_le 3),
      hkernel] at hnow
    cases hnow

end UlmerOS
