import UlmerOS.Proc.Frames
import UlmerOS.Arch.VspaceDelete
import UlmerOS.Lib.Run

/-!
# No frame is lost

The life of a process takes frames in `vspace_create`, for tables and for pages, and
gives them back in `sys_sbrk`, in `delete_stack` and in `vspace_delete`.

`delete_stack` counts the pages that it unmaps, so that the count has to be that of the
pages of the stack that are mapped.  A fault on a page that is mapped loses its frame
and counts it all the same, and a break that has been moved through the stack unmaps
pages that stay counted.  `FramesOk` rules these out, and pages of the upper half, which
`vspace_delete` does not release.  In every run in which it holds every frame is given
back (`frames_conserved`).

The frames are those of page tables and of the pages of the process.  What the kernel heap
takes for its objects is not counted, and not all of it is given back: `delete_stack` frees the
item of the list and not the `userstack_t` (`Object.freed`).
-/

namespace UlmerOS

open Transition

/-- What a step relies on: a page that is asked for is not mapped and is below
`USER_BREAK`, and a page that is unmapped is below it and not one of a stack. -/
def FramesOk (s : Proc × PhysMem) : ProcCall → Prop
  | .fault address _ => ∀ ret bytes flags, s.1.demand address = .page ret bytes flags → 0 ≤ ret →
      translation s.2 s.1.vspace (address >>> pageShift) = none ∧
        address >>> pageShift < userBreak >>> pageShift
  | .sbrk increment => s.1.heapBrk ≠ minusOne → increment < 0 →
      ∀ page, s.1.nextBreak increment ≤ pageSize * page → pageSize * page < s.1.heapBrk →
        translation s.2 s.1.vspace page ≠ none →
        page < userBreak >>> pageShift ∧ ∀ stack ∈ s.1.stackList, stack.covers page = false

/-! ## Counting the pages of a stack -/

/-- The number of pages that are mapped, of `n` from `first` on. -/
def mappedPages (m : PhysMem) (vs : Vspace) (first : Nat) : Nat → Nat
  | 0 => 0
  | n + 1 => mappedPages m vs first n + if (translation m vs (first + n)).isSome then 1 else 0

section

variable {m m' : PhysMem} {vs : Vspace} {first n : Nat}

theorem mappedPages_le (m : PhysMem) (vs : Vspace) (first n : Nat) :
    mappedPages m vs first n ≤ n := by
  induction n with
  | zero => exact Nat.le_refl 0
  | succ n ih =>
      rw [mappedPages]
      split <;> omega

theorem mappedPages_congr
    (h : ∀ k, k < n → translation m' vs (first + k) = translation m vs (first + k)) :
    mappedPages m' vs first n = mappedPages m vs first n := by
  induction n with
  | zero => rfl
  | succ n ih =>
      rw [mappedPages, mappedPages, ih fun k hk => h k (by omega), h n (by omega)]

theorem mappedPages_zero (h : ∀ k, k < n → translation m vs (first + k) = none) :
    mappedPages m vs first n = 0 := by
  induction n with
  | zero => rfl
  | succ n ih =>
      rw [mappedPages, ih fun k hk => h k (by omega), h n (by omega)]
      rfl

theorem none_of_mappedPages (h : mappedPages m vs first n = 0) :
    ∀ k, k < n → translation m vs (first + k) = none := by
  induction n with
  | zero => nofun
  | succ n ih =>
      rw [mappedPages] at h
      intro k hk
      rcases Nat.lt_succ_iff_lt_or_eq.mp hk with hlt | rfl
      · exact ih (by omega) k hlt
      · split at h
        · omega
        · rename_i hnone
          exact Option.not_isSome_iff_eq_none.mp hnone

/-- One page more is mapped. -/
theorem mappedPages_add {k : Nat} (hk : k < n) (hbefore : translation m vs (first + k) = none)
    (hafter : translation m' vs (first + k) ≠ none)
    (h : ∀ j, j < n → j ≠ k → translation m' vs (first + j) = translation m vs (first + j)) :
    mappedPages m' vs first n = mappedPages m vs first n + 1 := by
  induction n with
  | zero => exact absurd hk (Nat.not_lt_zero k)
  | succ n ih =>
      rw [mappedPages, mappedPages]
      by_cases hkn : k = n
      · subst hkn
        have hsome : (translation m' vs (first + k)).isSome := Option.isSome_iff_ne_none.mpr hafter
        rw [mappedPages_congr fun j hj => h j (by omega) (by omega), hbefore, if_pos hsome]
        rfl
      · rw [ih (by omega) fun j hj hne => h j (by omega) hne,
          h n (by omega) (fun he => hkn he.symm)]
        omega

end

/-- The pages of the stack that are mapped. -/
def stackPages (m : PhysMem) (vs : Vspace) : Nat := mappedPages m vs 0x7ffffc000 0x2000

/-- Pages below `USER_BREAK` that differ have different paths. -/
theorem mod_ne_of_lt {v w : Nat} (hv : v < userBreak >>> pageShift)
    (hw : w < userBreak >>> pageShift) (hne : v ≠ w) : v % 2 ^ 36 ≠ w % 2 ^ 36 := by
  rw [userBreak, pageShift, Nat.shiftRight_eq_div_pow] at *
  omega

theorem stackPage_lt {k : Nat} (hk : k < 0x2000) :
    0x7ffffc000 + k < userBreak >>> pageShift := by
  rw [userBreak, pageShift, Nat.shiftRight_eq_div_pow]
  omega

theorem MapFresh.ok_of_nonneg {vs : Vspace} {m m' : PhysMem} {virt flags : Nat} {ret : Int}
    {bytes : List UInt8} {ok : Bool} (h : MapFresh vs m virt ret bytes flags ok m')
    (hret : 0 ≤ ret) : ok = true := by
  cases h with
  | failed hneg _ => omega
  | mapped _ _ _ => rfl

/-- A fault maps one page of the stack if it is one in the stack, and none otherwise. -/
theorem MapFresh.stackPages_eq {vs : Vspace} {m m' : PhysMem} {virt flags : Nat} {ret : Int}
    {bytes : List UInt8} {ok : Bool} (h : MapFresh vs m virt ret bytes flags ok m')
    (hused : TablesUsed m vs) (n : Nat)
    (hfresh : 0 ≤ ret → translation m vs virt = none ∧ virt < userBreak >>> pageShift)
    (hstack : (firstStack n).covers virt = true → 0 ≤ ret) :
    stackPages m' vs = stackPages m vs + if (firstStack n).covers virt then 1 else 0 := by
  rw [stackPages, stackPages]
  by_cases hpos : 0 ≤ ret
  · obtain ⟨hnone, hlt⟩ := hfresh hpos
    have hkeep : ∀ k, k < 0x2000 → 0x7ffffc000 + k ≠ virt →
        translation m' vs (0x7ffffc000 + k) = translation m vs (0x7ffffc000 + k) :=
      fun k hk hne => h.translation_eq hused _ (.inr (mod_ne_of_lt (stackPage_lt hk) hlt hne))
    by_cases hc : (firstStack n).covers virt = true
    · obtain ⟨h1, h2⟩ := firstStack_covers.mp hc
      obtain ⟨k, rfl⟩ := Nat.exists_eq_add_of_le h1
      obtain rfl := h.ok_of_nonneg hpos
      obtain ⟨p, hp, -⟩ := h.frame hused hnone
      rw [if_pos hc]
      refine mappedPages_add (k := k) (by omega) hnone (by rw [hp]; nofun) fun j hj hne => ?_
      exact hkeep j hj (by omega)
    · rw [if_neg hc, Nat.add_zero]
      refine mappedPages_congr fun k hk => hkeep k hk ?_
      rintro rfl
      exact hc (firstStack_covers.mpr ⟨by omega, by omega⟩)
  · rw [if_neg fun hc => hpos (hstack hc), Nat.add_zero]
    exact mappedPages_congr fun k _ => h.translation_eq hused _ (.inl (by omega))

/-! ## What every step keeps -/

/-- The address space owns what was taken for it, nothing is loose, and the pages of
the stack are counted. -/
structure Conserved (m0 : PhysMem) (kernel : Vspace) (proc : Proc) (m : PhysMem) : Prop where
  owned : Owned m0 kernel proc.vspace m
  loose : ∀ f, ¬ Loose m0 proc.vspace m f
  stack : proc.stackList = [firstStack (stackPages m proc.vspace)]
  file : proc.loader.file.Bounded

namespace Conserved

variable {m0 m m' : PhysMem} {kernel : Vspace} {proc proc' : Proc}

/-- An address in the stack is not left to the heap or the program. -/
theorem demand_stack (h : Conserved m0 kernel proc m) {address : Nat}
    (hc : (firstStack (stackPages m proc.vspace)).covers (address >>> pageShift) = true) :
    proc.demand address = .page 0 [] (pgNoexec ||| pgUser ||| pgWrite) := by
  rw [Proc.demand, h.stack, List.any_cons, hc, Bool.true_or, if_pos rfl]

theorem fault {address : Nat} {bits : FaultBits} {ok : Bool} (h : Conserved m0 kernel proc m)
    (hk : KernelTables m0 kernel) (hok : FramesOk (proc, m) (.fault address bits))
    (hret : pageFault m proc address bits = .ret (ok, proc', m')) :
    Conserved m0 kernel proc' m' := by
  have hused := h.owned.tablesUsed hk
  obtain ⟨rfl, hserved⟩ := pageFault_ret h.file (h.owned.separated hk) hused hret
  have hfile : (proc.faulted address).loader.file.Bounded := by
    rw [Proc.faulted_file]
    exact h.file
  have hcount := Proc.faulted_stack h.stack address
  generalize hd : proc.demand address = d at hserved
  cases hserved with
  | nothing =>
      rw [if_neg fun hc => by rw [h.demand_stack hc] at hd; cases hd] at hcount
      refine ⟨?_, ?_, ?_, hfile⟩
      · rw [Proc.faulted_vspace]
        exact h.owned
      · rw [Proc.faulted_vspace]
        exact h.loose
      · rw [Proc.faulted_vspace]
        exact hcount
  | @page ret bytes flags _ _ hmap =>
      obtain ⟨ho, hl⟩ := hmap.owned h.owned hk fun hpos _ =>
        lower_of_lt (hok ret bytes flags hd hpos).2
      have hclean : ret < 0 ∨ translation m proc.vspace (address >>> pageShift) = none := by
        by_cases hpos : 0 ≤ ret
        · exact .inr (hok ret bytes flags hd hpos).1
        · exact .inl (by omega)
      refine ⟨?_, ?_, ?_, hfile⟩
      · rw [Proc.faulted_vspace]
        exact ho
      · rw [Proc.faulted_vspace]
        exact fun f hf => h.loose f ((hl hclean f).mp hf)
      · have hpages := hmap.stackPages_eq hused (stackPages m proc.vspace)
          (hok ret bytes flags hd) fun hc => by
            rw [h.demand_stack hc] at hd
            cases hd
            exact Int.le_refl 0
        have hle : stackPages m proc.vspace ≤ 0x2000 := mappedPages_le _ _ _ _
        rw [hcount, Proc.faulted_vspace, hpages]
        split
        · rw [wrap64_of_lt (by rw [word]; omega)]
        · rw [Nat.add_zero]

theorem sbrk {increment : Int} {brk : Nat} (h : Conserved m0 kernel proc m)
    (hk : KernelTables m0 kernel) (hok : FramesOk (proc, m) (.sbrk increment))
    (hret : sysSbrk m proc increment = .ret (brk, proc', m')) :
    Conserved m0 kernel proc' m' := by
  rcases sysSbrk_ret hret with ⟨-, rfl, rfl⟩ | ⟨hne, rfl, first, n, rfl, hpages⟩
  · exact h
  · have hguard : ∀ page, first ≤ page → page < first + n →
        translation m proc.vspace page ≠ none → page < userBreak >>> pageShift ∧
          ∀ stack ∈ proc.stackList, stack.covers page = false := by
      intro page h1 h2 hmapped
      obtain ⟨hneg, hnew, hold⟩ := hpages page h1 h2
      exact hok hne hneg page hnew hold hmapped
    obtain ⟨ho, hl, ht⟩ := h.owned.unmapRange hk first n fun page h1 h2 hmapped =>
      lower_of_lt (hguard page h1 h2 hmapped).1
    -- no page of the stack is among those that were unmapped
    have hcount : stackPages (unmapRange proc.vspace first n m) proc.vspace =
        stackPages m proc.vspace := by
      refine mappedPages_congr fun k hk => ht _ fun page h1 h2 hmapped => ?_
      obtain ⟨hlt, hnot⟩ := hguard page h1 h2 hmapped
      refine mod_ne_of_lt (stackPage_lt hk) hlt ?_
      rintro rfl
      rw [h.stack] at hnot
      have hc := hnot _ (List.mem_singleton.mpr rfl)
      rw [firstStack_covers.mpr ⟨by omega, by omega⟩] at hc
      cases hc
    refine ⟨ho, fun f hf => h.loose f ((hl f).mp hf), ?_, h.file⟩
    simp only [hcount]
    exact h.stack

end Conserved

/-! ## The end of a process -/

/-- The loop of `delete_stack` ends in the stack when the count is right.  It keeps what unmapping
a page of the stack keeps, and unmaps the pages of the stack and no other. -/
theorem unwindStack_ret {P : PhysMem → Prop} {m : PhysMem} {vs : Vspace}
    {fuel endPage first k n : Nat}
    (hunmap : ∀ m virt, P m → first ≤ virt → virt < first + k →
      ∃ m', vspaceUnmap m vs virt = ((translation m vs virt).isSome, m') ∧ P m' ∧
        ∀ w, translation m' vs w =
          if w % 2 ^ 36 = virt % 2 ^ 36 then none else translation m vs w)
    (hP : P m) (hfirst : 0 < first) (hend : endPage + 1 = first + k)
    (hlt : first + k ≤ userBreak >>> pageShift) (hfuel : k ≤ fuel)
    (hn : n = mappedPages m vs first k) :
    ∃ m', unwindStack vs fuel endPage n m = .ret m' ∧ P m' ∧
      (∀ j, j < k → translation m' vs (first + j) = none) ∧
      ∀ w, (∀ j, j < k → w % 2 ^ 36 ≠ (first + j) % 2 ^ 36) →
        translation m' vs w = translation m vs w := by
  -- one page less in each round, and one less to count if it was mapped
  induction k generalizing fuel endPage n m with
  | zero =>
      rw [mappedPages] at hn
      subst hn
      exact ⟨m, by rw [unwindStack], hP, nofun, fun _ _ => rfl⟩
  | succ k ih =>
      cases n with
      | zero =>
          exact ⟨m, by rw [unwindStack], hP, none_of_mappedPages hn.symm, fun _ _ => rfl⟩
      | succ n =>
          obtain ⟨fuel, rfl⟩ : ∃ fuel', fuel = fuel' + 1 := ⟨fuel - 1, by omega⟩
          obtain rfl : endPage = first + k := by omega
          have hpage : first + k < userBreak >>> pageShift := by omega
          obtain ⟨m1, heq, hP1, ht1⟩ := hunmap m (first + k) hP (by omega) (by omega)
          have hkeep : mappedPages m1 vs first k = mappedPages m vs first k := by
            refine mappedPages_congr fun j hj => ?_
            rw [ht1, if_neg (mod_ne_of_lt (by omega) hpage (by omega))]
          have hnext : wrap64 (first + k + minusOne) + 1 = first + k := by
            have hword : minusOne = 2 ^ 64 - 1 := rfl
            rw [userBreak, pageShift, Nat.shiftRight_eq_div_pow] at hpage
            rw [wrap64, word, hword]
            omega
          have hcount : (if (translation m vs (first + k)).isSome then n else n + 1) =
              mappedPages m1 vs first k := by
            rw [mappedPages] at hn
            rw [hkeep]
            split at hn
            · rename_i hsome
              rw [if_pos hsome]
              omega
            · rename_i hnone
              rw [if_neg hnone]
              omega
          obtain ⟨m2, hret, hP2, hnone2, hkeep2⟩ :=
            ih (fun m virt hP h1 h2 => hunmap m virt hP h1 (by omega)) hP1 hnext (by omega)
              (Nat.le_of_succ_le_succ hfuel) hcount
          refine ⟨m2, ?_, hP2, fun j hj => ?_, fun w hw => ?_⟩
          · rw [unwindStack, heq]
            exact hret
          · rcases Nat.lt_succ_iff_lt_or_eq.mp hj with hlt | rfl
            · exact hnone2 j hlt
            · -- the page of this round is not one of those that follow
              rw [hkeep2 _ fun i hi => mod_ne_of_lt hpage (by omega) (by omega), ht1, if_pos rfl]
          · rw [hkeep2 w fun i hi => hw i (by omega), ht1, if_neg (hw k (Nat.lt_succ_self k))]

/-- The loop keeps the frames that the address space owns. -/
theorem Owned.unwind {m0 m : PhysMem} {kernel vs : Vspace} {fuel endPage first k n : Nat}
    (ho : Owned m0 kernel vs m) (hk : KernelTables m0 kernel) (hfirst : 0 < first)
    (hend : endPage + 1 = first + k) (hlt : first + k ≤ userBreak >>> pageShift)
    (hfuel : k ≤ fuel) (hn : n = mappedPages m vs first k) :
    ∃ m', unwindStack vs fuel endPage n m = .ret m' ∧ Owned m0 kernel vs m' ∧
      ∀ f, Loose m0 vs m' f ↔ Loose m0 vs m f := by
  have hunmap : ∀ m1 virt, (Owned m0 kernel vs m1 ∧ ∀ f, Loose m0 vs m1 f ↔ Loose m0 vs m f) →
      first ≤ virt → virt < first + k →
      ∃ m', vspaceUnmap m1 vs virt = ((translation m1 vs virt).isSome, m') ∧
        (Owned m0 kernel vs m' ∧ ∀ f, Loose m0 vs m' f ↔ Loose m0 vs m f) ∧
        ∀ w, translation m' vs w =
          if w % 2 ^ 36 = virt % 2 ^ 36 then none else translation m1 vs w := by
    rintro m1 virt ⟨ho1, hl1⟩ - h2
    have hpage : virt < userBreak >>> pageShift := by omega
    obtain ⟨m2, heq, ho2, hl2, ht2⟩ := ho1.unmap hk fun _ => lower_of_lt hpage
    exact ⟨m2, heq, ⟨ho2, fun f => (hl2 f).trans (hl1 f)⟩, ht2⟩
  obtain ⟨m', hret, ⟨ho', hl'⟩, -, -⟩ :=
    unwindStack_ret hunmap ⟨ho, fun _ => Iff.rfl⟩ hfirst hend hlt hfuel hn
  exact ⟨m', hret, ho', hl'⟩

/-- `delete_stack` releases the pages of the stack and no other. -/
theorem Conserved.deleteStack {m0 m : PhysMem} {kernel : Vspace} {proc : Proc}
    (h : Conserved m0 kernel proc m) (hk : KernelTables m0 kernel) :
    ∃ proc' m', UlmerOS.deleteStack m proc 0 = .ret (proc', m') ∧ proc'.vspace = proc.vspace ∧
      Owned m0 kernel proc.vspace m' ∧ ∀ f, ¬ Loose m0 proc.vspace m' f := by
  have hend :
      wrap64 ((newStack 0).startPage + (newStack 0).pageCount + minusOne) = 0x7ffffdfff := by
    decide
  obtain ⟨m', hret, ho', hl'⟩ := h.owned.unwind hk (by decide)
    (show 0x7ffffdfff + 1 = 0x7ffffc000 + 0x2000 by decide) (by decide)
    (show 0x2000 ≤ word by decide) (show stackPages m proc.vspace = _ from rfl)
  refine ⟨{ proc with stackList := [] }, m', ?_, rfl, ho', fun f hf => h.loose f ((hl' f).mp hf)⟩
  rw [UlmerOS.deleteStack, h.stack, List.getElem?_cons_zero]
  simp only [firstStack, hend, hret, Outcome.ret_bind]
  rfl

/-- A process owns its frames after every run in which the steps are as they should be. -/
theorem conserved_run {m0 m m' : PhysMem} {kernel : Vspace} {ldr : Loader} {proc proc' : Proc}
    {calls : List ProcCall} (hkernel : KernelTables m0 kernel)
    (hstart : procStart m0 kernel ldr = .ret (proc, m)) (hfile : proc.loader.file.Bounded)
    (hrun : Run (Guarded ProcStep FramesOk) (proc, m) calls (proc', m')) :
    Conserved m0 kernel proc' m' := by
  obtain ⟨hc, hproc⟩ := procStart_ret hkernel.used hstart
  obtain ⟨ho, hloose⟩ := hc.owned hkernel.used
  refine hrun.invariant (P := fun s => Conserved m0 kernel s.1 s.2) ?_ ⟨ho, hloose, ?_, hfile⟩
  · rintro s call t hs ⟨hstep, hok⟩
    cases hstep with
    | fault _ hret => exact hs.fault hkernel hok hret
    | sbrk hret => exact hs.sbrk hkernel hok hret
  · -- the stack is in the lower half, where a new address space has no page
    have hzero : stackPages m proc.vspace = 0 := by
      refine mappedPages_zero fun k hk => ?_
      rw [hc.translation_eq hkernel.used, if_neg]
      rw [tableIndex, Fin.val_ofNat, Nat.shiftRight_eq_div_pow]
      omega
    rw [hzero, hproc]
    rfl

/-- **Frames are conserved.**  Reading the program writes no more than it is asked for.
After every run in which a fault asks for a page below `USER_BREAK` that is not mapped,
and a break that is moved down unmaps no page of a stack or of the upper half, the
teardown returns and the frames in use are those that were in use before, each taken as
often as it was given back.  The kernel heap keeps its frames, and they are not counted. -/
theorem frames_conserved {m0 m m' : PhysMem} {kernel : Vspace} {ldr : Loader} {proc proc' : Proc}
    {calls : List ProcCall} (hkernel : KernelTables m0 kernel)
    (hstart : procStart m0 kernel ldr = .ret (proc, m)) (hfile : proc.loader.file.Bounded)
    (hrun : Run (Guarded ProcStep FramesOk) (proc, m) calls (proc', m')) :
    ∃ proc'' m'', deleteStack m' proc' 0 = .ret (proc'', m'') ∧
      (∀ f, (vspaceDelete m'' proc''.vspace).2.freePages.Used f ↔ m0.freePages.Used f) ∧
      ∃ log, (vspaceDelete m'' proc''.vspace).2.calls = log ++ m0.calls ∧
        ∀ f, log.count (.alloc f) = log.count (.free f) := by
  obtain ⟨proc'', m'', hret, hvs, ho, hloose⟩ :=
    (conserved_run hkernel hstart hfile hrun).deleteStack hkernel
  have hfree := ho.delete hloose
  obtain ⟨⟨log, hlog, hcount⟩, hsize, -⟩ := ho.delete_free
  rw [← hvs] at hlog hcount hsize hfree
  refine ⟨proc'', m'', hret, fun f => ?_, log, hlog, fun f => ?_⟩
  · rw [FreePages.used_iff, FreePages.used_iff]
    exact and_congr (iff_of_eq (congrArg (f < ·) hsize)) (not_congr (hfree f))
  · rw [hcount f, if_neg fun h => h.2 ((hfree f).mpr h.1)]
    rfl

/-- A process uses its heap and its stack, and gives back some of the heap. -/
theorem frames_conserved_heap_and_stack : ∃ proc m proc' m' proc'' m'',
    boot textElf = .ret (proc, m) ∧
      Run (Guarded ProcStep FramesOk) (proc, m)
        [.sbrk 4096, .fault 0x401000 ⟨false, true, true, false⟩,
          .fault 0x7ffffdfffff8 ⟨false, true, true, false⟩, .sbrk (-4096)] (proc', m') ∧
      deleteStack m' proc' 0 = .ret (proc'', m'') ∧
      ∀ f, (vspaceDelete m'' proc''.vspace).2.freePages.Used f ↔ emptyMachine.freePages.Used f := by
  have hcompute : (do
      let booted ← boot textElf
      let grown ← sysSbrk booted.2 booted.1 4096
      let faulted1 ← pageFault grown.2.2 grown.2.1 0x401000 ⟨false, true, true, false⟩
      let faulted2 ← pageFault faulted1.2.2 faulted1.2.1 0x7ffffdfffff8 ⟨false, true, true, false⟩
      let shrunk ← sysSbrk faulted2.2.2 faulted2.2.1 (-4096)
      .ret ((translation grown.2.2 grown.2.1.vspace 0x401).map Mapping.ppn,
        (translation faulted1.2.2 faulted1.2.1.vspace 0x7ffffdfff).map Mapping.ppn,
        faulted2.2.1.nextBreak (-4096), faulted2.2.1.heapBrk, faulted2.2.1.stackList)) =
      .ret (none, none, 0x401000, 0x402000, [firstStack 1]) := by decide +kernel
  obtain ⟨⟨proc, m⟩, hboot, hrest⟩ := Outcome.bind_eq_ret.mp hcompute
  obtain ⟨⟨b1, proc1, m1⟩, hsbrk, hrest⟩ := Outcome.bind_eq_ret.mp hrest
  obtain ⟨⟨ok2, proc2, m2⟩, hheap, hrest⟩ := Outcome.bind_eq_ret.mp hrest
  obtain ⟨⟨ok3, proc3, m3⟩, hstack, hrest⟩ := Outcome.bind_eq_ret.mp hrest
  obtain ⟨⟨b4, proc4, m4⟩, hshrink, hvals⟩ := Outcome.bind_eq_ret.mp hrest
  simp only [Outcome.ret.injEq, Prod.mk.injEq, Option.map_eq_none_iff] at hvals
  obtain ⟨hnone1, hnone2, hnext, hbrk, hlist⟩ := hvals
  obtain ⟨ldr, -, hstart⟩ := boot_ret hboot
  have hrun : Run (Guarded ProcStep FramesOk) (proc, m)
      [.sbrk 4096, .fault 0x401000 ⟨false, true, true, false⟩,
        .fault 0x7ffffdfffff8 ⟨false, true, true, false⟩, .sbrk (-4096)] (proc4, m4) := by
    refine .cons ⟨.sbrk hsbrk, fun _ hneg => by omega⟩
      (.cons ⟨.fault (by decide) hheap, fun _ _ _ _ _ => ⟨hnone1, by decide⟩⟩
      (.cons ⟨.fault (by decide) hstack, fun _ _ _ _ _ => ⟨hnone2, by decide⟩⟩
      (.cons ⟨.sbrk hshrink, fun _ _ page h1 h2 _ => ?_⟩ .nil)))
    -- the one page between the two breaks
    simp only [hnext, hbrk, hlist, pageSize] at *
    obtain rfl : page = 0x401 := by omega
    refine ⟨by decide, fun stack hs => ?_⟩
    obtain rfl := List.mem_singleton.mp hs
    decide
  obtain ⟨proc'', m'', hdelete, hused, -⟩ :=
    frames_conserved emptyMachine_kernel hstart (boot_bounded hboot) hrun
  exact ⟨proc, m, proc4, m4, proc'', m'', hboot, hrun, hdelete, hused⟩

/-- A second fault on a page of the heap takes a frame that nobody gives back. -/
theorem second_fault_leaks : ∃ proc m proc' m' proc'' m'', ∃ f : Nat,
    boot textElf = .ret (proc, m) ∧
      Run ProcStep (proc, m)
        [.sbrk 4096, .fault 0x401000 ⟨false, false, true, false⟩,
          .fault 0x401000 ⟨true, true, true, false⟩] (proc', m') ∧
      deleteStack m' proc' 0 = .ret (proc'', m'') ∧
      (vspaceDelete m'' proc''.vspace).2.freePages.Used f ∧ ¬ emptyMachine.freePages.Used f := by
  have hcompute : (do
      let booted ← boot textElf
      let grown ← sysSbrk booted.2 booted.1 4096
      let faulted1 ← pageFault grown.2.2 grown.2.1 0x401000 ⟨false, false, true, false⟩
      let faulted2 ← pageFault faulted1.2.2 faulted1.2.1 0x401000 ⟨true, true, true, false⟩
      .ret ((translation grown.2.2 grown.2.1.vspace 0x401).isSome,
        (translation faulted1.2.2 faulted1.2.1.vspace 0x401).isSome,
        faulted1.2.1.demand 0x401000, faulted2.2.1.stackList)) =
      .ret (false, true, .page 0 [] 3, [firstStack 0]) := by decide +kernel
  obtain ⟨⟨proc, m⟩, hboot, hrest⟩ := Outcome.bind_eq_ret.mp hcompute
  obtain ⟨⟨b1, proc1, m1⟩, hsbrk, hrest⟩ := Outcome.bind_eq_ret.mp hrest
  obtain ⟨⟨ok2, proc2, m2⟩, hfirst, hrest⟩ := Outcome.bind_eq_ret.mp hrest
  obtain ⟨⟨ok3, proc3, m3⟩, hsecond, hvals⟩ := Outcome.bind_eq_ret.mp hrest
  simp only [Outcome.ret.injEq, Prod.mk.injEq, Option.isSome_eq_false_iff,
    Option.isNone_iff_eq_none, Option.isSome_iff_ne_none] at hvals
  obtain ⟨hnone, hmapped, hdemand, hlist⟩ := hvals
  obtain ⟨ldr, -, hstart⟩ := boot_ret hboot
  -- up to the first fault everything is as it should be
  have hinv := conserved_run emptyMachine_kernel hstart (boot_bounded hboot)
    (.cons ⟨.sbrk hsbrk, fun _ hneg => by omega⟩
      (.cons ⟨.fault (by decide) hfirst, fun _ _ _ _ _ => ⟨hnone, by decide⟩⟩ .nil))
  obtain ⟨rfl, hserved⟩ := pageFault_ret hinv.file (hinv.owned.separated emptyMachine_kernel)
    (hinv.owned.tablesUsed emptyMachine_kernel) hsecond
  rw [hdemand] at hserved
  cases hserved with
  | page hmap =>
      obtain rfl := hmap.ok_of_nonneg (Int.le_refl 0)
      obtain ⟨f, hf⟩ := hmap.leaks hinv.owned emptyMachine_kernel hmapped
      have ho := (hmap.owned hinv.owned emptyMachine_kernel fun _ hn => absurd hn hmapped).1
      obtain ⟨hused, hfree⟩ := ho.delete_loose hf
      refine ⟨proc, m, _, m3, { proc2.faulted 0x401000 with stackList := [] }, m3, f, hboot,
        .cons (.sbrk hsbrk) (.cons (.fault (by decide) hfirst)
          (.cons (.fault (by decide) hsecond) .nil)), ?_, ?_, hfree⟩
      · rw [deleteStack, hlist, List.getElem?_cons_zero]
        simp only [firstStack, unwindStack, Outcome.ret_bind]
        rfl
      · simp only [Proc.faulted_vspace]
        exact hused

end UlmerOS
