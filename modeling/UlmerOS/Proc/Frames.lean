import UlmerOS.Proc.Demand
import UlmerOS.Arch.VspaceOwned

/-!
# The frames of a process

What a page fault and `sys_sbrk` do to the frames that the address space of a process
owns.  A fault takes a frame before it is known whether the page is mapped already,
and if it is the frame stays loose.  Everything else keeps the frames in their places.
-/

namespace UlmerOS

open ByteMem

/-! ## Page faults -/

section

variable {m0 m m' : PhysMem} {kernel vs : Vspace}

/-- A frame that was allocated is loose. -/
theorem Filled.owned {p : Nat} {bytes : List UInt8} (h : Filled m p bytes m')
    (ho : Owned m0 kernel vs m) (hk : KernelTables m0 kernel) :
    Owned m0 kernel vs m' ∧ ∀ f, Loose m0 vs m' f ↔ Loose m0 vs m f ∨ f = p := by
  have hused := ho.tablesUsed hk
  have hwalk : ∀ q : Path, q.length ≤ 4 → walk m' vs q = walk m vs q := fun q hq =>
    h.walk_eq hused hq
  have hfree : ∀ f, m'.Free f → m.Free f := fun f hf => ((h.free_iff f).mp hf).1
  refine ⟨⟨?_, ?_, ?_, fun f hf => ho.free f (hfree f hf), h.size_eq.trans ho.size_eq,
    ho.balanced.alloc (ho.free p h.free) h.free h.free_iff h.calls_eq⟩, fun f => ?_⟩
  · intro q j hkq hq
    rw [h.entry_eq hused hq, ho.kernel_entry q j hkq hq]
  · intro q r f huq hur hq hr hqf hrf
    rw [hwalk q hq] at hqf
    rw [hwalk r hr] at hrf
    exact ho.inj q r f huq hur hq hr hqf hrf
  · intro q f huq hq hw
    rw [hwalk q hq] at hw
    obtain ⟨h0, hf⟩ := ho.taken q f huq hq hw
    exact ⟨h0, fun hfr => hf (hfree f hfr)⟩
  · rw [Loose, Loose, h.free_iff f]
    constructor
    · rintro ⟨h0, hf, hno⟩
      by_cases hfp : f = p
      · exact .inr hfp
      · refine .inl ⟨h0, fun hfr => hf ⟨hfr, hfp⟩, fun q huq hq => ?_⟩
        rw [← hwalk q hq]
        exact hno q huq hq
    · rintro (⟨h0, hf, hno⟩ | rfl)
      · refine ⟨h0, fun hfr => hf hfr.1, fun q huq hq => ?_⟩
        rw [hwalk q hq]
        exact hno q huq hq
      · refine ⟨ho.free f h.free, fun hfr => hfr.2 rfl, fun q huq hq => ?_⟩
        rw [hwalk q hq]
        exact ho.walk_ne_free h.free huq hq

/-- A frame that was free is not loose. -/
theorem Loose.ne_of_free {f p : Nat} (h : Loose m0 vs m f) (hp : m.Free p) : f ≠ p := by
  rintro rfl
  exact h.2.1 hp

/-- What a fault keeps: it does not leave a frame loose unless the page was mapped. -/
theorem MapFresh.owned {virt flags : Nat} {ret : Int} {bytes : List UInt8} {ok : Bool}
    (h : MapFresh vs m virt ret bytes flags ok m') (ho : Owned m0 kernel vs m)
    (hk : KernelTables m0 kernel)
    (hu : 0 ≤ ret → translation m vs virt = none → virt % 2 ^ 36 < 2 ^ 35) :
    Owned m0 kernel vs m' ∧
      (ret < 0 ∨ translation m vs virt = none → ∀ f, Loose m0 vs m' f ↔ Loose m0 vs m f) := by
  have hused := ho.tablesUsed hk
  -- the frame that the fault took is loose, until it is given back or mapped
  have hback : ∀ p m1, Filled m p bytes m1 → ∀ f,
      (Loose m0 vs m f ∨ f = p) ∧ f ≠ p ↔ Loose m0 vs m f := by
    intro p m1 hfill f
    constructor
    · rintro ⟨hor, hne⟩
      exact hor.resolve_right hne
    · exact fun hl => ⟨.inl hl, hl.ne_of_free hfill.free⟩
  cases h with
  | @failed m1 p hneg hfill =>
      obtain ⟨ho1, hl1⟩ := hfill.owned ho hk
      obtain ⟨ho2, hl2⟩ := ho1.release ((hl1 p).mpr (.inr rfl))
      refine ⟨ho2, fun _ f => ?_⟩
      rw [hl2 f, hl1 f]
      exact hback p m1 hfill f
  | @mapped m1 _ p hpos hfill hmapped =>
      obtain ⟨ho1, hl1⟩ := hfill.owned ho hk
      cases hmapped with
      | present hne =>
          refine ⟨ho1, fun hor => ?_⟩
          rw [hfill.translation_eq hused] at hne
          exact absurd hor (by rintro (hneg | hnone); exacts [by omega, hne hnone])
      | @added m2 _ e hnone hg hset hfp hcalls =>
          have hvirt : UserPath (pagePath virt) := by
            rw [hfill.translation_eq hused] at hnone
            exact userPath_pagePath.mpr (hu hpos hnone)
          obtain ⟨ho2, hl2⟩ := hg.owned ho1 hvirt
          have hwalk : walk m2 vs (pagePath virt) = none := by
            rw [walk_pagePath, hg.translation_eq, hnone]
            rfl
          obtain ⟨ho3, hl3⟩ := hset.owned_map ho2 hvirt
            ((hl2 p).mpr ((hl1 p).mpr (.inr rfl))) hwalk hfp hcalls
          refine ⟨ho3, fun _ f => ?_⟩
          rw [hl3 f, hl2 f, hl1 f]
          exact hback p m1 hfill f

/-- A fault on a page that is mapped leaves its frame loose. -/
theorem MapFresh.leaks {virt flags : Nat} {ret : Int} {bytes : List UInt8}
    (h : MapFresh vs m virt ret bytes flags true m') (ho : Owned m0 kernel vs m)
    (hk : KernelTables m0 kernel) (hmapped : translation m vs virt ≠ none) :
    ∃ f, Loose m0 vs m' f := by
  cases h with
  | @mapped _ _ p _ hfill hmap =>
      cases hmap with
      | present _ => exact ⟨p, ((hfill.owned ho hk).2 p).mpr (.inr rfl)⟩
      | added hnone _ _ _ _ =>
          rw [hfill.translation_eq (ho.tablesUsed hk)] at hnone
          exact absurd hnone hmapped

/-- A fault changes the mapping of its own page only, and only if the page was read. -/
theorem MapFresh.translation_eq {virt flags : Nat} {ret : Int} {bytes : List UInt8} {ok : Bool}
    (h : MapFresh vs m virt ret bytes flags ok m') (hused : TablesUsed m vs) (w : Nat)
    (hw : ret < 0 ∨ w % 2 ^ 36 ≠ virt % 2 ^ 36) : translation m' vs w = translation m vs w := by
  cases h with
  | failed _ hfill =>
      rw [← hfill.translation_eq hused w, translation_freePage]
  | mapped hpos hfill hmapped =>
      rw [← hfill.translation_eq hused w]
      cases hmapped with
      | present _ => rfl
      | added _ hg hset _ _ =>
          rw [hset.translation_eq, if_neg (hw.resolve_left (by omega)), hg.translation_eq]

/-- The tables of the kernel are those of the kernel still if it maps a fresh page itself. -/
theorem MapFresh.kernelTables {virt flags : Nat} {bytes : List UInt8}
    (h : MapFresh kernel m virt 0 bytes flags true m') (hk : KernelTables m kernel) :
    KernelTables m' kernel := by
  cases h with
  | @mapped m1 _ p _ hfill hmapped =>
      have hsep := hfill.separated hk.used hk.separated
      have hused := hfill.tablesUsed hk.used
      have hdirect : DirectMapped m1 kernel := by
        intro w mp hmp
        rw [hfill.translation_eq hk.used] at hmp
        exact hk.direct w mp hmp
      obtain ⟨hinv, -⟩ := hmapped.refines ⟨hsep, hdirect⟩
        (Nat.lt_of_lt_of_eq hfill.free.1 hfill.size_eq.symm)
      refine ⟨hinv.separated, ?_, hinv.direct⟩
      cases hmapped with
      | present _ => exact hused
      | added _ hg hset hfp _ => exact hset.tablesUsed (hg.tablesUsed hused) hfp

/-! ## Moving the break -/

/-- Unmapping pages that are in the lower half if they are mapped. -/
theorem Owned.unmapRange (ho : Owned m0 kernel vs m) (hk : KernelTables m0 kernel) (first n : Nat)
    (hu : ∀ page, first ≤ page → page < first + n → translation m vs page ≠ none →
      page % 2 ^ 36 < 2 ^ 35) :
    Owned m0 kernel vs (unmapRange vs first n m) ∧
      (∀ f, Loose m0 vs (unmapRange vs first n m) f ↔ Loose m0 vs m f) ∧
      ∀ w, (∀ page, first ≤ page → page < first + n → translation m vs page ≠ none →
        w % 2 ^ 36 ≠ page % 2 ^ 36) →
        translation (unmapRange vs first n m) vs w = translation m vs w := by
  induction n generalizing first m with
  | zero => exact ⟨ho, fun _ => Iff.rfl, fun _ _ => rfl⟩
  | succ n ih =>
      obtain ⟨m1, heq, ho1, hl1, ht1⟩ :=
        ho.unmap hk (hu first (Nat.le_refl first) (by omega))
      -- what is mapped after the first page was mapped before
      have hsome : ∀ page, translation m1 vs page ≠ none → translation m vs page ≠ none := by
        intro page hne
        rw [ht1 page] at hne
        split at hne
        · exact absurd rfl hne
        · exact hne
      obtain ⟨ho2, hl2, ht2⟩ := ih ho1 (first + 1) fun page h1 h2 hne =>
        hu page (by omega) (by omega) (hsome page hne)
      rw [UlmerOS.unmapRange, heq]
      refine ⟨ho2, fun f => (hl2 f).trans (hl1 f), fun w hw => ?_⟩
      rw [ht2 w fun page h1 h2 hne => hw page (by omega) (by omega) (hsome page hne), ht1 w]
      split
      · rename_i hwf
        cases htr : translation m vs first with
        | none => rw [translation_mod m vs hwf, htr]
        | some mp =>
            exact absurd hwf (hw first (Nat.le_refl first) (by omega) (by rw [htr]; nofun))
      · rfl

end

/-- The pages that `sys_sbrk` unmaps are those between the two breaks. -/
theorem unmapped_pages {old new page : Nat} (hlast : lastUnmap old ≠ minusOne)
    (h1 : firstUnmap new ≤ page)
    (h2 : page < firstUnmap new + (lastUnmap old + 1 - firstUnmap new)) :
    new ≤ pageSize * page ∧ pageSize * page < old := by
  have hmax : minusOne = 2 ^ 64 - 1 := rfl
  rw [firstUnmap, pageSize, pageShift, Nat.shiftRight_eq_div_pow] at h1 h2
  rw [lastUnmap, wrap64, word, hmax, pageSize, pageShift, Nat.shiftRight_eq_div_pow] at h2 hlast
  rw [pageSize]
  split at h1 <;> split at hlast <;> split at h2 <;> omega

/-- Every page between the two breaks is unmapped. -/
theorem mem_unmapped {old new page : Nat} (hold : old < word) (hnew : new ≤ pageSize * page)
    (hpage : pageSize * page < old) :
    firstUnmap new ≤ page ∧ page < firstUnmap new + (lastUnmap old + 1 - firstUnmap new) := by
  have hmax : minusOne = 2 ^ 64 - 1 := rfl
  have hfirst : firstUnmap new ≤ page := by
    rw [firstUnmap, pageSize, pageShift, Nat.shiftRight_eq_div_pow]
    rw [pageSize] at hnew
    split <;> omega
  have hlast : page ≤ lastUnmap old := by
    rw [lastUnmap, wrap64, hmax, pageSize, pageShift, Nat.shiftRight_eq_div_pow]
    rw [pageSize] at hpage
    rw [word] at *
    split <;> omega
  exact ⟨hfirst, by omega⟩

/-- `sys_sbrk` moves the break and may unmap pages between the old and the new. -/
theorem sysSbrk_ret {m m' : PhysMem} {proc proc' : Proc} {increment : Int} {brk : Nat}
    (h : sysSbrk m proc increment = .ret (brk, proc', m')) :
    (proc.heapBrk = minusOne ∧ proc' = proc ∧ m' = m) ∨
      (proc.heapBrk ≠ minusOne ∧ proc' = { proc with heapBrk := proc.nextBreak increment } ∧
        ∃ first n, m' = unmapRange proc.vspace first n m ∧
          ∀ page, first ≤ page → page < first + n →
            increment < 0 ∧ proc.nextBreak increment ≤ pageSize * page ∧
              pageSize * page < proc.heapBrk) := by
  rw [sysSbrk] at h
  split at h
  · rename_i hbrk
    cases h
    exact .inl ⟨hbrk, rfl, rfl⟩
  · rename_i hbrk
    right
    simp only at h
    split at h
    · rename_i hneg
      split at h
      · cases h
      · rename_i hlast
        cases h
        refine ⟨hbrk, rfl, _, _, rfl, fun page h1 h2 => ⟨hneg, ?_⟩⟩
        exact unmapped_pages hlast h1 h2
    · cases h
      exact ⟨hbrk, rfl, 0, 0, rfl, fun page h1 h2 => by omega⟩

/-! ## Runs of a process -/

/-- What a process does to its memory. -/
inductive ProcCall where
  /-- A page fault at this address. -/
  | fault (address : Nat) (bits : FaultBits)
  /-- `sys_sbrk(increment)`. -/
  | sbrk (increment : Int)

/-- The calls that return. -/
inductive ProcStep : Proc × PhysMem → ProcCall → Proc × PhysMem → Prop where
  | fault {proc proc' : Proc} {m m' : PhysMem} {address : Nat} {bits : FaultBits} {ok : Bool} :
      address < word → pageFault m proc address bits = .ret (ok, proc', m') →
      ProcStep (proc, m) (.fault address bits) (proc', m')
  | sbrk {proc proc' : Proc} {m m' : PhysMem} {increment : Int} {brk : Nat} :
      sysSbrk m proc increment = .ret (brk, proc', m') →
      ProcStep (proc, m) (.sbrk increment) (proc', m')

/-- The stack of the main thread, with a number of pages mapped. -/
def firstStack (pagesMapped : Nat) : Userstack := { newStack 0 with pagesMapped := pagesMapped }

/-- The stack ends below `USER_BREAK`. -/
theorem firstStack_covers {n virt : Nat} : (firstStack n).covers virt = true ↔
    0x7ffffc000 ≤ virt ∧ virt < 0x7ffffe000 := by
  have hstart : (newStack 0).startPage = 0x7ffffc000 := by decide
  have hend : wrap64 ((newStack 0).startPage + (newStack 0).pageCount) = 0x7ffffe000 := by decide
  rw [Userstack.covers, firstStack, hend, hstart]
  exact decide_eq_true_iff

/-- The number of a page below `USER_BREAK` is one of the lower half. -/
theorem lower_of_lt {page : Nat} (h : page < userBreak >>> pageShift) :
    page % 2 ^ 36 < 2 ^ 35 := by
  rw [userBreak, pageShift, Nat.shiftRight_eq_div_pow] at h
  omega

/-- The loader has its table, or it will never look for it. -/
def Loader.Settled (ldr : Loader) : Prop := (∃ pht, ldr.pht = some pht) ∨ ldr.locked = true

theorem loaderCreate_settled {hdrBuf phtBuf : Mem} {file : File} {ldr : Loader}
    (h : loaderCreate hdrBuf phtBuf file = some ldr) : ldr.Settled :=
  (loaderCreate_cases h).2.imp And.right And.left

theorem Loader.ready_of_pht {ldr : Loader} {pht : Mem} (h : ldr.pht = some pht) :
    ldr.ready = (0, ldr) := by
  rw [ready, h, Option.isNone_some, if_neg Bool.false_ne_true]

/-- A fault that returns does not change a loader that is settled. -/
theorem Proc.faulted_loader {proc : Proc} {address : Nat} (hset : proc.loader.Settled)
    (hd : proc.demand address ≠ .stuck) : (proc.faulted address).loader = proc.loader := by
  rw [demand] at hd
  rw [faulted]
  split
  · rfl
  rename_i hstack
  split
  · rfl
  rename_i hheap
  rw [if_neg hstack, if_neg hheap] at hd
  rcases hset with ⟨pht, hpht⟩ | hlocked
  · rw [Loader.faulted, Loader.ready_of_pht hpht, if_neg (Int.lt_irrefl 0)]
  · rw [Loader.demand, if_pos hlocked] at hd
    exact absurd rfl hd

/-- A fault in the stack is counted. -/
theorem Proc.faulted_stack {proc : Proc} {n : Nat} (h : proc.stackList = [firstStack n])
    (address : Nat) : (proc.faulted address).stackList =
      [firstStack
        (if (firstStack n).covers (address >>> pageShift) then wrap64 (n + 1) else n)] := by
  rw [faulted, h, List.any_cons, List.any_nil, Bool.or_false]
  by_cases hc : (firstStack n).covers (address >>> pageShift)
  · rw [if_pos hc, if_pos hc, countPage, if_pos hc]
    rfl
  · rw [if_neg hc, if_neg hc]
    split
    · exact h
    · rfl

end UlmerOS
