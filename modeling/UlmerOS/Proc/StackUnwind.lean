import UlmerOS.Proc.Conservation
import UlmerOS.Proc.StackSlots

/-!
# The stacks are counted

`delete_stack` has no bound for its loop but the number of pages that `stack_load` has counted.
It ends in the slot of the stack if that is the number of pages that are mapped there.

A fault on a page that is mapped is counted all the same, and a page that another loader has
mapped in a slot is not.  `StackOk` rules these out step by step.  The frames of the pages in the
slots are `Reserved` then: each is that of one page, and none is free or a table.
-/

namespace UlmerOS

open Transition

/-! ## Pages with frames of their own -/

/-- The pages are of the lower half, and what is mapped of them has frames of its own. -/
structure Reserved (vs : Vspace) (pages : Nat → Prop) (m : PhysMem) : Prop where
  separated : Separated m vs
  used : TablesUsed m vs
  user : ∀ page, pages page → page < userBreak >>> pageShift
  frame : ∀ page mp, pages page → translation m vs page = some mp →
    mp.ppn < 2 ^ 35 ∧ ¬ m.Free mp.ppn ∧ ¬ IsTable m vs mp.ppn
  distinct : ∀ v w a b, pages v → pages w → translation m vs v = some a →
    translation m vs w = some b → a.ppn = b.ppn → v = w

namespace Reserved

variable {vs : Vspace} {pages pages' : Nat → Prop} {m m' : PhysMem}

/-- Pages that are not mapped can be added. -/
theorem extend (h : Reserved vs pages m) (hadd : ∀ page, pages' page → pages page ∨
    page < userBreak >>> pageShift ∧ translation m vs page = none) : Reserved vs pages' m := by
  have hold : ∀ page mp, pages' page → translation m vs page = some mp → pages page := by
    intro page mp hpage htr
    refine (hadd page hpage).resolve_right fun hnone => ?_
    rw [hnone.2] at htr
    cases htr
  refine ⟨h.separated, h.used, fun page hpage => ?_, fun page mp hpage htr => ?_,
    fun v w a b hv hw ha hb => ?_⟩
  · rcases hadd page hpage with hin | hnew
    · exact h.user page hin
    · exact hnew.1
  · exact h.frame page mp (hold page mp hpage htr) htr
  · exact h.distinct v w a b (hold v a hv ha) (hold w b hw hb) ha hb

/-- Frames in use are kept, and one page may get a frame that was free. -/
theorem update (h : Reserved vs pages m) (virt : Nat) (hsep : Separated m' vs)
    (hused : TablesUsed m' vs)
    (hkeep : ∀ f, ¬ m.Free f → ¬ IsTable m vs f → ¬ m'.Free f ∧ ¬ IsTable m' vs f)
    (hpage : ∀ page, pages page → translation m' vs page = translation m vs page ∨
      page = virt ∧ ∃ mp, translation m' vs page = some mp ∧ mp.ppn < 2 ^ 35 ∧ m.Free mp.ppn ∧
        ¬ m'.Free mp.ppn ∧ ¬ IsTable m' vs mp.ppn) : Reserved vs pages m' := by
  refine ⟨hsep, hused, h.user, fun page mp hin htr => ?_, fun v w a b hv hw ha hb hppn => ?_⟩
  · rcases hpage page hin with hsame | ⟨-, mp', hnew, hlt, -, hfree, htable⟩
    · obtain ⟨hlt, hfree, htable⟩ := h.frame page mp hin (hsame.symm.trans htr)
      exact ⟨hlt, hkeep mp.ppn hfree htable⟩
    · obtain rfl := Option.some.inj (hnew.symm.trans htr)
      exact ⟨hlt, hfree, htable⟩
  · -- a frame that was free is that of no other page
    rcases hpage v hv with hsamev | ⟨rfl, a', hnewv, -, hfreea, -⟩
    · have hav := hsamev.symm.trans ha
      rcases hpage w hw with hsamew | ⟨rfl, b', hneww, -, hfreeb, -⟩
      · exact h.distinct v w a b hv hw hav (hsamew.symm.trans hb) hppn
      · obtain rfl := Option.some.inj (hneww.symm.trans hb)
        rw [← hppn] at hfreeb
        exact absurd hfreeb (h.frame v a hv hav).2.1
    · obtain rfl := Option.some.inj (hnewv.symm.trans ha)
      rcases hpage w hw with hsamew | ⟨rfl, -⟩
      · rw [hppn] at hfreea
        exact absurd hfreea (h.frame w b hw (hsamew.symm.trans hb)).2.1
      · rfl

/-- `vspace_unmap` of such a page. -/
theorem unmap (h : Reserved vs pages m) {virt : Nat} (hvirt : pages virt) :
    ∃ m', vspaceUnmap m vs virt = ((translation m vs virt).isSome, m') ∧ Reserved vs pages m' ∧
      ∀ w, translation m' vs w =
        if w % 2 ^ 36 = virt % 2 ^ 36 then none else translation m vs w := by
  cases htr : translation m vs virt with
  | none =>
      refine ⟨m, vspaceUnmap_none htr, h, fun w => ?_⟩
      split
      · rename_i hw
        rw [translation_mod m vs hw, htr]
      · rfl
  | some mp =>
      obtain ⟨hlt, hfree, htable⟩ := h.frame virt mp hvirt htr
      obtain ⟨m1, heq, hset, hfp, -⟩ := vspaceUnmap_some h.separated htr hlt
      have htrans : ∀ w, translation (freePage m1 mp.ppn) vs w =
          if w % 2 ^ 36 = virt % 2 ^ 36 then none else translation m vs w := by
        intro w
        rw [translation_freePage]
        exact hset.translation_eq w
      have htables : ∀ f, IsTable (freePage m1 mp.ppn) vs f ↔ IsTable m vs f := fun f =>
        isTable_freePage.trans hset.isTable_iff
      have hfrees : ∀ f, (freePage m1 mp.ppn).Free f → m.Free f ∨ f = mp.ppn := by
        intro f hf
        rw [freePage_free, PhysMem.Free, hfp] at hf
        exact hf.imp_right And.left
      refine ⟨_, heq, ⟨?_, ?_, h.user, ?_, ?_⟩, htrans⟩
      · rw [separated_freePage]
        exact hset.separated h.separated
      · intro f hf hfreef
        rcases hfrees f hfreef with hfreef | rfl
        · exact h.used f ((htables f).mp hf) hfreef
        · exact htable ((htables _).mp hf)
      · intro page mp' hpage htr'
        rw [htrans] at htr'
        split at htr'
        · cases htr'
        · rename_i hne
          obtain ⟨hlt', hfree', htable'⟩ := h.frame page mp' hpage htr'
          refine ⟨hlt', fun hf => ?_, fun ht => htable' ((htables _).mp ht)⟩
          rcases hfrees _ hf with hf | hsame
          · exact hfree' hf
          · have hpages := h.distinct page virt mp' mp hpage hvirt htr' htr hsame
            exact hne (congrArg (· % 2 ^ 36) hpages)
      · intro v w a b hv hw ha hb hppn
        rw [htrans] at ha hb
        split at ha
        · cases ha
        · split at hb
          · cases hb
          · exact h.distinct v w a b hv hw ha hb hppn

/-- A fault keeps the frames.  The page that it maps is one of these or of none. -/
theorem mapFresh {virt flags : Nat} {ret : Int} {bytes : List UInt8} {ok : Bool}
    (h : Reserved vs pages m) (hmap : MapFresh vs m virt ret bytes flags ok m')
    (hvirt : 0 ≤ ret → translation m vs virt = none →
      pages virt ∨ ∀ page, pages page → page % 2 ^ 36 ≠ virt % 2 ^ 36) : Reserved vs pages m' := by
  cases hmap with
  | @failed m1 p hneg hfill =>
      have hfrees : ∀ f, (freePage m1 p).Free f → m.Free f := by
        intro f hf
        rw [freePage_free, hfill.free_iff] at hf
        rcases hf with ⟨hf, -⟩ | ⟨rfl, -⟩
        · exact hf
        · exact hfill.free
      have htables : ∀ f, IsTable (freePage m1 p) vs f → IsTable m vs f := fun f hf =>
        (hfill.isTable_iff h.used).mp (isTable_freePage.mp hf)
      refine h.update virt ?_ ?_ ?_ fun page _ => .inl ?_
      · rw [separated_freePage]
        exact hfill.separated h.used h.separated
      · exact fun f hf hfree => h.used f (htables f hf) (hfrees f hfree)
      · exact fun f hfree htable =>
          ⟨fun hf => hfree (hfrees f hf), fun ht => htable (htables f ht)⟩
      · rw [translation_freePage]
        exact hfill.translation_eq h.used page
  | @mapped m1 _ p hpos hfill hmapped =>
      have hsep1 := hfill.separated h.used h.separated
      have hused1 := hfill.tablesUsed h.used
      have hkeep1 : ∀ f, ¬ m.Free f → ¬ IsTable m vs f → ¬ m1.Free f ∧ ¬ IsTable m1 vs f := by
        exact fun f hfree htable => ⟨fun hf => hfree ((hfill.free_iff f).mp hf).1,
          fun ht => htable ((hfill.isTable_iff h.used).mp ht)⟩
      cases hmapped with
      | present hne =>
          exact h.update virt hsep1 hused1 hkeep1 fun page _ =>
            .inl (hfill.translation_eq h.used page)
      | @added m2 _ e hnone hg hset hfp _ =>
          have hnone0 : translation m vs virt = none := by
            rw [← hfill.translation_eq h.used, hnone]
          have hlt : p < 2 ^ 32 := Nat.lt_of_lt_of_le hfill.free.1 m.freePages.small
          have hkeep : ∀ f, ¬ m1.Free f → ¬ IsTable m1 vs f → ¬ m'.Free f ∧ ¬ IsTable m' vs f := by
            intro f hfree htable
            refine ⟨fun hf => hfree (hg.free_le ?_), fun ht => ?_⟩
            · rwa [PhysMem.Free, hfp] at hf
            · exact (hg.keeps hfree htable).1 (hset.isTable_iff.mp ht)
          refine h.update virt (hset.separated (hg.separated hsep1))
            (hset.tablesUsed (hg.tablesUsed hused1) hfp) ?_ fun page hpage => ?_
          · intro f hfree htable
            obtain ⟨hfree1, htable1⟩ := hkeep1 f hfree htable
            exact hkeep f hfree1 htable1
          · rw [hset.translation_eq]
            split
            · rename_i hmod
              right
              rcases hvirt hpos hnone0 with hin | hout
              · refine ⟨?_, _, pageEntry_mapping e flags (by omega), show p < 2 ^ 35 by omega,
                  hfill.free, ?_⟩
                · by_contra hne
                  exact mod_ne_of_lt (h.user page hpage) (h.user virt hin) hne hmod
                · exact hkeep p (fun hf => ((hfill.free_iff p).mp hf).2 rfl) fun ht =>
                    h.used p ((hfill.isTable_iff h.used).mp ht) hfill.free
              · exact absurd hmod (hout page hpage)
            · left
              rw [hg.translation_eq, hfill.translation_eq h.used]

end Reserved

/-- A fault on a page that is mapped changes no translation. -/
theorem MapFresh.translation_of_mapped {vs : Vspace} {m m' : PhysMem} {virt flags : Nat}
    {ret : Int} {bytes : List UInt8} {ok : Bool} (h : MapFresh vs m virt ret bytes flags ok m')
    (hused : TablesUsed m vs) (hmapped : translation m vs virt ≠ none) (w : Nat) :
    translation m' vs w = translation m vs w := by
  cases h with
  | failed _ hfill =>
      rw [translation_freePage]
      exact hfill.translation_eq hused w
  | mapped _ hfill hadd =>
      rw [← hfill.translation_eq hused w]
      cases hadd with
      | present _ => rfl
      | added hnone _ _ _ _ =>
          rw [hfill.translation_eq hused] at hnone
          exact absurd hnone hmapped

/-! ## Counted stacks -/

/-- The page is in the range of some stack of the list. -/
def InStack (stackList : List Userstack) (page : Nat) : Prop :=
  ∃ stack ∈ stackList, stack.Holds page

/-- What a step relies on.  No page of a new slot is mapped.  A page that a stack takes is not
mapped, and one that the heap or the program maps is in no slot. -/
def StackOk (s : Proc × PhysMem) : StackCall → Prop
  | .create => (∀ stack ∈ s.1.stackList, stack.allocated = true) →
      ∀ page, (newStack s.1.stackList.length).Holds page → translation s.2 s.1.vspace page = none
  | .fault address _ =>
      if s.1.stackList.any fun stack => stack.covers (address >>> pageShift) then
        translation s.2 s.1.vspace (address >>> pageShift) = none
      else ∀ ret bytes flags, s.1.demand address = .page ret bytes flags → 0 ≤ ret →
        translation s.2 s.1.vspace (address >>> pageShift) = none →
        ∀ page, InStack s.1.stackList page → page % 2 ^ 36 ≠ (address >>> pageShift) % 2 ^ 36
  | .delete _ => True

/-- The stacks are in their slots, and the pages of each are counted. -/
structure Counted (proc : Proc) (m : PhysMem) : Prop where
  slots : Slots proc.stackList
  reserved : Reserved proc.vspace (InStack proc.stackList) m
  counted : ∀ stack ∈ proc.stackList,
    stack.pagesMapped = mappedPages m proc.vspace stack.startPage stack.pageCount
  file : proc.loader.file.Bounded

namespace Slots

variable {stackList : List Userstack}

theorem inStack_lt (h : Slots stackList) {page : Nat} (hpage : InStack stackList page) :
    page < userBreak >>> pageShift := by
  obtain ⟨stack, hmem, -, hhigh⟩ := hpage
  exact Nat.lt_of_lt_of_le hhigh (h.below hmem)

/-- A stack takes the pages of its range when it is allocated. -/
theorem covers_iff (h : Slots stackList) {stack : Userstack} (hmem : stack ∈ stackList)
    {page : Nat} : stack.covers page = true ↔ stack.allocated = true ∧ stack.Holds page := by
  have hend : wrap64 (stack.startPage + stack.pageCount) = stack.startPage + stack.pageCount :=
    wrap64_of_lt (Nat.lt_of_le_of_lt (h.below hmem) (by decide))
  rw [Userstack.covers, hend, Bool.and_eq_true, decide_eq_true_iff]
  rfl

/-- A page is in one slot at most. -/
theorem eq_of_holds (h : Slots stackList) {i j : Nat} {s t : Userstack} {page : Nat}
    (hs : stackList[i]? = some s) (ht : stackList[j]? = some t) (hsp : s.Holds page)
    (htp : t.Holds page) : i = j := by
  obtain ⟨hs1, hs2⟩ := hsp
  obtain ⟨ht1, ht2⟩ := htp
  rcases Nat.lt_trichotomy i j with hlt | heq | hlt
  · have := h.apart hlt hs ht
    omega
  · exact heq
  · have := h.apart hlt ht hs
    omega

section

variable {vs : Vspace} {m m' : PhysMem} {virtPage : Nat} {stack : Userstack}

/-- A page is mapped that the stack takes: it has one page more. -/
theorem mapped_covers (h : Slots stackList) (hmem : stack ∈ stackList)
    (hcovers : stack.covers virtPage = true) (hbefore : translation m vs virtPage = none)
    (hafter : translation m' vs virtPage ≠ none)
    (hkeep : ∀ page, InStack stackList page → page ≠ virtPage →
      translation m' vs page = translation m vs page) :
    mappedPages m' vs stack.startPage stack.pageCount =
      mappedPages m vs stack.startPage stack.pageCount + 1 := by
  obtain ⟨-, hlow, hhigh⟩ := (h.covers_iff hmem).mp hcovers
  obtain ⟨k, rfl⟩ := Nat.exists_eq_add_of_le hlow
  refine mappedPages_add (k := k) (by omega) hbefore hafter fun j hj hne => ?_
  exact hkeep _ ⟨stack, hmem, Nat.le_add_right _ _, Nat.add_lt_add_left hj _⟩ (by omega)

/-- A page is mapped that another stack takes. -/
theorem mapped_not_covers (h : Slots stackList) (hmem : stack ∈ stackList)
    (hcovers : ¬ stack.covers virtPage = true)
    (hany : stackList.any (fun stack => stack.covers virtPage) = true)
    (hkeep : ∀ page, InStack stackList page → page ≠ virtPage →
      translation m' vs page = translation m vs page) :
    mappedPages m' vs stack.startPage stack.pageCount =
      mappedPages m vs stack.startPage stack.pageCount := by
  refine mappedPages_congr fun k hk => ?_
  have hholds : stack.Holds (stack.startPage + k) :=
    ⟨Nat.le_add_right _ _, Nat.add_lt_add_left hk _⟩
  refine hkeep _ ⟨stack, hmem, hholds⟩ fun heq => ?_
  -- the page would be in the slot of this stack and in that of the one that takes it
  rw [heq] at hholds
  obtain ⟨t, ht, htcovers⟩ := List.any_eq_true.mp hany
  obtain ⟨i, hi⟩ := List.mem_iff_getElem?.mp hmem
  obtain ⟨j, hj⟩ := List.mem_iff_getElem?.mp ht
  obtain rfl := h.eq_of_holds hi hj hholds ((h.covers_iff ht).mp htcovers).2
  obtain rfl := Option.some.inj (hi.symm.trans hj)
  exact hcovers htcovers

end

end Slots

/-- With at most one stack that takes the page, it is the one that counts it. -/
theorem countPage_eq_map {virtPage : Nat} {stackList : List Userstack}
    (h : stackList.Pairwise fun s t => ¬ (s.covers virtPage = true ∧ t.covers virtPage = true)) :
    countPage virtPage stackList = stackList.map fun stack =>
      if stack.covers virtPage then
        { stack with pagesMapped := wrap64 (stack.pagesMapped + 1) }
      else stack := by
  induction stackList with
  | nil => rfl
  | cons stack rest ih =>
      obtain ⟨hfirst, hrest⟩ := List.pairwise_cons.mp h
      rw [countPage, List.map_cons]
      split
      · rename_i hcovers
        have hsame : ∀ t ∈ rest, (if t.covers virtPage = true then
            { t with pagesMapped := wrap64 (t.pagesMapped + 1) } else t) = t :=
          fun t ht => if_neg fun ht' => hfirst t ht ⟨hcovers, ht'⟩
        exact congrArg (List.cons _) ((List.map_congr_left hsame).trans (List.map_id' rest)).symm
      · rw [ih hrest]

theorem Slots.countPage_eq {stackList : List Userstack} (h : Slots stackList) (virtPage : Nat) :
    countPage virtPage stackList = stackList.map fun stack =>
      if stack.covers virtPage then
        { stack with pagesMapped := wrap64 (stack.pagesMapped + 1) }
      else stack := by
  refine countPage_eq_map (List.pairwise_iff_getElem.mpr fun i j hi hj hij hboth => ?_)
  have hs := (h.covers_iff (List.getElem_mem hi)).mp hboth.1
  have ht := (h.covers_iff (List.getElem_mem hj)).mp hboth.2
  have heq := h.eq_of_holds (List.getElem?_eq_getElem hi) (List.getElem?_eq_getElem hj) hs.2 ht.2
  omega

namespace Counted

variable {proc proc' : Proc} {m m' : PhysMem}

/-- Other stacks with the same ranges and counts. -/
theorem of_same (h : Counted proc m) {stackList' : List Userstack} (hslots : Slots stackList')
    (hsame : ∀ stack' ∈ stackList', ∃ stack ∈ proc.stackList, stack'.startPage = stack.startPage ∧
      stack'.pageCount = stack.pageCount ∧ stack'.pagesMapped = stack.pagesMapped) :
    Counted { proc with stackList := stackList' } m := by
  refine ⟨hslots, h.reserved.extend fun page hpage => .inl ?_, fun stack' hmem => ?_, h.file⟩
  · obtain ⟨stack', hmem, hlow, hhigh⟩ := hpage
    obtain ⟨stack, hold, hstart, hcount, -⟩ := hsame stack' hmem
    exact ⟨stack, hold, hstart ▸ hlow, by rw [← hstart, ← hcount]; exact hhigh⟩
  · obtain ⟨stack, hold, hstart, hcount, hmapped⟩ := hsame stack' hmem
    rw [hstart, hcount, hmapped]
    exact h.counted stack hold

theorem create (h : Counted proc m) (hfew : (createStack proc).2.stackList.length < 2 ^ 21)
    (hok : StackOk (proc, m) .create) : Counted (createStack proc).2 m := by
  have hslots := h.slots.create hfew
  rcases createStack_cases proc with ⟨i, stack, hstack, -, heq⟩ | ⟨hall, heq⟩
  · rw [heq] at hslots ⊢
    refine h.of_same hslots fun stack' hmem => ?_
    obtain ⟨j, hj⟩ := List.mem_iff_getElem?.mp hmem
    rw [List.getElem?_modify] at hj
    obtain ⟨old, hold, rfl⟩ := Option.map_eq_some_iff.mp hj
    refine ⟨old, List.mem_of_getElem? hold, ?_⟩
    split
    · exact ⟨rfl, rfl, rfl⟩
    · exact ⟨rfl, rfl, rfl⟩
  · rw [heq] at hslots ⊢
    have hnew := hok hall
    refine ⟨hslots, h.reserved.extend fun page hpage => ?_, fun stack hmem => ?_, h.file⟩
    · obtain ⟨stack, hmem, hholds⟩ := hpage
      rcases List.mem_append.mp hmem with hold | hadd
      · exact .inl ⟨stack, hold, hholds⟩
      · obtain rfl := List.mem_singleton.mp hadd
        exact .inr ⟨hslots.inStack_lt ⟨_, hmem, hholds⟩, hnew page hholds⟩
    · rcases List.mem_append.mp hmem with hold | hadd
      · exact h.counted stack hold
      · obtain rfl := List.mem_singleton.mp hadd
        exact (mappedPages_zero fun k hk =>
          hnew _ ⟨Nat.le_add_right _ _, Nat.add_lt_add_left hk _⟩).symm

/-- A fault that no stack takes. -/
theorem fault_other {address : Nat} {bits : FaultBits} {ok : Bool} (h : Counted proc m)
    (hok : StackOk (proc, m) (.fault address bits))
    (hany : ¬ proc.stackList.any (fun stack => stack.covers (address >>> pageShift)) = true)
    (hserved : Served proc.vspace m (address >>> pageShift) (proc.demand address) ok m') :
    Counted (proc.faulted address) m' := by
  have hlist : (proc.faulted address).stackList = proc.stackList := by
    rw [Proc.faulted_stackList, if_neg hany]
  have hfile : (proc.faulted address).loader.file.Bounded := by
    rw [Proc.faulted_file]
    exact h.file
  have hused := h.reserved.used
  rw [StackOk, if_neg hany] at hok
  generalize hd : proc.demand address = d at hserved
  cases hserved with
  | nothing =>
      refine ⟨by rw [hlist]; exact h.slots, ?_, ?_, hfile⟩
      · rw [hlist, Proc.faulted_vspace]
        exact h.reserved
      · rw [hlist, Proc.faulted_vspace]
        exact h.counted
  | @page ret bytes flags _ _ hmap =>
      have hout := hok ret bytes flags hd
      refine ⟨by rw [hlist]; exact h.slots, ?_, fun stack hmem => ?_, hfile⟩
      · rw [hlist, Proc.faulted_vspace]
        exact h.reserved.mapFresh hmap fun hpos hnone => .inr (hout hpos hnone)
      · rw [hlist] at hmem
        rw [Proc.faulted_vspace, h.counted stack hmem]
        refine (mappedPages_congr fun k hk => ?_).symm
        by_cases hnone : translation m proc.vspace (address >>> pageShift) = none
        · refine hmap.translation_eq hused _ ?_
          by_cases hpos : 0 ≤ ret
          · exact .inr (hout hpos hnone _ ⟨stack, hmem, Nat.le_add_right _ _,
              Nat.add_lt_add_left hk _⟩)
          · exact .inl (Int.not_le.mp hpos)
        · exact hmap.translation_of_mapped hused hnone _

/-- A fault that a stack takes. -/
theorem fault_stack {address : Nat} {bits : FaultBits} {ok : Bool} (h : Counted proc m)
    (hok : StackOk (proc, m) (.fault address bits))
    (hany : proc.stackList.any (fun stack => stack.covers (address >>> pageShift)) = true)
    (hserved : Served proc.vspace m (address >>> pageShift) (proc.demand address) ok m') :
    Counted (proc.faulted address) m' := by
  have hused := h.reserved.used
  have hslots := h.slots.fault address
  have hfile : (proc.faulted address).loader.file.Bounded := by
    rw [Proc.faulted_file]
    exact h.file
  have hlist : (proc.faulted address).stackList = proc.stackList.map fun stack =>
      if stack.covers (address >>> pageShift) then
        { stack with pagesMapped := wrap64 (stack.pagesMapped + 1) }
      else stack := by
    rw [Proc.faulted_stackList, if_pos hany, h.slots.countPage_eq]
  have hin : InStack proc.stackList (address >>> pageShift) := by
    obtain ⟨stack, hmem, hcovers⟩ := List.any_eq_true.mp hany
    exact ⟨stack, hmem, ((h.slots.covers_iff hmem).mp hcovers).2⟩
  rw [StackOk, if_pos hany] at hok
  have hd : proc.demand address = .page 0 [] (pgNoexec ||| pgUser ||| pgWrite) := by
    rw [Proc.demand, if_pos hany]
  rw [hd] at hserved
  cases hserved with
  | page hmap =>
      obtain rfl := hmap.ok_of_nonneg (Int.le_refl 0)
      -- no other page of a stack changes
      have hkeep : ∀ page, InStack proc.stackList page → page ≠ address >>> pageShift →
          translation m' proc.vspace page = translation m proc.vspace page :=
        fun page hpage hne => hmap.translation_eq hused page
          (.inr (mod_ne_of_lt (h.slots.inStack_lt hpage) (h.slots.inStack_lt hin) hne))
      refine ⟨hslots, ?_, fun stack' hmem' => ?_, hfile⟩
      · rw [Proc.faulted_vspace]
        refine (h.reserved.mapFresh hmap fun _ _ => .inl hin).extend fun page hpage => .inl ?_
        obtain ⟨stack', hmem', hholds⟩ := hpage
        rw [hlist] at hmem'
        obtain ⟨stack, hmem, rfl⟩ := List.mem_map.mp hmem'
        refine ⟨stack, hmem, ?_⟩
        split at hholds
        · exact hholds
        · exact hholds
      · rw [hlist] at hmem'
        obtain ⟨stack, hmem, rfl⟩ := List.mem_map.mp hmem'
        rw [Proc.faulted_vspace]
        obtain ⟨p, hp, -⟩ := hmap.frame hused hok
        split
        · rename_i hcovers
          have hmapped : translation m' proc.vspace (address >>> pageShift) ≠ none := by
            rw [hp]
            exact Option.some_ne_none _
          have hadd := h.slots.mapped_covers hmem hcovers hok hmapped hkeep
          have hle := mappedPages_le m proc.vspace stack.startPage stack.pageCount
          have hbelow := h.slots.below hmem
          have hword : userBreak >>> pageShift + 1 < word := by decide
          simp only [hadd, h.counted stack hmem]
          exact wrap64_of_lt (by omega)
        · rename_i hcovers
          rw [h.counted stack hmem]
          exact (h.slots.mapped_not_covers hmem hcovers hany hkeep).symm

theorem fault {address : Nat} {bits : FaultBits} {ok : Bool} (h : Counted proc m)
    (hok : StackOk (proc, m) (.fault address bits))
    (hret : pageFault m proc address bits = .ret (ok, proc', m')) : Counted proc' m' := by
  obtain ⟨rfl, hserved⟩ := pageFault_ret h.file h.reserved.separated h.reserved.used hret
  by_cases hany : proc.stackList.any (fun stack => stack.covers (address >>> pageShift)) = true
  · exact h.fault_stack hok hany hserved
  · exact h.fault_other hok hany hserved

/-- The loop of `delete_stack` unmaps the pages of the stack and no other. -/
theorem unwind (h : Counted proc m) {stack : Userstack} (hmem : stack ∈ proc.stackList) :
    ∃ m', unwindStack proc.vspace word (wrap64 (stack.startPage + stack.pageCount + minusOne))
        stack.pagesMapped m = .ret m' ∧
      Reserved proc.vspace (InStack proc.stackList) m' ∧
      (∀ k, k < stack.pageCount →
        translation m' proc.vspace (stack.startPage + k) = none) ∧
      ∀ w, (∀ page, stack.Holds page → w % 2 ^ 36 ≠ page % 2 ^ 36) →
        translation m' proc.vspace w = translation m proc.vspace w := by
  have hbelow := h.slots.below hmem
  obtain ⟨i, hi⟩ := List.mem_iff_getElem?.mp hmem
  obtain ⟨hindex, -⟩ := List.getElem?_eq_some_iff.mp hi
  have hfew := h.slots.few
  have hstart := (h.slots.inSlot i stack hi).startPage_eq (h.slots.lt_of_getElem? hi)
  have hcount := (h.slots.inSlot i stack hi).pageCount_eq
  have hfirst : 0 < stack.startPage := by omega
  have hend : wrap64 (stack.startPage + stack.pageCount + minusOne) + 1 =
      stack.startPage + stack.pageCount := by
    have hmax : minusOne = 2 ^ 64 - 1 := rfl
    rw [hcount, wrap64, word, hmax]
    omega
  have hfuel : stack.pageCount ≤ word := by
    rw [hcount]
    decide
  obtain ⟨m', hret, hres, hnone, hkeep⟩ := unwindStack_ret
    (fun m virt (hP : Reserved proc.vspace (InStack proc.stackList) m) h1 h2 =>
      hP.unmap ⟨stack, hmem, h1, h2⟩)
    h.reserved hfirst hend hbelow hfuel (h.counted stack hmem)
  refine ⟨m', hret, hres, hnone, fun w hw => hkeep w fun j hj => hw _ ?_⟩
  exact ⟨Nat.le_add_right _ _, Nat.add_lt_add_left hj _⟩

theorem delete {index : Nat} (h : Counted proc m)
    (hret : deleteStack m proc index = .ret (proc', m')) : Counted proc' m' := by
  have hslots := h.slots.delete hret
  obtain ⟨stack, hstack, hloop, kept, hprefix, rfl⟩ := deleteStack_ret hret
  obtain ⟨m1, hunwind, hres, hnone, hkeep⟩ := h.unwind (List.mem_of_getElem? hstack)
  obtain rfl : m1 = m' := Outcome.ret.inj (hunwind.symm.trans hloop)
  -- a stack that stays is the one that was deleted, or one of the others
  have hkept : ∀ (i : Nat) (stack' : Userstack), kept[i]? = some stack' →
      i = index ∧ stack' = { stack with allocated := false, pagesMapped := 0 } ∨
        i ≠ index ∧ proc.stackList[i]? = some stack' := by
    intro i stack' hi
    have hset := getElem?_of_prefix hprefix hi
    rw [List.getElem?_set] at hset
    split at hset
    · rename_i heq
      split at hset
      · exact .inl ⟨heq.symm, (Option.some.inj hset).symm⟩
      · cases hset
    · rename_i hne
      exact .inr ⟨fun heq => hne heq.symm, hset⟩
  refine ⟨hslots, hres.extend fun page hpage => .inl ?_, fun stack' hmem => ?_, h.file⟩
  · obtain ⟨stack', hmem, hholds⟩ := hpage
    obtain ⟨i, hi⟩ := List.mem_iff_getElem?.mp hmem
    rcases hkept i stack' hi with ⟨-, rfl⟩ | ⟨-, hi'⟩
    · exact ⟨stack, List.mem_of_getElem? hstack, hholds⟩
    · exact ⟨stack', List.mem_of_getElem? hi', hholds⟩
  · obtain ⟨i, hi⟩ := List.mem_iff_getElem?.mp hmem
    rcases hkept i stack' hi with ⟨-, rfl⟩ | ⟨hne, hi'⟩
    · exact (mappedPages_zero hnone).symm
    · rw [h.counted stack' (List.mem_of_getElem? hi')]
      refine (mappedPages_congr fun k hk => hkeep _ fun page hpage => ?_).symm
      have hk' : stack'.Holds (stack'.startPage + k) :=
        ⟨Nat.le_add_right _ _, Nat.add_lt_add_left hk _⟩
      refine mod_ne_of_lt (h.slots.inStack_lt ⟨stack', List.mem_of_getElem? hi', hk'⟩)
        (h.slots.inStack_lt ⟨stack, List.mem_of_getElem? hstack, hpage⟩) ?_
      rintro rfl
      exact hne (h.slots.eq_of_holds hi' hstack hk' hpage)

theorem step {s t : Proc × PhysMem} {call : StackCall} (h : Counted s.1 s.2)
    (hstep : Guarded StackStep StackOk s call t) : Counted t.1 t.2 := by
  obtain ⟨hstep, hok⟩ := hstep
  cases hstep with
  | create hfew => exact h.create hfew hok
  | fault _ hret => exact h.fault hok hret
  | delete _ _ hret => exact h.delete hret

/-- `delete_stack` of a stack in the list returns. -/
theorem deleteStack (h : Counted proc m) {stack : Userstack} (hmem : stack ∈ proc.stackList) :
    ∃ proc' m', UlmerOS.deleteStack m proc stack.index = .ret (proc', m') ∧
      ∀ w, (∀ page, stack.Holds page → w % 2 ^ 36 ≠ page % 2 ^ 36) →
        translation m' proc.vspace w = translation m proc.vspace w := by
  obtain ⟨i, hi⟩ := List.mem_iff_getElem?.mp hmem
  obtain ⟨m', hunwind, -, -, hkeep⟩ := h.unwind hmem
  have hret : ∃ proc', UlmerOS.deleteStack m proc stack.index = .ret (proc', m') := by
    rw [UlmerOS.deleteStack, (h.slots.inSlot i stack hi).index_eq, hi]
    simp only [hunwind, Outcome.ret_bind]
    exact ⟨_, rfl⟩
  obtain ⟨proc', hret⟩ := hret
  exact ⟨proc', m', hret, hkeep⟩

end Counted

/-- A process without stacks, whose page tables are sound. -/
structure StackStart (proc : Proc) (m : PhysMem) : Prop where
  empty : proc.stackList = []
  separated : Separated m proc.vspace
  used : TablesUsed m proc.vspace
  file : proc.loader.file.Bounded

/-- What `proc_start` returns is such a process with its first stack. -/
theorem stackStart_of_procStart {m0 m : PhysMem} {kernel : Vspace} {ldr : Loader} {proc : Proc}
    (hkernel : KernelTables m0 kernel) (hfile : proc.loader.file.Bounded)
    (hstart : procStart m0 kernel ldr = .ret (proc, m)) :
    StackStart { proc with stackList := [] } m ∧
      proc = (createStack { proc with stackList := [] }).2 := by
  obtain ⟨hc, hproc⟩ := procStart_ret hkernel.used hstart
  obtain ⟨ho, -⟩ := hc.owned hkernel.used
  refine ⟨⟨rfl, ho.separated hkernel, ho.tablesUsed hkernel, hfile⟩, ?_⟩
  rw [hproc]
  rfl

theorem StackStart.counted {proc : Proc} {m : PhysMem} (h : StackStart proc m) :
    Counted proc m := by
  obtain ⟨hempty, hsep, hused, hfile⟩ := h
  have hnone : ∀ page, ¬ InStack proc.stackList page := by
    rw [hempty]
    rintro page ⟨stack, hmem, -⟩
    cases hmem
  refine ⟨?_, ⟨hsep, hused, fun page hpage => absurd hpage (hnone page),
    fun page mp hpage => absurd hpage (hnone page),
    fun v w a b hv => absurd hv (hnone v)⟩, ?_, hfile⟩
  · rw [hempty]
    exact ⟨by decide, nofun⟩
  · rw [hempty]
    nofun

/-- The stacks are counted in every run whose steps are as they should be. -/
theorem StackStart.run {proc proc' : Proc} {m m' : PhysMem} {calls : List StackCall}
    (hstart : StackStart proc m)
    (hrun : Run (Guarded StackStep StackOk) (proc, m) calls (proc', m')) : Counted proc' m' := by
  refine hrun.invariant (P := fun s => Counted s.1 s.2) ?_ hstart.counted
  exact fun s call t hs hstep => hs.step hstep

/-- **Unwinding a stack ends in its slot.**  In every run in which a stack takes pages that are
not mapped only, no other page is mapped in a slot, and no page of a new slot is mapped, every
stack counts the pages that are mapped in its range.  `delete_stack` of an allocated stack
returns, and the pages that are not in its range stay as they are. -/
theorem stack_unwinding {proc proc' : Proc} {m m' : PhysMem} {calls : List StackCall}
    (hstart : StackStart proc m)
    (hrun : Run (Guarded StackStep StackOk) (proc, m) calls (proc', m')) :
    (∀ stack ∈ proc'.stackList,
      stack.pagesMapped = mappedPages m' proc'.vspace stack.startPage stack.pageCount) ∧
    ∀ stack ∈ proc'.stackList, stack.allocated = true →
      ∃ proc'' m'', deleteStack m' proc' stack.index = .ret (proc'', m'') ∧
        ∀ w, (∀ page, stack.Holds page → w % 2 ^ 36 ≠ page % 2 ^ 36) →
          translation m'' proc'.vspace w = translation m' proc'.vspace w := by
  have h := hstart.run hrun
  exact ⟨h.counted, fun stack hmem _ => h.deleteStack hmem⟩

/-- The first stack of a process is created in an address space without pages. -/
theorem first_stack_step {m0 m : PhysMem} {kernel : Vspace} {ldr : Loader} {proc : Proc}
    (hkernel : KernelTables m0 kernel) (hstart : procStart m0 kernel ldr = .ret (proc, m)) :
    Guarded StackStep StackOk ({ proc with stackList := [] }, m) .create (proc, m) := by
  obtain ⟨hc, hproc⟩ := procStart_ret hkernel.used hstart
  have hcreate : (createStack { proc with stackList := [] }).2 = proc := by
    rw [hproc]
    rfl
  have hstep : StackStep ({ proc with stackList := [] }, m) .create
      ((createStack { proc with stackList := [] }).2, m) :=
    .create (show [newStack 0].length < 2 ^ 21 by decide)
  rw [hcreate] at hstep
  refine ⟨hstep, fun _ page hpage => ?_⟩
  have hend : (newStack 0).startPage + (newStack 0).pageCount < 2 ^ 35 := by decide
  have hlt : page < 2 ^ 35 := Nat.lt_trans hpage.2 hend
  rw [hc.translation_eq hkernel.used, if_neg]
  rw [tableIndex, Fin.val_ofNat, Nat.shiftRight_eq_div_pow]
  omega

/-- A process that was started uses the last page of its stack. -/
theorem first_page_run {proc proc' : Proc} {m m' : PhysMem} {ok : Bool}
    (hboot : boot textElf = .ret (proc, m))
    (hnone : translation m proc.vspace (0x7ffffdfffff8 >>> pageShift) = none)
    (hfault : pageFault m proc 0x7ffffdfffff8 ⟨false, true, true, false⟩ = .ret (ok, proc', m')) :
    StackStart { proc with stackList := [] } m ∧
      Run (Guarded StackStep StackOk) ({ proc with stackList := [] }, m)
        [.create, .fault 0x7ffffdfffff8 ⟨false, true, true, false⟩] (proc', m') := by
  obtain ⟨ldr, -, hproc⟩ := boot_ret hboot
  have hlist : proc.stackList = [newStack 0] := by
    rw [(procStart_ret emptyMachine_kernel.used hproc).2]
  have hany : proc.stackList.any
      (fun stack => stack.covers (0x7ffffdfffff8 >>> pageShift)) = true := by
    rw [hlist]
    decide
  refine ⟨(stackStart_of_procStart emptyMachine_kernel (boot_bounded hboot) hproc).1,
    .cons (first_stack_step emptyMachine_kernel hproc)
      (.cons ⟨.fault (by decide) hfault, ?_⟩ .nil)⟩
  rw [StackOk, if_pos hany]
  exact hnone

theorem stack_unwinding_page : ∃ proc m proc' m',
    boot textElf = .ret (proc, m) ∧
      Run (Guarded StackStep StackOk) ({ proc with stackList := [] }, m)
        [.create, .fault 0x7ffffdfffff8 ⟨false, true, true, false⟩] (proc', m') ∧
      ∀ stack ∈ proc'.stackList,
        stack.pagesMapped = mappedPages m' proc'.vspace stack.startPage stack.pageCount := by
  have hcompute : (do
      let booted ← boot textElf
      let faulted ← pageFault booted.2 booted.1 0x7ffffdfffff8 ⟨false, true, true, false⟩
      .ret ((translation booted.2 booted.1.vspace (0x7ffffdfffff8 >>> pageShift)).map
        Mapping.ppn)) = .ret none := by decide +kernel
  obtain ⟨⟨proc, m⟩, hboot, hrest⟩ := Outcome.bind_eq_ret.mp hcompute
  obtain ⟨⟨ok, proc1, m1⟩, hfault, hvals⟩ := Outcome.bind_eq_ret.mp hrest
  simp only [Outcome.ret.injEq, Option.map_eq_none_iff] at hvals
  obtain ⟨hstart, hrun⟩ := first_page_run hboot hvals hfault
  exact ⟨proc, m, proc1, m1, hboot, hrun, (stack_unwinding hstart hrun).1⟩

/-- A second fault on a page of a stack is counted and maps nothing. -/
theorem stack_page_counted_twice : ¬ ∀ (proc proc' : Proc) (m m' : PhysMem)
    (calls : List StackCall), StackStart proc m → Run StackStep (proc, m) calls (proc', m') →
    ∀ stack ∈ proc'.stackList,
      stack.pagesMapped = mappedPages m' proc'.vspace stack.startPage stack.pageCount := by
  intro hclaim
  have hcompute : (do
      let booted ← boot textElf
      let faulted1 ← pageFault booted.2 booted.1 0x7ffffdfffff8 ⟨false, true, true, false⟩
      let faulted2 ← pageFault faulted1.2.2 faulted1.2.1 0x7ffffdfffff8 ⟨true, true, true, false⟩
      .ret ((translation booted.2 booted.1.vspace (0x7ffffdfffff8 >>> pageShift)).isSome,
        (translation faulted1.2.2 faulted1.2.1.vspace (0x7ffffdfffff8 >>> pageShift)).isSome,
        faulted1.2.1.stackList, faulted2.2.1.stackList)) =
      .ret (false, true, [firstStack 1], [firstStack 2]) := by decide +kernel
  obtain ⟨⟨proc, m⟩, hboot, hrest⟩ := Outcome.bind_eq_ret.mp hcompute
  obtain ⟨⟨ok1, proc1, m1⟩, hfault1, hrest⟩ := Outcome.bind_eq_ret.mp hrest
  obtain ⟨⟨ok2, proc2, m2⟩, hfault2, hvals⟩ := Outcome.bind_eq_ret.mp hrest
  simp only [Outcome.ret.injEq, Prod.mk.injEq, Option.isSome_eq_false_iff,
    Option.isNone_iff_eq_none, Option.isSome_iff_ne_none] at hvals
  obtain ⟨hnone, hmapped, hlist1, hlist2⟩ := hvals
  obtain ⟨hstart, hrun1⟩ := first_page_run hboot hnone hfault1
  have hinv := hstart.run hrun1
  have hone := hinv.counted (firstStack 1) (by rw [hlist1]; exact List.mem_singleton_self _)
  have hrun2 : Run StackStep ({ proc with stackList := [] }, m)
      [.create, .fault 0x7ffffdfffff8 ⟨false, true, true, false⟩,
        .fault 0x7ffffdfffff8 ⟨true, true, true, false⟩] (proc2, m2) :=
    hrun1.of_guarded.append (.cons (.fault (by decide) hfault2) .nil)
  have htwo := hclaim _ proc2 m m2 _ hstart hrun2 (firstStack 2)
    (by rw [hlist2]; exact List.mem_singleton_self _)
  have hany : proc1.stackList.any
      (fun stack => stack.covers (0x7ffffdfffff8 >>> pageShift)) = true := by
    rw [hlist1]
    decide
  obtain ⟨rfl, hserved⟩ :=
    pageFault_ret hinv.file hinv.reserved.separated hinv.reserved.used hfault2
  rw [Proc.demand, if_pos hany] at hserved
  cases hserved with
  | page hmap =>
      have hsame : mappedPages m2 proc1.vspace (newStack 0).startPage (newStack 0).pageCount =
          mappedPages m1 proc1.vspace (newStack 0).startPage (newStack 0).pageCount :=
        mappedPages_congr fun k _ => hmap.translation_of_mapped hinv.reserved.used hmapped _
      rw [Proc.faulted_vspace] at htwo
      exact absurd (hone.trans (hsame.symm.trans htwo.symm)) (by decide)

end UlmerOS
