import UlmerOS.Mm.HeapRun
import UlmerOS.Proc.Frames
import Mathlib.Data.Set.Card

/-!
# The pages of the kernel heap

`kbrk` takes a frame for every page that the break passes on its way up and gives the
frames back on its way down.  On the way up the page that the break ends in is mapped
even if the break is its first byte.  If the break is raised from there that page is
mapped a second time: `alloc_page` hands out a frame and `vspace_map` ignores it.

`Accounted` is the invariant of the frames: those of the heap's pages are distinct, they
were free before the heap was there, and none of them is a table.  It is kept by every
move of the break.  Whether there is a frame that no page has (`Lost`) depends on where
the break is raised from.
-/

namespace UlmerOS

open ByteMem Transition

variable {debug : Bool} {kernel : Vspace}

/-! ## What is counted -/

/-- The page is one that the heap can grow into. -/
def HeapPage (page : Nat) : Prop := kheapStart / pageSize ≤ page ∧ page < word / pageSize

/-- The pages of the heap that are mapped. -/
def mappedHeapPages (kernel : Vspace) (m : PhysMem) : Set Nat :=
  {page | HeapPage page ∧ translation m kernel page ≠ none}

/-- The frames that were taken since memory was `m0` and were not given back, and that are
not page tables, for which `vspace_map` takes frames as well. -/
def heldFrames (m0 : PhysMem) (kernel : Vspace) (m : PhysMem) : Set Nat :=
  {f | ¬ IsTable m kernel f ∧ ∃ log, m.calls = log ++ m0.calls ∧
    log.count (.free f) < log.count (.alloc f)}

/-- The frame is in use, and not as a table. -/
def InUse (kernel : Vspace) (m : PhysMem) (f : Nat) : Prop := ¬ m.Free f ∧ ¬ IsTable m kernel f

/-- With calls that match, the frames that are held are those that were free and are in use. -/
theorem mem_heldFrames {m0 m : PhysMem} (hb : Balanced m0 m) {f : Nat} :
    f ∈ heldFrames m0 kernel m ↔ m0.Free f ∧ InUse kernel m f := by
  obtain ⟨log, hlog, hcount⟩ := hb
  rw [heldFrames, Set.mem_ofPred_eq]
  constructor
  · rintro ⟨htable, log', hlog', hlt⟩
    obtain rfl : log = log' := List.append_cancel_right (hlog.symm.trans hlog')
    rw [hcount f] at hlt
    split at hlt
    · rename_i hf
      exact ⟨hf.1, hf.2, htable⟩
    · exact absurd hlt (Nat.lt_irrefl _)
  · rintro ⟨h0, hused, htable⟩
    refine ⟨htable, log, hlog, ?_⟩
    rw [hcount f, if_pos ⟨h0, hused⟩]
    exact Nat.lt_succ_self _

/-! ## The frames of the heap -/

/-- What every move of the break keeps. -/
structure Accounted (m0 : PhysMem) (kernel : Vspace) (m : PhysMem) : Prop where
  tables : KernelTables m kernel
  free : ∀ f, m.Free f → m0.Free f
  size_eq : m.size = m0.size
  balanced : Balanced m0 m
  held : ∀ page mp, HeapPage page → translation m kernel page = some mp →
    m0.Free mp.ppn ∧ InUse kernel m mp.ppn
  inj : ∀ page page' mp mp', HeapPage page → HeapPage page' →
    translation m kernel page = some mp → translation m kernel page' = some mp' →
    mp.ppn = mp'.ppn → page = page'

/-- A frame of the heap that no page of the heap is mapped to. -/
def Lost (m0 : PhysMem) (kernel : Vspace) (m : PhysMem) (f : Nat) : Prop :=
  m0.Free f ∧ InUse kernel m f ∧
    ∀ page mp, HeapPage page → translation m kernel page = some mp → mp.ppn ≠ f

/-- The numbers of heap pages have different indices. -/
theorem HeapPage.eq_of_mod {page page' : Nat} (h : HeapPage page) (h' : HeapPage page')
    (he : page % 2 ^ 36 = page' % 2 ^ 36) : page = page' := by
  simp only [HeapPage, kheapStart, pageSize, word] at h h'
  omega

/-- Adding tables takes free frames, so that what was in use is so still. -/
theorem Installed.inUse {m m' : PhysMem} {p : Path} {i : Fin 512} {g : Nat}
    (h : Installed kernel m p i g m') (f : Nat) : InUse kernel m' f ↔ InUse kernel m f := by
  rw [InUse, InUse, h.free_iff f, h.isTable_iff]
  constructor
  · rintro ⟨hfree, htable⟩
    have hne : f ≠ g := fun he => htable (.inr he)
    exact ⟨fun hf => hfree ⟨hf, hne⟩, fun ht => htable (.inl ht)⟩
  · rintro ⟨hfree, htable⟩
    refine ⟨fun hf => hfree hf.1, ?_⟩
    rintro (ht | rfl)
    · exact htable ht
    · exact hfree h.free

theorem Grows.inUse {m m' : PhysMem} {path : Path} (h : Grows kernel path m m') (f : Nat) :
    InUse kernel m' f ↔ InUse kernel m f := by
  induction h with
  | refl => exact Iff.rfl
  | install hi _ _ ih => exact ih.trans (hi.inUse f)

theorem Grows.balanced {m0 m m' : PhysMem} {path : Path} (h : Grows kernel path m m')
    (hfree : ∀ f, m.Free f → m0.Free f) (hb : Balanced m0 m) : Balanced m0 m' := by
  induction h with
  | refl => exact hb
  | install hi _ _ ih =>
      exact ih (fun f hf => hfree f ((hi.free_iff f).mp hf).1)
        (hb.alloc (hfree _ hi.free) hi.free hi.free_iff hi.calls_eq)

theorem Filled.inUse {m m' : PhysMem} {p : Nat} {bytes : List UInt8} (h : Filled m p bytes m')
    (hused : TablesUsed m kernel) (f : Nat) :
    InUse kernel m' f ↔ InUse kernel m f ∨ f = p := by
  rw [InUse, InUse, h.free_iff f, h.isTable_iff hused]
  constructor
  · rintro ⟨hfree, hno⟩
    by_cases hfp : f = p
    · exact .inr hfp
    · exact .inl ⟨fun hf => hfree ⟨hf, hfp⟩, hno⟩
  · rintro (⟨hfree, hno⟩ | rfl)
    · exact ⟨fun hf => hfree hf.1, hno⟩
    · exact ⟨fun hf => hf.2 rfl, fun ht => hused f ht h.free⟩

theorem EntrySet.inUse {m m' : PhysMem} {virt : Nat} {e : Gpte} (h : EntrySet kernel m virt e m')
    (hfp : m'.freePages = m.freePages) (f : Nat) : InUse kernel m' f ↔ InUse kernel m f := by
  rw [InUse, InUse, h.isTable_iff, PhysMem.Free, hfp]

/-- A frame was taken for a page.  The page is mapped to it, unless it was mapped before. -/
structure Took (kernel : Vspace) (m m' : PhysMem) (page flags p : Nat) : Prop where
  free : m.Free p
  inUse_iff : ∀ f, InUse kernel m' f ↔ InUse kernel m f ∨ f = p
  free_le : ∀ f, m'.Free f → m.Free f
  size_eq : m'.size = m.size
  balanced : ∀ m0, (∀ f, m.Free f → m0.Free f) → Balanced m0 m → Balanced m0 m'
  translation_eq : ∀ w, translation m' kernel w =
    if w % 2 ^ 36 = page % 2 ^ 36 ∧ translation m kernel page = none then
      some (Mapping.ofFlags p flags)
    else translation m kernel w

/-- What a fresh frame for a page does: it is mapped, or lost because the page was mapped. -/
theorem MapFresh.took {m m' : PhysMem} {page flags : Nat}
    (h : MapFresh kernel m page 0 [] flags true m') (hused : TablesUsed m kernel) :
    ∃ p, Took kernel m m' page flags p := by
  cases h with
  | @mapped m1 _ p _ hfill hmapped =>
      have hbal : ∀ m0, (∀ f, m.Free f → m0.Free f) → Balanced m0 m → Balanced m0 m1 :=
        fun m0 hfree hb => hb.alloc (hfree p hfill.free) hfill.free hfill.free_iff hfill.calls_eq
      have hfree1 : ∀ f, m1.Free f → m.Free f := fun f hf => ((hfill.free_iff f).mp hf).1
      refine ⟨p, ?_⟩
      cases hmapped with
      | present hne =>
          rw [hfill.translation_eq hused] at hne
          refine ⟨hfill.free, hfill.inUse hused, hfree1, hfill.size_eq, hbal, fun w => ?_⟩
          rw [if_neg (fun hc => hne hc.2), hfill.translation_eq hused]
      | @added m2 _ e hnone hg hset hfp hcalls =>
          rw [hfill.translation_eq hused] at hnone
          have hlt : p < 2 ^ 32 := Nat.lt_of_lt_of_le hfill.free.1 m.freePages.small
          refine ⟨hfill.free, fun f => ?_, fun f hf => ?_, ?_, fun m0 hfree hb => ?_, fun w => ?_⟩
          · rw [hset.inUse hfp f, hg.inUse f, hfill.inUse hused f]
          · rw [PhysMem.Free, hfp] at hf
            exact hfree1 f (hg.free_le hf)
          · rw [PhysMem.size, hfp]
            exact hg.size_eq.trans hfill.size_eq
          · exact (hg.balanced (fun f hf => hfree f (hfree1 f hf)) (hbal m0 hfree hb)).congr hfp
              hcalls
          · rw [hset.translation_eq, pageEntry_mapping e flags (by omega), hg.translation_eq,
              hfill.translation_eq hused]
            simp only [hnone, and_true]

namespace Took

variable {m m' : PhysMem} {page flags p : Nat}

/-- A heap page has the mapping it had, or it is the page that is mapped now. -/
theorem mapped_cases (h : Took kernel m m' page flags p) (hpage : HeapPage page) {w : Nat}
    {mp : Mapping} (hw : HeapPage w) (hmp : translation m' kernel w = some mp) :
    translation m kernel w = some mp ∨
      (w = page ∧ translation m kernel page = none ∧ mp = Mapping.ofFlags p flags) := by
  rw [h.translation_eq w] at hmp
  split at hmp
  next hc => exact .inr ⟨hw.eq_of_mod hpage hc.1, hc.2, (Option.some.inj hmp).symm⟩
  next => exact .inl hmp

theorem mapped_iff (h : Took kernel m m' page flags p) (hpage : HeapPage page) {w : Nat}
    (hw : HeapPage w) :
    translation m' kernel w ≠ none ↔ translation m kernel w ≠ none ∨ w = page := by
  rw [h.translation_eq w]
  split
  next hc => exact ⟨fun _ => .inr (hw.eq_of_mod hpage hc.1), fun _ => nofun⟩
  next hc =>
    refine ⟨.inl, fun hor => hor.elim id ?_⟩
    rintro rfl hnone
    exact hc ⟨rfl, hnone⟩

end Took

/-- A page is unmapped, and the frame that it had is given back. -/
structure Gave (kernel : Vspace) (m m' : PhysMem) (page p : Nat) : Prop where
  tables : KernelTables m' kernel
  free_iff : ∀ f, m'.Free f ↔ m.Free f ∨ f = p
  inUse_iff : ∀ f, InUse kernel m' f ↔ InUse kernel m f ∧ f ≠ p
  size_eq : m'.size = m.size
  balanced : ∀ m0, m0.Free p → Balanced m0 m → Balanced m0 m'
  translation_eq : ∀ w, translation m' kernel w =
    if w % 2 ^ 36 = page % 2 ^ 36 then none else translation m kernel w

/-- What unmapping a page does to the frame that it had. -/
theorem vspaceUnmap_gave {m : PhysMem} {page : Nat} {mp : Mapping}
    (h : KernelTables m kernel) (htr : translation m kernel page = some mp)
    (hlt : mp.ppn < m.size) (hinuse : InUse kernel m mp.ppn) :
    Gave kernel m (vspaceUnmap m kernel page).2 page mp.ppn := by
  obtain ⟨m1, heq, hset, hfp, hcalls⟩ := vspaceUnmap_some h.separated htr (h.direct page mp htr)
  have hinv := (vspaceUnmap_refines heq ⟨h.separated, h.direct⟩).1
  have hfree1 : ∀ f, m1.Free f ↔ m.Free f := fun f => by rw [PhysMem.Free, hfp]
  have hfree : ∀ f, (freePage m1 mp.ppn).Free f ↔ m.Free f ∨ f = mp.ppn := by
    intro f
    rw [freePage_free, hfree1 f, PhysMem.size, hfp, ← PhysMem.size]
    exact or_congr Iff.rfl ⟨And.left, fun he => ⟨he, hlt⟩⟩
  have htab : ∀ f, IsTable (freePage m1 mp.ppn) kernel f ↔ IsTable m kernel f := fun f =>
    isTable_freePage.trans hset.isTable_iff
  rw [heq]
  refine ⟨⟨hinv.separated, ?_, hinv.direct⟩, hfree, ?_, ?_, ?_, ?_⟩
  · intro f hf hfr
    rw [htab f] at hf
    rcases (hfree f).mp hfr with hfr | rfl
    · exact h.used f hf hfr
    · exact hinuse.2 hf
  · intro f
    rw [InUse, InUse, hfree f, htab f, not_or]
    exact and_right_comm
  · rw [freePage_size, PhysMem.size, hfp]
  · intro m0 h0 hb
    refine (hb.congr hfp hcalls).free h0 (fun hf => hinuse.1 ((hfree1 _).mp hf)) ?_
      (freePage_calls m1 mp.ppn)
    intro f
    rw [hfree f, hfree1 f]
  · intro w
    rw [translation_freePage]
    exact hset.translation_eq w

namespace Gave

variable {m m' : PhysMem} {page p : Nat}

/-- A heap page has the mapping it had, and is not the page that is unmapped now. -/
theorem mapped (h : Gave kernel m m' page p) {w : Nat} {mp : Mapping}
    (hmp : translation m' kernel w = some mp) : translation m kernel w = some mp ∧ w ≠ page := by
  rw [h.translation_eq w] at hmp
  split at hmp
  · cases hmp
  next hne =>
    refine ⟨hmp, ?_⟩
    rintro rfl
    exact hne rfl

theorem mapped_iff (h : Gave kernel m m' page p) (hpage : HeapPage page) {w : Nat}
    (hw : HeapPage w) :
    translation m' kernel w ≠ none ↔ translation m kernel w ≠ none ∧ w ≠ page := by
  rw [h.translation_eq w]
  split
  next hc => exact ⟨fun hne => absurd rfl hne, fun hne => absurd (hw.eq_of_mod hpage hc) hne.2⟩
  next hc =>
    refine ⟨fun hne => ⟨hne, ?_⟩, And.left⟩
    rintro rfl
    exact hc rfl

end Gave

namespace Accounted

variable {m0 m m' : PhysMem} {page flags p : Nat}

theorem ppn_ne (h : Accounted m0 kernel m) (hp : m.Free p) {w : Nat} {mp : Mapping}
    (hw : HeapPage w) (hmp : translation m kernel w = some mp) : mp.ppn ≠ p := by
  rintro rfl
  exact (h.held w mp hw hmp).2.1 hp

/-- A page of the heap is mapped, whether it was mapped or not. -/
theorem take (h : Accounted m0 kernel m) (hpage : HeapPage page)
    (htook : Took kernel m m' page flags p) (htables : KernelTables m' kernel) :
    Accounted m0 kernel m' := by
  refine ⟨htables, fun f hf => h.free f (htook.free_le f hf), htook.size_eq.trans h.size_eq,
    htook.balanced m0 h.free h.balanced, ?_, ?_⟩
  · intro w mp hw hmp
    rw [htook.inUse_iff]
    rcases htook.mapped_cases hpage hw hmp with hmp | ⟨-, -, rfl⟩
    · exact ⟨(h.held w mp hw hmp).1, .inl (h.held w mp hw hmp).2⟩
    · exact ⟨h.free p htook.free, .inr rfl⟩
  · intro w w' mp mp' hw hw' hmp hmp' he
    rcases htook.mapped_cases hpage hw hmp with hmp | ⟨rfl, -, rfl⟩
    · rcases htook.mapped_cases hpage hw' hmp' with hmp' | ⟨-, -, rfl⟩
      · exact h.inj w w' mp mp' hw hw' hmp hmp' he
      · exact absurd he (h.ppn_ne htook.free hw hmp)
    · rcases htook.mapped_cases hpage hw' hmp' with hmp' | ⟨rfl, -, -⟩
      · exact absurd he.symm (h.ppn_ne htook.free hw' hmp')
      · rfl

/-- The frame is not lost if the page was not mapped. -/
theorem lost_of_take (hpage : HeapPage page) (htook : Took kernel m m' page flags p)
    (hnone : translation m kernel page = none) {f : Nat} (hlost : Lost m0 kernel m' f) :
    Lost m0 kernel m f := by
  obtain ⟨h0, hfu, hno⟩ := hlost
  have hne : f ≠ p := by
    rintro rfl
    refine hno page (Mapping.ofFlags f flags) hpage ?_ rfl
    rw [htook.translation_eq, if_pos ⟨rfl, hnone⟩]
  refine ⟨h0, ((htook.inUse_iff f).mp hfu).resolve_right hne, fun w mp hw hmp => hno w mp hw ?_⟩
  rw [htook.translation_eq w, if_neg, hmp]
  rintro ⟨hc, -⟩
  obtain rfl := hw.eq_of_mod hpage hc
  rw [hmp] at hnone
  cases hnone

/-- It is lost if the page was mapped. -/
theorem take_lost (h : Accounted m0 kernel m) (hpage : HeapPage page)
    (htook : Took kernel m m' page flags p) (hmapped : translation m kernel page ≠ none) :
    Lost m0 kernel m' p := by
  refine ⟨h.free p htook.free, (htook.inUse_iff p).mpr (.inr rfl), fun w mp hw hmp => ?_⟩
  rcases htook.mapped_cases hpage hw hmp with hmp | ⟨-, hnone, -⟩
  · exact h.ppn_ne htook.free hw hmp
  · exact absurd hnone hmapped

/-- What was lost stays so. -/
theorem lost_take (hpage : HeapPage page) (htook : Took kernel m m' page flags p) {f : Nat}
    (hlost : Lost m0 kernel m f) : Lost m0 kernel m' f := by
  obtain ⟨h0, hfu, hno⟩ := hlost
  refine ⟨h0, (htook.inUse_iff f).mpr (.inl hfu), fun w mp hw hmp => ?_⟩
  rcases htook.mapped_cases hpage hw hmp with hmp | ⟨-, -, rfl⟩
  · exact hno w mp hw hmp
  · rintro rfl
    exact hfu.1 htook.free

/-- The frame of a heap page is given back. -/
theorem give (h : Accounted m0 kernel m) (hpage : HeapPage page) {mp : Mapping}
    (htr : translation m kernel page = some mp) (hgave : Gave kernel m m' page mp.ppn) :
    Accounted m0 kernel m' := by
  obtain ⟨h0, -⟩ := h.held page mp hpage htr
  refine ⟨hgave.tables, fun f hfr => ?_, hgave.size_eq.trans h.size_eq,
    hgave.balanced m0 h0 h.balanced, fun w mp' hw hmp' => ?_, ?_⟩
  · rcases (hgave.free_iff f).mp hfr with hfr | rfl
    · exact h.free f hfr
    · exact h0
  · obtain ⟨hmp', hne⟩ := hgave.mapped hmp'
    obtain ⟨hf0, hfu⟩ := h.held w mp' hw hmp'
    refine ⟨hf0, (hgave.inUse_iff _).mpr ⟨hfu, fun he => hne ?_⟩⟩
    exact h.inj w page mp' mp hw hpage hmp' htr he
  · intro w w' mp1 mp2 hw hw' hmp1 hmp2 he
    exact h.inj w w' mp1 mp2 hw hw' (hgave.mapped hmp1).1 (hgave.mapped hmp2).1 he

/-- No frame is lost with it. -/
theorem lost_of_give (hpage : HeapPage page) {mp : Mapping}
    (htr : translation m kernel page = some mp) (hgave : Gave kernel m m' page mp.ppn) {f : Nat}
    (hlost : Lost m0 kernel m' f) : Lost m0 kernel m f := by
  obtain ⟨hf0, hfu, hno⟩ := hlost
  obtain ⟨hfu, hne⟩ := (hgave.inUse_iff f).mp hfu
  refine ⟨hf0, hfu, fun w mp' hw hmp' => ?_⟩
  by_cases hwp : w = page
  · subst hwp
    obtain rfl := Option.some.inj (htr.symm.trans hmp')
    exact hne.symm
  · refine hno w mp' hw ?_
    rw [hgave.translation_eq w, if_neg fun hc => hwp (hw.eq_of_mod hpage hc), hmp']

/-- A page of the heap is unmapped, whether it was mapped or not. -/
theorem unmap (h : Accounted m0 kernel m) (hpage : HeapPage page) :
    Accounted m0 kernel (vspaceUnmap m kernel page).2 ∧
      (∀ w, HeapPage w → (translation (vspaceUnmap m kernel page).2 kernel w ≠ none ↔
        translation m kernel w ≠ none ∧ w ≠ page)) ∧
      ∀ f, Lost m0 kernel (vspaceUnmap m kernel page).2 f → Lost m0 kernel m f := by
  cases htr : translation m kernel page with
  | none =>
      rw [vspaceUnmap_none htr]
      refine ⟨h, fun w hw => ⟨fun hne => ⟨hne, ?_⟩, And.left⟩, fun f hf => hf⟩
      rintro rfl
      exact hne htr
  | some mp =>
      obtain ⟨h0, hinuse⟩ := h.held page mp hpage htr
      have hgave := vspaceUnmap_gave h.tables htr (h.size_eq ▸ h0.1) hinuse
      exact ⟨h.give hpage htr hgave, fun w hw => hgave.mapped_iff hpage hw,
        fun f hf => lost_of_give hpage htr hgave hf⟩

/-- The loop of `kbrk` that maps pages loses no frame if none of them is mapped. -/
theorem mapPages {h h' : Heap} {page n : Nat} (ha : Accounted m0 kernel h.phys)
    (hpages : ∀ w, page ≤ w → w < page + n → HeapPage w)
    (hret : Heap.mapPages kernel page n h = .ret h') :
    Accounted m0 kernel h'.phys ∧
      (∀ w, HeapPage w → (translation h'.phys kernel w ≠ none ↔
        translation h.phys kernel w ≠ none ∨ (page ≤ w ∧ w < page + n))) ∧
      ((∀ w, page ≤ w → w < page + n → translation h.phys kernel w = none) →
        ∀ f, Lost m0 kernel h'.phys f → Lost m0 kernel h.phys f) ∧
      ((∃ f, Lost m0 kernel h.phys f) ∨ (0 < n ∧ translation h.phys kernel page ≠ none) →
        ∃ f, Lost m0 kernel h'.phys f) := by
  induction n generalizing page h with
  | zero =>
      cases hret
      exact ⟨ha, fun w _ => ⟨.inl, fun hor => hor.elim id fun hc => by omega⟩, fun _ f hf => hf,
        fun hor => hor.elim id fun hc => absurd hc.1 (Nat.lt_irrefl 0)⟩
  | succ n ih =>
      obtain ⟨⟨ppn, m1⟩, halloc, hret⟩ := Outcome.bind_eq_ret.mp hret
      obtain ⟨m2, hmap, hret⟩ := Outcome.bind_eq_ret.mp hret
      have hfresh := mapFresh_of_map ha.tables.separated ha.tables.used halloc hmap
      have hpage := hpages page (Nat.le_refl page) (by omega)
      obtain ⟨p, htook⟩ := hfresh.took ha.tables.used
      have ht1 : ∀ w, HeapPage w → (translation m2 kernel w ≠ none ↔
          translation h.phys kernel w ≠ none ∨ w = page) := fun w hw => htook.mapped_iff hpage hw
      obtain ⟨ha2, ht2, hl2, hlost2⟩ :=
        ih (ha.take hpage htook (hfresh.kernelTables ha.tables))
          (fun w h1 h2 => hpages w (by omega) (by omega)) hret
      refine ⟨ha2, fun w hw => ?_, fun hnone f hf => ?_, fun hor => hlost2 (.inl ?_)⟩
      · rw [ht2 w hw, ht1 w hw, or_assoc]
        refine or_congr Iff.rfl ⟨?_, ?_⟩
        · rintro (rfl | hc)
          · exact ⟨Nat.le_refl w, by omega⟩
          · exact ⟨by omega, by omega⟩
        · intro hc
          by_cases hwp : w = page
          · exact .inl hwp
          · exact .inr ⟨by omega, by omega⟩
      · refine lost_of_take hpage htook (hnone page (Nat.le_refl page) (by omega))
          (hl2 (fun w h1 h2 => ?_) f hf)
        by_contra hne
        rcases (ht1 w (hpages w (by omega) (by omega))).mp hne with hne | rfl
        · exact hne (hnone w (by omega) (by omega))
        · omega
      · rcases hor with ⟨f, hf⟩ | ⟨-, hne⟩
        · exact ⟨f, lost_take hpage htook hf⟩
        · exact ⟨p, ha.take_lost hpage htook hne⟩

/-- The loop of `kbrk` that unmaps pages. -/
theorem unmapPages (page n : Nat) {h : Heap} (ha : Accounted m0 kernel h.phys)
    (hpages : ∀ w, page ≤ w → w < page + n → HeapPage w) :
    Accounted m0 kernel (Heap.unmapPages kernel page n h).phys ∧
      (∀ w, HeapPage w → (translation (Heap.unmapPages kernel page n h).phys kernel w ≠ none ↔
        translation h.phys kernel w ≠ none ∧ ¬ (page ≤ w ∧ w < page + n))) ∧
      ∀ f, Lost m0 kernel (Heap.unmapPages kernel page n h).phys f → Lost m0 kernel h.phys f := by
  induction n generalizing page h with
  | zero => exact ⟨ha, fun w _ => ⟨fun hne => ⟨hne, by omega⟩, And.left⟩, fun f hf => hf⟩
  | succ n ih =>
      have hpage := hpages page (Nat.le_refl page) (by omega)
      obtain ⟨ha1, ht1, hl1⟩ := ha.unmap hpage
      obtain ⟨ha2, ht2, hl2⟩ := ih (page + 1) (h := { h with
          phys := (vspaceUnmap h.phys kernel page).2
          mem := if (vspaceUnmap h.phys kernel page).1 then fill h.mem (pageSize * page) pageSize 0
            else h.mem }) ha1 (fun w h1 h2 => hpages w (by omega) (by omega))
      rw [Heap.unmapPages]
      refine ⟨ha2, fun w hw => ?_, fun f hf => hl1 f (hl2 f hf)⟩
      rw [ht2 w hw, ht1 w hw, and_assoc]
      refine and_congr Iff.rfl ⟨fun hc => by omega, fun hc => ⟨?_, by omega⟩⟩
      rintro rfl
      omega

end Accounted

/-! ## The break -/

/-- The pages from the start of the heap up to `top` are mapped: all up to the break, and
perhaps the one that begins there. -/
structure HeapMapped (m0 : PhysMem) (kernel : Vspace) (h : Heap) (top : Nat) : Prop where
  accounted : Accounted m0 kernel h.phys
  none_lost : ∀ f, ¬ Lost m0 kernel h.phys f
  ge : kheapStart ≤ h.brk
  lt : h.brk < word
  top_eq : top = firstPage h.brk ∨ top = h.brk / pageSize + 1
  mapped_iff : ∀ w, HeapPage w → (translation h.phys kernel w ≠ none ↔ w < top)

/-- The same without what is said about lost frames. -/
structure HeapBacked (m0 : PhysMem) (kernel : Vspace) (h : Heap) (top : Nat) : Prop where
  accounted : Accounted m0 kernel h.phys
  ge : kheapStart ≤ h.brk
  lt : h.brk < word
  top_eq : top = firstPage h.brk ∨ top = h.brk / pageSize + 1
  mapped_iff : ∀ w, HeapPage w → (translation h.phys kernel w ≠ none ↔ w < top)

/-- The break is raised from a page that is mapped already although the break is where it
begins. -/
def RaisesTwice (kernel : Vspace) (h : Heap) : Prop :=
  h.brk % pageSize = 0 ∧ translation h.phys kernel (h.brk / pageSize) ≠ none

theorem heapPage_of_brk {n : Nat} (hge : kheapStart ≤ n) (hlt : n < word) :
    HeapPage (n / pageSize) := by
  simp only [HeapPage, kheapStart, pageSize, word] at *
  omega

/-- The pages that `kbrk` maps or unmaps are the heap's. -/
theorem heapPage_of_range {low high : Nat} (hlow : kheapStart ≤ low) (hhigh : high < word) :
    ∀ w, firstPage low ≤ w → w < firstPage low + (high / pageSize + 1 - firstPage low) →
      HeapPage w := by
  intro w h1 h2
  have hfirst := firstPage_bounds low
  simp only [HeapPage, kheapStart, pageSize, word] at *
  omega

namespace HeapBacked

variable {m0 : PhysMem} {h h' : Heap} {top : Nat}

theorem top_bounds (hm : HeapBacked m0 kernel h top) :
    firstPage h.brk ≤ top ∧ top ≤ h.brk / pageSize + 1 := by
  rcases hm.top_eq with rfl | rfl
  · rw [firstPage]
    split <;> omega
  · rw [firstPage]
    split <;> omega

/-- A break that is lowered leaves no page that begins at it or above. -/
theorem lower (hm : HeapBacked m0 kernel h top) {increment o : Nat}
    (hret : h.kbrk kernel increment = .ret (o, h')) (hlt : h'.brk < h.brk)
    (hge : kheapStart ≤ h'.brk) : HeapBacked m0 kernel h' (firstPage h'.brk) := by
  have htop := hm.top_bounds
  have hold := firstPage_bounds h.brk
  have hfirst := firstPage_bounds h'.brk
  obtain ⟨ha, ht, -⟩ := Accounted.unmapPages (firstPage h'.brk)
    (h.brk / pageSize + 1 - firstPage h'.brk) (h := { h with brk := h'.brk }) hm.accounted
    (heapPage_of_range hge hm.lt)
  rw [← kbrk_down hret hlt] at ha ht
  refine ⟨ha, hge, hlt.trans hm.lt, .inl rfl, fun w hw => ?_⟩
  refine (ht w hw).trans ?_
  rw [hm.mapped_iff w hw]
  simp only [pageSize] at *
  omega

/-- A break that is raised has the page it ends in mapped. -/
theorem raise (hm : HeapBacked m0 kernel h top) {increment o : Nat}
    (hret : h.kbrk kernel increment = .ret (o, h')) (hge : h.brk ≤ h'.brk) :
    HeapBacked m0 kernel h' (h'.brk / pageSize + 1) := by
  have htop := hm.top_bounds
  obtain ⟨hword, hmap⟩ := kbrk_up hret hge
  obtain ⟨ha, ht, -⟩ := Accounted.mapPages (h := { h with brk := h'.brk }) hm.accounted
    (heapPage_of_range hm.ge hword) hmap
  refine ⟨ha, hm.ge.trans hge, hword, .inr rfl, fun w hw => ?_⟩
  refine (ht w hw).trans ?_
  rw [hm.mapped_iff w hw]
  have hle : h.brk / pageSize ≤ h'.brk / pageSize := Nat.div_le_div_right hge
  omega

/-- Only the frames and the break matter. -/
theorem congr (hm : HeapBacked m0 kernel h top) (hphys : h'.phys = h.phys)
    (hbrk : h'.brk = h.brk) : HeapBacked m0 kernel h' top := by
  constructor
  · rw [hphys]
    exact hm.accounted
  · rw [hbrk]
    exact hm.ge
  · rw [hbrk]
    exact hm.lt
  · rw [hbrk]
    exact hm.top_eq
  · rw [hphys]
    exact hm.mapped_iff

end HeapBacked

namespace HeapMapped

variable {m0 : PhysMem} {h h' : Heap} {top : Nat}

theorem backed (hm : HeapMapped m0 kernel h top) : HeapBacked m0 kernel h top :=
  ⟨hm.accounted, hm.ge, hm.lt, hm.top_eq, hm.mapped_iff⟩

theorem of_backed (hm : HeapBacked m0 kernel h top) (hlost : ∀ f, ¬ Lost m0 kernel h.phys f) :
    HeapMapped m0 kernel h top :=
  ⟨hm.accounted, hlost, hm.ge, hm.lt, hm.top_eq, hm.mapped_iff⟩

/-- A break that is lowered leaves no page that begins at it or above. -/
theorem lower (hm : HeapMapped m0 kernel h top) {increment o : Nat}
    (hret : h.kbrk kernel increment = .ret (o, h')) (hlt : h'.brk < h.brk)
    (hge : kheapStart ≤ h'.brk) : HeapMapped m0 kernel h' (firstPage h'.brk) := by
  obtain ⟨-, -, hl⟩ := Accounted.unmapPages (firstPage h'.brk)
    (h.brk / pageSize + 1 - firstPage h'.brk) (h := { h with brk := h'.brk }) hm.accounted
    (heapPage_of_range hge hm.lt)
  rw [← kbrk_down hret hlt] at hl
  exact .of_backed (hm.backed.lower hret hlt hge) fun f hf => hm.none_lost f (hl f hf)

/-- A break that is raised has the page it ends in mapped, and no frame is lost unless the
page it was raised from is mapped twice. -/
theorem raise (hm : HeapMapped m0 kernel h top) {increment o : Nat}
    (hret : h.kbrk kernel increment = .ret (o, h')) (hge : h.brk ≤ h'.brk)
    (honce : ¬ RaisesTwice kernel h) :
    HeapMapped m0 kernel h' (h'.brk / pageSize + 1) := by
  have hold := firstPage_bounds h.brk
  obtain ⟨hword, hmap⟩ := kbrk_up hret hge
  -- the page of a break that is not aligned is mapped, and one that is aligned is not
  have htop : top = firstPage h.brk := by
    rcases hm.top_eq with he | he
    · exact he
    · rw [he, firstPage]
      split
      · rfl
      next halign =>
        rw [not_not] at halign
        refine absurd ⟨halign, ?_⟩ honce
        rw [hm.mapped_iff _ (heapPage_of_brk hm.ge hm.lt), he]
        exact Nat.lt_succ_self _
  have hpages := heapPage_of_range hm.ge hword
  obtain ⟨-, -, hl, -⟩ :=
    Accounted.mapPages (h := { h with brk := h'.brk }) hm.accounted hpages hmap
  have hfresh : ∀ w, firstPage h.brk ≤ w →
      w < firstPage h.brk + (h'.brk / pageSize + 1 - firstPage h.brk) →
      translation h.phys kernel w = none := by
    intro w h1 h2
    by_contra hne
    have := (hm.mapped_iff w (hpages w h1 h2)).mp hne
    omega
  exact .of_backed (hm.backed.raise hret hge) fun f hf => hm.none_lost f (hl hfresh f hf)

/-- Raising it from a page that is mapped already loses a frame. -/
theorem raise_lost (hm : HeapMapped m0 kernel h top) {increment o : Nat}
    (hret : h.kbrk kernel increment = .ret (o, h')) (hge : h.brk ≤ h'.brk)
    (htwice : RaisesTwice kernel h) :
    Accounted m0 kernel h'.phys ∧ ∃ f, Lost m0 kernel h'.phys f := by
  obtain ⟨halign, hne⟩ := htwice
  obtain ⟨hword, hmap⟩ := kbrk_up hret hge
  have hfirst : firstPage h.brk = h.brk / pageSize := if_neg (not_not.mpr halign)
  obtain ⟨ha, -, -, hlost⟩ := Accounted.mapPages (h := { h with brk := h'.brk }) hm.accounted
    (heapPage_of_range hm.ge hword) hmap
  rw [hfirst] at hlost
  refine ⟨ha, hlost (.inr ⟨?_, hne⟩)⟩
  have hle : h.brk / pageSize ≤ h'.brk / pageSize := Nat.div_le_div_right hge
  omega

/-- Only the frames and the break matter. -/
theorem congr (hm : HeapMapped m0 kernel h top) (hphys : h'.phys = h.phys)
    (hbrk : h'.brk = h.brk) : HeapMapped m0 kernel h' top :=
  .of_backed (hm.backed.congr hphys hbrk) (by rw [hphys]; exact hm.none_lost)

end HeapMapped

/-! ## The calls -/

section

variable {h h' : Heap}

theorem setOrigin_phys (b function line : Nat) :
    (h.setOrigin debug b function line).phys = h.phys := by
  rw [Heap.setOrigin]
  split <;> rfl

/-- Two heaps with the same frames and the same break. -/
def SamePages (h h' : Heap) : Prop := h'.phys = h.phys ∧ h'.brk = h.brk

theorem SamePages.trans {h'' : Heap} (h1 : SamePages h h') (h2 : SamePages h' h'') :
    SamePages h h'' :=
  ⟨h2.1.trans h1.1, h2.2.trans h1.2⟩

theorem crop_phys (debug : Bool) (h : Heap) (block newSize : Nat) :
    (h.crop debug block newSize).phys = h.phys ∧ (h.crop debug block newSize).brk = h.brk := by
  have hstep : ∀ (g : Heap) (mem : Mem) (last : Nat),
      SamePages g { g with mem := mem, last := last } := fun _ _ _ => ⟨rfl, rfl⟩
  change SamePages h (h.crop debug block newSize)
  rw [Heap.crop]
  split
  · exact ⟨rfl, rfl⟩
  · extract_lets n h1 h2 h3 h4 h5 h6
    have hall : SamePages h h6 := (hstep h _ _).trans <| (hstep h1 _ _).trans <|
      (hstep h2 _ _).trans <| (hstep h3 _ _).trans <| (hstep h4 _ _).trans (hstep h5 _ _)
    split
    · exact hall.trans (hstep h6 _ _)
    · exact hall.trans (hstep h6 _ _)

theorem appendBlock_phys (blk requiredSize function line : Nat) :
    (h.appendBlock debug blk requiredSize function line).phys = h.phys := by
  simp only [Heap.appendBlock]
  split <;> split <;> exact setOrigin_phys _ _ _

/-- `_kmalloc` finds a block, or it raises the break. -/
theorem kmalloc_phys {size function line ptr : Nat}
    (hret : h.kmalloc debug kernel size function line = .ret (ptr, h')) :
    (h'.phys = h.phys ∧ h'.brk = h.brk) ∨
      (h.findFit debug (wrap64 (headerSize debug + size)) word h.start = .ret none ∧
        ∃ o h1, h.kbrk kernel (wrap64 (headerSize debug + size)) = .ret (o, h1) ∧
          h'.phys = h1.phys ∧ h'.brk = h1.brk) := by
  obtain ⟨r, hfind, hret⟩ := Outcome.bind_eq_ret.mp hret
  cases r with
  | some entry =>
      cases hret
      obtain ⟨hphys, hbrk⟩ := crop_phys debug
        ((h.setAvailable entry 0).setOrigin debug entry function line) entry
        (wrap64 (headerSize debug + size))
      refine .inl ⟨hphys.trans (setOrigin_phys entry function line), hbrk.trans ?_⟩
      exact (setOrigin_eq debug (h.setAvailable entry 0) entry function line).2.2
  | none =>
      obtain ⟨⟨o, h1⟩, hkbrk, hret⟩ := Outcome.bind_eq_ret.mp hret
      refine .inr ⟨hfind, o, h1, hkbrk, ?_⟩
      simp only at hret
      split at hret
      · cases hret
        exact ⟨rfl, rfl⟩
      · cases hret
        exact ⟨appendBlock_phys _ _ _ _, appendBlock_brk _ _ _ _⟩

/-- The loop of `kfree` lowers the break once for each block that it gives back. -/
theorem releaseTail_invariant {P : Heap → Prop} {bs : List Block} {fuel : Nat}
    (hlower : ∀ g g' : Heap, Lowers kernel g g' → kheapStart ≤ g'.brk → P g → P g')
    (hr : Rep debug h bs) (hfuel : bs.length < fuel)
    (hret : h.releaseTail debug kernel fuel = .ret h') (hp : P h) : P h' := by
  induction bs using List.reverseRecOn generalizing h fuel with
  | nil =>
      obtain ⟨fuel, rfl⟩ : ∃ f, fuel = f + 1 := ⟨fuel - 1, by simp at hfuel; omega⟩
      have hlast : h.last = 0 := hr.last_eq
      rw [Heap.releaseTail, if_neg (fun hc => hc.1 hlast)] at hret
      cases hret
      exact hp
  | append_singleton xs b ih =>
      rw [List.length_append, List.length_singleton] at hfuel
      obtain ⟨fuel, rfl⟩ : ∃ f, fuel = f + 1 := ⟨fuel - 1, by omega⟩
      cases hl : b.live with
      | none =>
          obtain ⟨h1, hstep, hlow, hmoves, -⟩ := hr.release kernel hl fuel
          have hge : kheapStart ≤ h1.brk := by
            rw [hmoves.rep.brk_eq]
            exact Nat.le_add_right _ _
          exact ih hmoves.rep (by omega) (hstep.symm.trans hret) (hlower h h1 hlow hge hp)
      | some size =>
          rw [hr.releaseTail_live hl] at hret
          cases hret
          exact hp

theorem HeapMapped.releaseTail {m0 : PhysMem} {bs : List Block} {top fuel : Nat}
    (hm : HeapMapped m0 kernel h top) (hr : Rep debug h bs) (hfuel : bs.length < fuel)
    (hret : h.releaseTail debug kernel fuel = .ret h') : ∃ top', HeapMapped m0 kernel h' top' := by
  refine releaseTail_invariant (P := fun g => ∃ top', HeapMapped m0 kernel g top') ?_ hr hfuel hret
    ⟨top, hm⟩
  rintro g g' ⟨g0, increment, hbrk, hphys, hkbrk, hlt⟩ hge ⟨_, hg⟩
  exact ⟨_, (hg.congr hphys hbrk).lower hkbrk (by rw [hbrk]; exact hlt) hge⟩

end

/-! ## Runs -/

/-- The calls of a heap whose frames nobody else touches. -/
def PageStep (debug : Bool) (kernel : Vspace) (s : HeapState) (call : HeapCall) (s' : HeapState) :
    Prop :=
  HeapStep debug kernel s call s' ∧ (call = .use → s'.heap.phys = s.heap.phys)

/-- A call that finds no block does not raise the break from a page that is mapped twice. -/
def RaisesOnce (debug : Bool) (kernel : Vspace) (s : HeapState) : HeapCall → Prop
  | .kmalloc size _ =>
      s.heap.findFit debug (wrap64 (headerSize debug + size)) word s.heap.start = .ret none →
        ¬ RaisesTwice kernel s.heap
  | _ => True

/-- What the calls keep. -/
def PagesInv (debug : Bool) (m0 : PhysMem) (kernel : Vspace) (s : HeapState) : Prop :=
  ∃ bs top, HeapInv debug s bs ∧ HeapMapped m0 kernel s.heap top

theorem pageStep_inv {m0 : PhysMem} {s s' : HeapState} {call : HeapCall}
    (hinv : PagesInv debug m0 kernel s)
    (hstep : Guarded (PageStep debug kernel) (RaisesOnce debug kernel) s call s') :
    PagesInv debug m0 kernel s' := by
  obtain ⟨bs, top, hheap, hm⟩ := hinv
  obtain ⟨⟨hstep, huse⟩, hok⟩ := hstep
  obtain ⟨bs', hheap', -⟩ := heapStep_inv hheap hstep
  refine ⟨bs', ?_⟩
  cases hstep with
  | kmalloc _ hret hbrk =>
      rcases kmalloc_phys hret with ⟨hphys, hsame⟩ | ⟨hfind, o, h1, hkbrk, hphys, hsame⟩
      · exact ⟨top, hheap', hm.congr hphys hsame⟩
      · rw [hsame] at hbrk
        exact ⟨_, hheap', (hm.raise hkbrk hbrk (hok hfind)).congr hphys hsame⟩
  | kfree hlive hret =>
      obtain ⟨a, b, rfl, hl⟩ := hheap.liveAt hlive
      obtain ⟨h1, bs1, hfree, hrel, -, hphys, hbrk, -⟩ := kfree_merged kernel hheap.rep hl
      obtain ⟨top', hm'⟩ := (hm.congr hphys hbrk).releaseTail hrel.rep hrel.rep.length_lt
        (hfree.symm.trans hret)
      exact ⟨top', hheap', hm'⟩
  | use _ => exact ⟨top, hheap', hm.congr (huse rfl) rfl⟩

theorem pagesInv_empty {m0 : PhysMem} (mem : Mem) (hk : KernelTables m0 kernel)
    (hempty : ∀ page, HeapPage page → translation m0 kernel page = none) :
    PagesInv debug m0 kernel (HeapState.empty mem m0) := by
  refine ⟨[], firstPage kheapStart, .empty mem m0, ?_, ?_, Nat.le_refl _,
    show kheapStart < word by decide, .inl rfl, ?_⟩
  · refine ⟨hk, fun f hf => hf, rfl, .refl m0, fun page mp hpage hmp => ?_,
      fun page page' mp mp' hpage _ hmp => ?_⟩
    · exact absurd (hmp.symm.trans (hempty page hpage)) nofun
    · exact absurd (hmp.symm.trans (hempty page hpage)) nofun
  · rintro f ⟨h0, ⟨hused, -⟩, -⟩
    exact hused h0
  · intro w hw
    refine ⟨fun hne => absurd (hempty w hw) hne, fun hlt => ?_⟩
    have hfirst : firstPage kheapStart = kheapStart / pageSize := by decide
    have := hw.1
    omega

/-- The frame that a page is mapped to. -/
def frameOf (kernel : Vspace) (m : PhysMem) (page : Nat) : Nat :=
  ((translation m kernel page).map Mapping.ppn).getD 0

theorem frameOf_eq {m : PhysMem} {page : Nat} {mp : Mapping}
    (h : translation m kernel page = some mp) : frameOf kernel m page = mp.ppn := by
  rw [frameOf, h]
  rfl

namespace Accounted

variable {m0 m : PhysMem}

theorem injOn (h : Accounted m0 kernel m) :
    Set.InjOn (frameOf kernel m) (mappedHeapPages kernel m) := by
  rintro page ⟨hpage, hne⟩ page' ⟨hpage', hne'⟩ he
  obtain ⟨mp, hmp⟩ := Option.ne_none_iff_exists'.mp hne
  obtain ⟨mp', hmp'⟩ := Option.ne_none_iff_exists'.mp hne'
  rw [frameOf_eq hmp, frameOf_eq hmp'] at he
  exact h.inj page page' mp mp' hpage hpage' hmp hmp' he

theorem image_subset (h : Accounted m0 kernel m) :
    frameOf kernel m '' mappedHeapPages kernel m ⊆ heldFrames m0 kernel m := by
  rintro f ⟨page, ⟨hpage, hne⟩, rfl⟩
  obtain ⟨mp, hmp⟩ := Option.ne_none_iff_exists'.mp hne
  rw [frameOf_eq hmp]
  exact (mem_heldFrames h.balanced).mpr (h.held page mp hpage hmp)

/-- Without a frame that is lost the frames are as many as the pages. -/
theorem encard_eq (h : Accounted m0 kernel m) (hlost : ∀ f, ¬ Lost m0 kernel m f) :
    (heldFrames m0 kernel m).encard = (mappedHeapPages kernel m).encard := by
  have hsub : heldFrames m0 kernel m ⊆ frameOf kernel m '' mappedHeapPages kernel m := by
    intro f hf
    obtain ⟨h0, huse⟩ := (mem_heldFrames h.balanced).mp hf
    by_contra hno
    refine hlost f ⟨h0, huse, fun page mp hpage hmp he => hno ⟨page, ⟨hpage, ?_⟩, ?_⟩⟩
    · rw [hmp]
      nofun
    · rw [frameOf_eq hmp, he]
  rw [hsub.antisymm h.image_subset, h.injOn.encard_image]

/-- With one there are more frames than pages. -/
theorem encard_lt (h : Accounted m0 kernel m) {f : Nat} (hf : Lost m0 kernel m f) :
    (mappedHeapPages kernel m).encard < (heldFrames m0 kernel m).encard := by
  obtain ⟨h0, huse, hno⟩ := hf
  have hfin : (heldFrames m0 kernel m).Finite := by
    refine (Set.finite_lt_nat m0.size).subset fun g hg => ?_
    exact ((mem_heldFrames h.balanced).mp hg).1.1
  rw [← h.injOn.encard_image]
  refine (hfin.subset h.image_subset).encard_lt_encard (h.image_subset.ssubset_of_mem_notMem
    ((mem_heldFrames h.balanced).mpr ⟨h0, huse⟩) ?_)
  rintro ⟨page, ⟨hpage, hne⟩, he⟩
  obtain ⟨mp, hmp⟩ := Option.ne_none_iff_exists'.mp hne
  rw [frameOf_eq hmp] at he
  exact hno page mp hpage hmp he

end Accounted

/-- **Heap page accounting.**  After every run in which no call raises the break from a
page that is mapped although the break is its first byte, every page with an address
below the break is mapped, and as many frames are held as pages of the heap are mapped. -/
theorem heap_pages_accounted {m0 : PhysMem} {mem : Mem} {calls : List HeapCall} {s : HeapState}
    (hk : KernelTables m0 kernel)
    (hempty : ∀ page, HeapPage page → translation m0 kernel page = none)
    (hrun : Run (Guarded (PageStep debug kernel) (RaisesOnce debug kernel))
      (HeapState.empty mem m0) calls s) :
    (∀ x, kheapStart ≤ x → x < s.heap.brk →
      translation s.heap.phys kernel (x / pageSize) ≠ none) ∧
    (heldFrames m0 kernel s.heap.phys).encard = (mappedHeapPages kernel s.heap.phys).encard := by
  obtain ⟨bs, top, -, hm⟩ := Run.invariant (P := PagesInv debug m0 kernel)
    (fun _ _ _ => pageStep_inv) (pagesInv_empty mem hk hempty) hrun
  refine ⟨fun x h1 h2 => ?_, hm.accounted.encard_eq hm.none_lost⟩
  have hlt := hm.lt
  rw [hm.mapped_iff _ (heapPage_of_brk h1 (by omega))]
  have htop := hm.backed.top_bounds.1
  have hfirst := (firstPage_bounds s.heap.brk).1
  simp only [pageSize] at *
  omega

/-- The empty machine has no page of the heap. -/
theorem emptyMachine_heapPage (page : Nat) : translation emptyMachine ⟨0⟩ page = none := by
  have hw := walk_pagePath emptyMachine ⟨0⟩ page
  rw [pagePath, emptyMachine_walk] at hw
  exact Option.map_eq_none_iff.mp hw.symm

/-- A block that ends in the middle of the second page, and is freed. -/
theorem heap_pages_accounted_block_freed : ∃ s : HeapState,
    Run (PageStep false ⟨0⟩) (HeapState.empty (fun _ => 0) emptyMachine)
      [.kmalloc 5000 (kheapStart + 32), .kfree (kheapStart + 32)] s ∧
    (heldFrames emptyMachine ⟨0⟩ s.heap.phys).encard =
      (mappedHeapPages ⟨0⟩ s.heap.phys).encard := by
  obtain ⟨h0, hh0⟩ : ∃ h0, h0 = HeapState.empty (fun _ => 0) emptyMachine := ⟨_, rfl⟩
  have hcompute : (do
      let placed ← h0.heap.kmalloc false ⟨0⟩ 5000 0 0
      let h2 ← placed.2.kfree false ⟨0⟩ placed.1
      .ret (placed.1, placed.2.brk, h2.brk)) =
        Outcome.ret (kheapStart + 32, kheapStart + 5032, kheapStart) := by
    rw [hh0]
    decide +kernel
  obtain ⟨⟨p, h1⟩, hm, hrest⟩ := Outcome.bind_eq_ret.mp hcompute
  obtain ⟨h2, hf, hrest⟩ := Outcome.bind_eq_ret.mp hrest
  simp only [Outcome.ret.injEq, Prod.mk.injEq] at hrest
  obtain ⟨rfl, hb1, -⟩ := hrest
  have hstep1 : PageStep false ⟨0⟩ h0 (.kmalloc 5000 (kheapStart + 32))
      ⟨h1, Function.update h0.live (kheapStart + 32) (some 5000)⟩ := by
    refine ⟨.kmalloc (by decide) hm ?_, fun huse => by cases huse⟩
    rw [hh0, hb1]
    decide
  have hstep2 : PageStep false ⟨0⟩ ⟨h1, Function.update h0.live (kheapStart + 32) (some 5000)⟩
      (.kfree (kheapStart + 32)) ⟨h2, Function.update
        (Function.update h0.live (kheapStart + 32) (some 5000)) (kheapStart + 32) none⟩ := by
    refine ⟨.kfree ?_ hf, fun huse => by cases huse⟩
    simp only
    rw [Function.update_self]
    exact Option.some_ne_none _
  have honce : RaisesOnce false ⟨0⟩ h0 (.kmalloc 5000 (kheapStart + 32)) := by
    rintro - ⟨-, hne⟩
    rw [hh0] at hne
    exact hne (emptyMachine_heapPage _)
  have hrun := Run.cons hstep1 (.cons hstep2 .nil)
  have hguarded : Guarded (PageStep false ⟨0⟩) (RaisesOnce false ⟨0⟩) h0 _ _ := ⟨hstep1, honce⟩
  have hrun' := Run.cons hguarded (.cons ⟨hstep2, trivial⟩ .nil)
  rw [hh0] at hrun hrun'
  exact ⟨_, hrun, (heap_pages_accounted emptyMachine_kernel
    (fun page _ => emptyMachine_heapPage page) hrun').2⟩

/-- A block that ends with the first page, and one more byte: three frames are held for
two pages. -/
theorem frame_lost_at_page_end : ∃ s : HeapState,
    KernelTables emptyMachine ⟨0⟩ ∧ (∀ page, translation emptyMachine ⟨0⟩ page = none) ∧
    Run (PageStep false ⟨0⟩) (HeapState.empty (fun _ => 0) emptyMachine)
      [.kmalloc 4064 (kheapStart + 32), .kmalloc 1 (kheapStart + 4128)] s ∧
    (heldFrames emptyMachine ⟨0⟩ s.heap.phys).encard ≠
      (mappedHeapPages ⟨0⟩ s.heap.phys).encard := by
  obtain ⟨h0, hh0⟩ : ∃ h0, h0 = HeapState.empty (fun _ => 0) emptyMachine := ⟨_, rfl⟩
  have hcompute : (do
      let placed1 ← h0.heap.kmalloc false ⟨0⟩ 4064 0 0
      let placed2 ← placed1.2.kmalloc false ⟨0⟩ 1 0 0
      .ret (placed1.1, placed2.1, placed1.2.brk, placed2.2.brk,
        (translation placed1.2.phys ⟨0⟩ (placed1.2.brk / pageSize)).isSome)) =
        Outcome.ret (kheapStart + 32, kheapStart + 4128, kheapStart + 4096, kheapStart + 4129,
          true) := by
    rw [hh0]
    decide +kernel
  obtain ⟨⟨p, h1⟩, hm1, hrest⟩ := Outcome.bind_eq_ret.mp hcompute
  obtain ⟨⟨q, h2⟩, hm2, hrest⟩ := Outcome.bind_eq_ret.mp hrest
  simp only [Outcome.ret.injEq, Prod.mk.injEq] at hrest
  obtain ⟨rfl, rfl, hb1, hb2, hmapped⟩ := hrest
  have hstep1 : PageStep false ⟨0⟩ h0 (.kmalloc 4064 (kheapStart + 32))
      ⟨h1, Function.update h0.live (kheapStart + 32) (some 4064)⟩ := by
    refine ⟨.kmalloc (by decide) hm1 ?_, fun huse => by cases huse⟩
    rw [hh0, hb1]
    decide
  have hle : h1.brk ≤ h2.brk := by
    rw [hb1, hb2]
    decide
  have hstep2 : PageStep false ⟨0⟩ ⟨h1, Function.update h0.live (kheapStart + 32) (some 4064)⟩
      (.kmalloc 1 (kheapStart + 4128)) ⟨h2, Function.update
        (Function.update h0.live (kheapStart + 32) (some 4064)) (kheapStart + 4128) (some 1)⟩ :=
    ⟨.kmalloc (by decide) hm2 hle, fun huse => by cases huse⟩
  have honce : RaisesOnce false ⟨0⟩ h0 (.kmalloc 4064 (kheapStart + 32)) := by
    rintro - ⟨-, hne⟩
    rw [hh0] at hne
    exact hne (emptyMachine_heapPage _)
  obtain ⟨bs, top, -, hm⟩ : PagesInv false emptyMachine ⟨0⟩
      ⟨h1, Function.update h0.live (kheapStart + 32) (some 4064)⟩ := by
    refine pageStep_inv (s := h0) ?_ ⟨hstep1, honce⟩
    rw [hh0]
    exact pagesInv_empty _ emptyMachine_kernel fun page _ => emptyMachine_heapPage page
  have htwice : RaisesTwice ⟨0⟩ h1 := by
    refine ⟨?_, Option.isSome_iff_ne_none.mp hmapped⟩
    rw [hb1]
    decide
  have hrun := Run.cons hstep1 (.cons hstep2 .nil)
  rw [hh0] at hrun
  refine ⟨_, emptyMachine_kernel, emptyMachine_heapPage, hrun, ?_⟩
  rcases kmalloc_phys hm2 with ⟨-, hsame⟩ | ⟨-, o, h3, hkbrk, hphys, hsame⟩
  · rw [hb1, hb2] at hsame
    exact absurd hsame (by decide)
  · obtain ⟨ha, f, hf⟩ := hm.raise_lost hkbrk (by rw [← hsame]; exact hle) htwice
    rw [← hphys] at ha hf
    exact (ha.encard_lt hf).ne'

end UlmerOS
