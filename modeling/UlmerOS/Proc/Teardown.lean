import UlmerOS.Proc.Frames
import UlmerOS.Arch.VspaceDelete

/-!
# Tearing down an address space

An address space is made, user pages are mapped to frames that were just allocated
and pages are unmapped, and it is deleted.  `vspace_delete` then calls `free_page`
once on each frame that the address space owns, and the bitmap is what it was before.

The tables of everybody else are frames that were in use before, and no step writes to
one of these (`TablesKept`).  A page of the upper half is an exception: its entry is in
a table of the kernel, and `vspace_unmap` clears it like any other.
-/

namespace UlmerOS

open Transition ByteMem

/-! ## The calls -/

/-- What is done with an address space. -/
inductive UserCall where
  /-- `alloc_page` and `vspace_map` of the frame with these flags. -/
  | map (virt flags : Nat)
  /-- `vspace_unmap`. -/
  | unmap (virt : Nat)

/-- The calls that return.  A page is mapped only if it is one of the lower half and is
not mapped. -/
inductive UserStep (vs : Vspace) : PhysMem → UserCall → PhysMem → Prop where
  | map {m m1 m' : PhysMem} {virt ppn flags : Nat} : virt % 2 ^ 36 < 2 ^ 35 →
      translation m vs virt = none → allocPage m = .ret (ppn, m1) →
      vspaceMap m1 vs virt ppn flags = .ret m' → UserStep vs m (.map virt flags) m'
  | unmap {m : PhysMem} {virt : Nat} : UserStep vs m (.unmap virt) (vspaceUnmap m vs virt).2

/-- A page that is unmapped is one of the lower half, or it is not mapped. -/
def UnmapsUser (vs : Vspace) (m : PhysMem) : UserCall → Prop
  | .map _ _ => True
  | .unmap virt => translation m vs virt ≠ none → virt % 2 ^ 36 < 2 ^ 35

/-- The frame is the PML4 table, or a table below its lower half, or that of a page that
is mapped there. -/
def OwnsFrame (m : PhysMem) (vs : Vspace) (f : Nat) : Prop :=
  f = vs.pml4Ppn ∨
    (∃ p : Path, p ≠ [] ∧ p.length ≤ 3 ∧ UserPath p ∧ walk m vs p = some f) ∨
    ∃ virt mp, virt % 2 ^ 36 < 2 ^ 35 ∧ translation m vs virt = some mp ∧ mp.ppn = f

/-- Every path of four indices is that of a page. -/
theorem exists_pagePath (p : Path) (h : p.length = 4) : ∃ virt, p = pagePath virt := by
  obtain ⟨a, b, c, d, rfl⟩ : ∃ a b c d, p = [a, b, c, d] := by
    match p, h with
    | [a, b, c, d], _ => exact ⟨a, b, c, d, rfl⟩
  have ha := a.isLt
  have hb := b.isLt
  have hc := c.isLt
  have hd := d.isLt
  refine ⟨2 ^ 27 * a + 2 ^ 18 * b + 2 ^ 9 * c + d, ?_⟩
  simp only [pagePath, tableIndex, List.cons.injEq, and_true, Fin.ext_iff, Fin.val_ofNat,
    Nat.shiftRight_eq_div_pow]
  omega

/-- The frames that paths of the lower half lead to are the ones that are owned. -/
theorem ownsFrame_iff {m : PhysMem} {vs : Vspace} {f : Nat} :
    OwnsFrame m vs f ↔ ∃ p : Path, UserPath p ∧ p.length ≤ 4 ∧ walk m vs p = some f := by
  constructor
  · rintro (rfl | ⟨p, -, hp, hu, hw⟩ | ⟨virt, mp, hvirt, htr, rfl⟩)
    · exact ⟨[], userPath_nil, Nat.zero_le 4, rfl⟩
    · exact ⟨p, hu, by omega, hw⟩
    · refine ⟨pagePath virt, userPath_pagePath.mpr hvirt, Nat.le_refl 4, ?_⟩
      rw [walk_pagePath, htr]
      rfl
  · rintro ⟨p, hu, hp, hw⟩
    by_cases hnil : p = []
    · subst hnil
      exact .inl (Option.some.inj hw).symm
    by_cases hlen : p.length = 4
    · obtain ⟨virt, rfl⟩ := exists_pagePath p hlen
      rw [walk_pagePath] at hw
      obtain ⟨mp, htr, hmp⟩ := Option.map_eq_some_iff.mp hw
      exact .inr (.inr ⟨virt, mp, userPath_pagePath.mp hu, htr, hmp⟩)
    · exact .inr (.inl ⟨p, hnil, by omega, hu, hw⟩)

/-! ## The tables of the others -/

namespace TablesKept

variable {m0 m m' : PhysMem} {kernel vs : Vspace}

/-- The tables of the address space that were in use before are those of the kernel, and
these have kept their entries. -/
theorem of_isTable (ho : Owned m0 kernel vs m) {f : Nat} (h0 : ¬ m0.Free f)
    (hf : IsTable m vs f) (i : Fin 512) : tables m.ram f i = tables m0.ram f i := by
  obtain ⟨p, hp, hw⟩ := hf
  have hk : ¬ UserPath p := fun hu => h0 (ho.taken p f hu (by omega) hw).1
  have hk' : ¬ UserPath (p ++ [i]) := by
    intro hu
    cases p with
    | nil => exact hk trivial
    | cons j p => exact hk hu
  have hw0 := hw
  rw [ho.walk_kernel hk (by omega)] at hw0
  have hentry := ho.kernel_entry p i hk' hp
  rw [entry_eq, entry_eq, hw, hw0] at hentry
  exact Option.some.inj hentry

/-- A step that writes to no frame in use before but to tables keeps the tables. -/
theorem step (h : TablesKept m0 m) (ho : Owned m0 kernel vs m')
    (hram : ∀ f, ¬ m0.Free f → ¬ IsTable m' vs f → ∀ x, x / pageSize = f → m'.ram x = m.ram x) :
    TablesKept m0 m' := by
  intro f h0 i
  by_cases hf : IsTable m' vs f
  · exact of_isTable ho h0 hf i
  · rw [tables_congr (hram f h0 hf), h f h0 i]

end TablesKept

theorem Grows.isTable {vs : Vspace} {path : Path} {m m' : PhysMem} (h : Grows vs path m m')
    {f : Nat} (hf : IsTable m vs f) : IsTable m' vs f := by
  induction h with
  | refl => exact hf
  | install hi _ _ ih => exact ih (hi.isTable_iff.mpr (.inl hf))

/-- A fresh page that is mapped. -/
theorem MapFresh.tablesKept {m0 m m' : PhysMem} {kernel vs : Vspace} {virt flags : Nat} {ok : Bool}
    (h : MapFresh vs m virt 0 [] flags ok m') (hkept : TablesKept m0 m)
    (ho : Owned m0 kernel vs m) (ho' : Owned m0 kernel vs m') : TablesKept m0 m' := by
  refine hkept.step ho' fun f h0 hf x hx => ?_
  cases h with
  | failed hneg _ => exact absurd hneg (Int.lt_irrefl 0)
  | @mapped m1 _ p _ hfill hmapped =>
      have hp : f ≠ p := by
        rintro rfl
        exact h0 (ho.free f hfill.free)
      have hfill' : m1.ram x = m.ram x := hfill.ram_keep x (by rw [hx]; exact hp)
      cases hmapped with
      | present _ => exact hfill'
      | @added m2 _ e _ hg hset _ _ =>
          have hf2 : ¬ IsTable m2 vs f := fun ht => hf (hset.isTable_iff.mpr ht)
          have hf1 : ¬ IsTable m1 vs f := fun ht => hf2 (hg.isTable ht)
          have hused : ¬ m1.Free f := fun hfr => h0 (ho.free f ((hfill.free_iff f).mp hfr).1)
          rw [hset.ram_keep x (by rw [hx]; exact hf2), (hg.keeps hused hf1).2 x hx, hfill']

/-- A user page that is unmapped. -/
theorem Owned.unmap_tablesKept {m0 m : PhysMem} {kernel vs : Vspace} {virt : Nat}
    (ho : Owned m0 kernel vs m) (hk : KernelTables m0 kernel) (hkept : TablesKept m0 m)
    (hu : translation m vs virt ≠ none → virt % 2 ^ 36 < 2 ^ 35)
    (ho' : Owned m0 kernel vs (vspaceUnmap m vs virt).2) :
    TablesKept m0 (vspaceUnmap m vs virt).2 := by
  refine hkept.step ho' fun f h0 hf x hx => ?_
  cases htr : translation m vs virt with
  | none => rw [vspaceUnmap_none htr]
  | some mp =>
      have hup : UserPath (pagePath virt) := userPath_pagePath.mpr (hu (by rw [htr]; nofun))
      have hw : walk m vs (pagePath virt) = some mp.ppn := by rw [walk_pagePath, htr]; rfl
      have hlt : mp.ppn < 2 ^ 32 :=
        Nat.lt_of_lt_of_le (ho.taken _ mp.ppn hup (Nat.le_refl 4) hw).1.1 m0.freePages.small
      obtain ⟨m1, heq, hset, -, -⟩ := vspaceUnmap_some (ho.separated hk) htr (by omega)
      rw [heq] at hf ⊢
      have hf1 : ¬ IsTable m1 vs f := fun ht => hf (isTable_freePage.mpr ht)
      rw [freePage_ram]
      exact hset.ram_keep x (by rw [hx]; exact fun ht => hf1 (hset.isTable_iff.mpr ht))

/-! ## Runs -/

/-- What the calls keep. -/
structure Tenant (m0 : PhysMem) (kernel vs : Vspace) (m : PhysMem) : Prop where
  owned : Owned m0 kernel vs m
  no_loose : ∀ f, ¬ Loose m0 vs m f
  kept : TablesKept m0 m

theorem Tenant.step {m0 m m' : PhysMem} {kernel vs : Vspace} {call : UserCall}
    (h : Tenant m0 kernel vs m) (hk : KernelTables m0 kernel)
    (hstep : Guarded (UserStep vs) (UnmapsUser vs) m call m') : Tenant m0 kernel vs m' := by
  obtain ⟨hstep, hok⟩ := hstep
  cases hstep with
  | @map m1 _ virt ppn flags hvirt hnone halloc hmap =>
      have hfresh := mapFresh_of_map (h.owned.separated hk) (h.owned.tablesUsed hk) halloc hmap
      obtain ⟨ho, hloose⟩ := hfresh.owned h.owned hk fun _ _ => hvirt
      exact ⟨ho, fun f hf => h.no_loose f ((hloose (.inr hnone) f).mp hf),
        hfresh.tablesKept h.kept h.owned ho⟩
  | @unmap virt =>
      obtain ⟨m1, heq, ho, hloose, -⟩ := h.owned.unmap hk hok
      have ho' : Owned m0 kernel vs (vspaceUnmap m vs virt).2 := by rw [heq]; exact ho
      have hkept := h.owned.unmap_tablesKept hk h.kept hok ho'
      rw [heq] at hkept ⊢
      exact ⟨ho, fun f hf => h.no_loose f ((hloose f).mp hf), hkept⟩

theorem tenant_run {m0 m m' : PhysMem} {kernel vs : Vspace} {calls : List UserCall}
    (hk : KernelTables m0 kernel) (hcreate : vspaceCreate m0 kernel = .ret (vs, m))
    (hrun : Run (Guarded (UserStep vs) (UnmapsUser vs)) m calls m') : Tenant m0 kernel vs m' := by
  have hc := vspaceCreate_ret hk.used hcreate
  obtain ⟨ho, hloose⟩ := hc.owned hk.used
  exact hrun.invariant (fun _ _ _ h hstep => h.step hk hstep) ⟨ho, hloose, hc.tablesKept⟩

theorem foldl_freePage_calls (m : PhysMem) (fs : List Nat) :
    (fs.foldl freePage m).calls = (fs.map PageCall.free).reverse ++ m.calls := by
  induction fs generalizing m with
  | nil => rfl
  | cons f fs ih =>
      rw [List.foldl_cons, ih, freePage_calls, List.map_cons, List.reverse_cons, List.append_assoc]
      rfl

/-- **Teardown of an address space.**  User pages were mapped to fresh frames and user
pages were unmapped, in any order.  `vspace_delete` calls `free_page` once on each frame
that the address space owns and on no other, the bitmap is what it was before
`vspace_create`, and the tables and mappings of every other address space, the kernel
among them, are what they were. -/
theorem vspace_teardown {m0 m m' : PhysMem} {kernel vs : Vspace} {calls : List UserCall}
    (hk : KernelTables m0 kernel) (hcreate : vspaceCreate m0 kernel = .ret (vs, m))
    (hrun : Run (Guarded (UserStep vs) (UnmapsUser vs)) m calls m') :
    (∃ fs : List Nat, (vspaceDelete m' vs).2.calls = (fs.map PageCall.free).reverse ++ m'.calls ∧
      fs.Nodup ∧ ∀ f, f ∈ fs ↔ OwnsFrame m' vs f) ∧
    ((vspaceDelete m' vs).2.size = m0.size ∧
      ∀ f, (vspaceDelete m' vs).2.freePages.Used f ↔ m0.freePages.Used f) ∧
    ∀ other, TablesUsed m0 other →
      (∀ f i, IsTable m0 other f →
        tables (vspaceDelete m' vs).2.ram f i = tables m0.ram f i) ∧
      ∀ virt, translation (vspaceDelete m' vs).2 other virt = translation m0 other virt := by
  have h := tenant_run hk hcreate hrun
  have hdelete := vspaceDelete_eq (m := m') h.owned.pml4Ppn_ne
  have hram : (vspaceDelete m' vs).2.ram = m'.ram := by rw [hdelete, foldl_freePage_ram]
  have hkept : TablesKept m0 (vspaceDelete m' vs).2 := by
    intro f h0 i
    rw [hram]
    exact h.kept f h0 i
  refine ⟨⟨vspaceFrames m' vs, ?_, h.owned.nodup_frames, fun f => ?_⟩,
    ⟨h.owned.delete_free.2.1, ?_⟩,
    fun other hused => ⟨fun f i hf => hkept f (hused f hf) i, hkept.translation_eq hused⟩⟩
  · rw [hdelete, foldl_freePage_calls]
  · rw [mem_vspaceFrames, ownsFrame_iff]
  · intro f
    rw [FreePages.used_iff, FreePages.used_iff]
    exact and_congr (iff_of_eq (congrArg (f < ·) h.owned.delete_free.2.1))
      (not_congr (h.owned.delete h.no_loose f))

/-- Two pages are mapped in a new address space and one of them is unmapped. -/
theorem vspace_teardown_two_pages : ∃ vs m m',
    vspaceCreate emptyMachine ⟨0⟩ = .ret (vs, m) ∧
      Run (UserStep vs) m [.map 5 3, .map 0x401 1, .unmap 5] m' ∧
      ∀ f, (vspaceDelete m' vs).2.freePages.Used f ↔ emptyMachine.freePages.Used f := by
  have hcompute : (do
      let created ← vspaceCreate emptyMachine ⟨0⟩
      let taken1 ← allocPage created.2
      let m2 ← vspaceMap taken1.2 created.1 5 taken1.1 3
      let taken2 ← allocPage m2
      let _ ← vspaceMap taken2.2 created.1 0x401 taken2.1 1
      .ret (translation created.2 created.1 5, translation m2 created.1 0x401)) =
      Outcome.ret (none, none) := by decide +kernel
  obtain ⟨⟨vs, m⟩, hcreate, hrest⟩ := Outcome.bind_eq_ret.mp hcompute
  obtain ⟨⟨p, m1⟩, halloc1, hrest⟩ := Outcome.bind_eq_ret.mp hrest
  obtain ⟨m2, hmap1, hrest⟩ := Outcome.bind_eq_ret.mp hrest
  obtain ⟨⟨q, m3⟩, halloc2, hrest⟩ := Outcome.bind_eq_ret.mp hrest
  obtain ⟨m4, hmap2, hvals⟩ := Outcome.bind_eq_ret.mp hrest
  simp only [Outcome.ret.injEq, Prod.mk.injEq] at hvals
  obtain ⟨hnone1, hnone2⟩ := hvals
  have hstep1 : UserStep vs m (.map 5 3) m2 := .map (by decide) hnone1 halloc1 hmap1
  have hstep2 : UserStep vs m2 (.map 0x401 1) m4 := .map (by decide) hnone2 halloc2 hmap2
  have hrun : Run (Guarded (UserStep vs) (UnmapsUser vs)) m [.map 5 3, .map 0x401 1, .unmap 5]
      (vspaceUnmap m4 vs 5).2 :=
    .cons ⟨hstep1, trivial⟩ (.cons ⟨hstep2, trivial⟩ (.cons ⟨.unmap, fun _ => by decide⟩ .nil))
  exact ⟨vs, m, _, hcreate, .cons hstep1 (.cons hstep2 (.cons .unmap .nil)),
    (vspace_teardown emptyMachine_kernel hcreate hrun).2.1.2⟩

/-- The kernel has a page in its half.  It is unmapped through a new address space, and
then it is gone for the kernel as well and its frame is free. -/
theorem kernel_page_unmapped : ∃ m0 vs m m', ∃ f : Nat,
    KernelTables m0 ⟨0⟩ ∧ vspaceCreate m0 ⟨0⟩ = .ret (vs, m) ∧
      Run (UserStep vs) m [.unmap 0x800000000] m' ∧
      m0.freePages.Used f ∧ ¬ (vspaceDelete m' vs).2.freePages.Used f ∧
      translation m0 ⟨0⟩ 0x800000000 ≠ none ∧
      translation (vspaceDelete m' vs).2 ⟨0⟩ 0x800000000 = none := by
  have hcompute : (do
      let taken ← allocPage emptyMachine
      let m0 ← vspaceMap taken.2 ⟨0⟩ 0x800000000 taken.1 2
      let created ← vspaceCreate m0 ⟨0⟩
      let m' := (vspaceDelete (vspaceUnmap created.2 created.1 0x800000000).2 created.1).2
      .ret (m0.freePages.Used 1 ∧ ¬ m'.freePages.Used 1 ∧
        translation m0 ⟨0⟩ 0x800000000 ≠ none ∧ translation m' ⟨0⟩ 0x800000000 = none : Bool)) =
      Outcome.ret true := by decide +kernel
  obtain ⟨⟨p, m⟩, halloc, hrest⟩ := Outcome.bind_eq_ret.mp hcompute
  obtain ⟨m0, hmap, hrest⟩ := Outcome.bind_eq_ret.mp hrest
  obtain ⟨⟨vs, m1⟩, hcreate, hvals⟩ := Outcome.bind_eq_ret.mp hrest
  have hfresh := mapFresh_of_map emptyMachine_kernel.separated emptyMachine_kernel.used halloc hmap
  obtain ⟨hused, hfree, hbefore, hafter⟩ := of_decide_eq_true (Outcome.ret.inj hvals)
  exact ⟨m0, vs, m1, _, 1, hfresh.kernelTables emptyMachine_kernel, hcreate, .cons .unmap .nil,
    hused, hfree, hbefore, hafter⟩

end UlmerOS
