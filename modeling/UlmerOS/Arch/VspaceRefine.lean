import UlmerOS.Arch.VspaceMap
import UlmerOS.Lib.Run

/-!
# An address space is a map

What an address space is for: a partial function from virtual page numbers of 36
bits to a frame and its permissions.  `PageMap.Step` says what the two calls do to
such a function, and `page_tables_refine_map` that the four levels of tables do
the same, from `vspace_create` on and whatever the rest of the kernel does to
other frames in between.

The tables of the kernel, whose upper half every address space shares, are those
of the boot stage and of `vspace_map`.  They are distinct frames in use
(`KernelTables`).
-/

namespace UlmerOS

open ByteMem Transition

/-! ## Making an address space -/

/-- The address space of the kernel, which every other is made from. -/
structure KernelTables (m : PhysMem) (kernel : Vspace) : Prop where
  separated : Separated m kernel
  used : TablesUsed m kernel
  direct : DirectMapped m kernel

/-! ## Tables that nobody writes to -/

/-- A frame that was in use when memory was `m0` has the entries it had. -/
def TablesKept (m0 m : PhysMem) : Prop :=
  ∀ f, ¬ m0.Free f → ∀ i, tables m.ram f i = tables m0.ram f i

namespace TablesKept

variable {m0 m : PhysMem} {other : Vspace}

/-- Nobody's paths lead elsewhere if his tables were in use. -/
theorem walk_eq (h : TablesKept m0 m) (hused : TablesUsed m0 other) {q : Path}
    (hq : q.length ≤ 4) : walk m other q = walk m0 other q :=
  Radix.node_congr (d := 3) (fun p f i hp hf => h f (hused f ⟨p, hp, hf⟩) i) hq

theorem isTable_iff (h : TablesKept m0 m) (hused : TablesUsed m0 other) {f : Nat} :
    IsTable m other f ↔ IsTable m0 other f := by
  constructor
  · rintro ⟨q, hq, hw⟩
    exact ⟨q, hq, by rw [← h.walk_eq hused (by omega)]; exact hw⟩
  · rintro ⟨q, hq, hw⟩
    exact ⟨q, hq, by rw [h.walk_eq hused (by omega)]; exact hw⟩

/-- Nobody's mappings change if his tables were in use. -/
theorem translation_eq (h : TablesKept m0 m) (hused : TablesUsed m0 other) (virt : Nat) :
    translation m other virt = translation m0 other virt := by
  rw [UlmerOS.translation_eq, UlmerOS.translation_eq, entry_eq, entry_eq,
    h.walk_eq hused (by simp [ptblPath])]
  cases hf : walk m0 other (ptblPath virt) with
  | none => rfl
  | some f =>
      rw [Option.map_some, Option.map_some, h f (hused f ⟨ptblPath virt, Nat.le_refl 3, hf⟩)]

end TablesKept

/-- A frame that is allocated was free. -/
theorem Allocated.tablesKept {m m' : PhysMem} {p : Nat} (h : Allocated m p m') :
    TablesKept m m' := by
  intro f hused i
  rw [h.ram_eq, tables_fill, if_neg]
  rintro rfl
  exact hused h.free

/-! ## Making an address space -/

/-- The half of the PML4 table that is copied from the kernel. -/
theorem tables_copy {ram : Mem} {dst src f : Nat} {i : Fin 512} :
    tables (copy ram (pageSize * dst + pageSize / 2) (pageSize * src + pageSize / 2)
      (pageSize / 2)) f i =
      if f = dst ∧ 256 ≤ i.val then tables ram src i else tables ram f i := by
  have hi := i.isLt
  simp only [tables, pageSize]
  split
  · rename_i h
    obtain ⟨rfl, hge⟩ := h
    refine congrArg Gpte.decode (load_eq_load fun k hk => ?_)
    have h1 : 4096 * f + 8 * i.val + k = 4096 * f + 4096 / 2 + (8 * (i.val - 256) + k) := by omega
    have h2 : 4096 * src + 8 * i.val + k = 4096 * src + 4096 / 2 + (8 * (i.val - 256) + k) := by
      omega
    rw [h1, h2]
    exact copy_of_mem (by omega)
  · rename_i h
    refine congrArg Gpte.decode (load_congr fun x h1 h2 => copy_of_not_mem ?_)
    by_cases hf : f = dst
    · have hlt : i.val < 256 := Nat.not_le.mp fun hge => h ⟨hf, hge⟩
      subst hf
      omega
    · omega

/-- An address space was made: its PML4 table is a frame that was free, the lower
half of it is empty and the upper half is that of the kernel. -/
structure Created (m : PhysMem) (kernel vs : Vspace) (m' : PhysMem) : Prop where
  free : m.Free vs.pml4Ppn
  free_iff : ∀ f, m'.Free f ↔ m.Free f ∧ f ≠ vs.pml4Ppn
  size_eq : m'.size = m.size
  calls_eq : m'.calls = .alloc vs.pml4Ppn :: m.calls
  tables_eq : ∀ f i, tables m'.ram f i =
    if f = vs.pml4Ppn then (if 256 ≤ i.val then tables m.ram kernel.pml4Ppn i else noGpte)
    else tables m.ram f i

theorem vspaceCreate_ret {m m' : PhysMem} {kernel vs : Vspace} (hused : TablesUsed m kernel)
    (h : vspaceCreate m kernel = .ret (vs, m')) : Created m kernel vs m' := by
  obtain ⟨⟨g, m1⟩, halloc, hret⟩ := Outcome.bind_eq_ret.mp h
  cases hret
  have ha := allocPage_ret halloc
  have hne : kernel.pml4Ppn ≠ g := by
    rintro rfl
    exact hused _ ⟨[], Nat.zero_le 3, rfl⟩ ha.free
  refine ⟨ha.free, ha.free_iff, ha.size_eq, ha.calls_eq, ?_⟩
  intro f i
  rw [vspaceUpdateKernelMapping, tables_copy, ha.ram_eq, tables_fill, tables_fill, if_neg hne]
  by_cases hf : f = g
  · simp [hf]
  · simp [hf]

namespace Created

variable {m m' : PhysMem} {kernel vs : Vspace}

theorem tablesKept (h : Created m kernel vs m') : TablesKept m m' := by
  intro f hused i
  rw [h.tables_eq, if_neg]
  rintro rfl
  exact hused h.free

/-- The tables of the kernel are not changed. -/
theorem tables_kernel (h : Created m kernel vs m') (hused : TablesUsed m kernel) {f : Nat}
    (hf : IsTable m kernel f) (i : Fin 512) : tables m'.ram f i = tables m.ram f i :=
  h.tablesKept f (hused f hf) i

/-- A path leads nowhere in the lower half, and where it does in the kernel in the upper. -/
theorem walk_cons (h : Created m kernel vs m') (hused : TablesUsed m kernel) (i : Fin 512)
    {q : Path} (hq : q.length ≤ 3) :
    walk m' vs (i :: q) = if 256 ≤ i.val then walk m kernel (i :: q) else none := by
  rw [walk, Radix.node, h.tables_eq, if_pos rfl]
  split
  · rw [walk, Radix.node]
    cases hc : (tables m.ram kernel.pml4Ppn i).child with
    | none => rfl
    | some f =>
        refine Radix.node_congr (d := 2) (fun p f' j hp hf' => ?_) hq
        refine h.tables_kernel hused ⟨i :: p, by rw [List.length_cons]; omega, ?_⟩ j
        rw [walk, Radix.node, hc]
        exact hf'
  · rfl

theorem entry_cons (h : Created m kernel vs m') (hused : TablesUsed m kernel) (i j : Fin 512)
    {q : Path} (hq : q.length ≤ 2) :
    entry m' vs (i :: q) j = if 256 ≤ i.val then entry m kernel (i :: q) j else none := by
  rw [entry_eq, entry_eq, h.walk_cons hused i (by omega)]
  split
  · cases hw : walk m kernel (i :: q) with
    | none => rfl
    | some f =>
        refine congrArg some (h.tables_kernel hused ⟨i :: q, ?_, hw⟩ j)
        rw [List.length_cons]
        omega
  · rfl

theorem separated (h : Created m kernel vs m') (hk : KernelTables m kernel) :
    Separated m' vs := by
  -- a table below the PML4 table is one of the kernel, so it was not free
  have hbelow : ∀ i q f, q.length ≤ 2 → walk m' vs (i :: q) = some f →
      walk m kernel (i :: q) = some f := by
    intro i q f hq hw
    rw [h.walk_cons hk.used i (by omega)] at hw
    split at hw
    · exact hw
    · cases hw
  have hroot : ∀ i q, q.length ≤ 2 → walk m' vs (i :: q) ≠ some vs.pml4Ppn := by
    intro i q hq hw
    refine hk.used _ ⟨i :: q, ?_, hbelow i q _ hq hw⟩ h.free
    rw [List.length_cons]
    omega
  intro p q f hp hq hpf hqf
  cases p with
  | nil =>
      cases q with
      | nil => rfl
      | cons j q =>
          obtain rfl := Option.some.inj hpf
          exact absurd hqf (hroot j q (by rw [List.length_cons] at hq; omega))
  | cons i p =>
      rw [List.length_cons] at hp
      cases q with
      | nil =>
          obtain rfl := Option.some.inj hqf
          exact absurd hpf (hroot i p (by omega))
      | cons j q =>
          rw [List.length_cons] at hq
          refine hk.separated _ _ f ?_ ?_ (hbelow i p f (by omega) hpf)
            (hbelow j q f (by omega) hqf)
          · rw [List.length_cons]; omega
          · rw [List.length_cons]; omega

theorem tablesUsed (h : Created m kernel vs m') (hused : TablesUsed m kernel) :
    TablesUsed m' vs := by
  rintro f ⟨q, hq, hw⟩ hfree
  obtain ⟨hfree', hne⟩ := (h.free_iff f).mp hfree
  cases q with
  | nil => exact hne (Option.some.inj hw).symm
  | cons i q =>
      rw [List.length_cons] at hq
      rw [h.walk_cons hused i (by omega)] at hw
      split at hw
      · exact hused f ⟨i :: q, by rw [List.length_cons]; omega, hw⟩ hfree'
      · cases hw

/-- The lower half is not mapped, the upper half is that of the kernel. -/
theorem translation_eq (h : Created m kernel vs m') (hused : TablesUsed m kernel) (virt : Nat) :
    translation m' vs virt =
      if 256 ≤ (tableIndex virt 27).val then translation m kernel virt else none := by
  rw [UlmerOS.translation_eq, UlmerOS.translation_eq, ptblPath,
    h.entry_cons hused _ _ (by simp)]
  split <;> rfl

theorem directMapped (h : Created m kernel vs m') (hk : KernelTables m kernel) :
    DirectMapped m' vs := by
  intro virt mp hmp
  rw [h.translation_eq hk.used] at hmp
  split at hmp
  · exact hk.direct virt mp hmp
  · cases hmp

end Created

/-! ## The map -/

/-- A partial function from virtual page numbers to frames and permissions. -/
abbrev PageMap := Fin (2 ^ 36) → Option Mapping

/-- The virtual page number of an argument. -/
def pageKey (virt : Nat) : Fin (2 ^ 36) := Fin.ofNat (2 ^ 36) virt

/-- What happens to an address space. -/
inductive VspaceCall where
  /-- `vspace_map(vspace, virt, phys, flags)` returned. -/
  | map (virt phys flags : Nat)
  /-- `vspace_unmap(vspace, virt)` returned `ret`. -/
  | unmap (virt : Nat) (ret : Bool)
  /-- Something else ran in between. -/
  | other

/-- What the calls do to the map. -/
inductive PageMap.Step : PageMap → VspaceCall → PageMap → Prop where
  | add {t : PageMap} {virt phys flags : Nat} : t (pageKey virt) = none →
      Step t (.map virt phys flags)
        (Function.update t (pageKey virt) (some (Mapping.ofFlags phys flags)))
  | keep {t : PageMap} {virt phys flags : Nat} : t (pageKey virt) ≠ none →
      Step t (.map virt phys flags) t
  | remove {t : PageMap} {virt : Nat} : t (pageKey virt) ≠ none →
      Step t (.unmap virt true) (Function.update t (pageKey virt) none)
  | absent {t : PageMap} {virt : Nat} : t (pageKey virt) = none → Step t (.unmap virt false) t
  | other {t : PageMap} : Step t .other t

/-- The map that the tables of an address space are. -/
def pageMap (vs : Vspace) (m : PhysMem) : PageMap := fun v => translation m vs v

theorem pageMap_key (vs : Vspace) (m : PhysMem) (virt : Nat) :
    pageMap vs m (pageKey virt) = translation m vs virt :=
  translation_mod m vs (by rw [pageKey, Fin.val_ofNat, Nat.mod_mod])

/-- The calls on the tables.  The rest of the kernel does not write to table frames. -/
inductive VspaceStep (vs : Vspace) : PhysMem → VspaceCall → PhysMem → Prop where
  | map {m m' : PhysMem} {virt phys flags : Nat} :
      vspaceMap m vs virt phys flags = .ret m' → VspaceStep vs m (.map virt phys flags) m'
  | unmap {m m' : PhysMem} {virt : Nat} {ret : Bool} :
      vspaceUnmap m vs virt = (ret, m') → VspaceStep vs m (.unmap virt ret) m'
  | other {m m' : PhysMem} :
      (∀ x, IsTable m vs (x / pageSize) → m'.ram x = m.ram x) → VspaceStep vs m .other m'

/-- What a call relies on: a mapped frame is a frame there is, and what `alloc_page`
returns is in use nowhere, above all not as a table. -/
def CallOk (vs : Vspace) (m : PhysMem) : VspaceCall → Prop
  | .map _ phys _ => phys < m.size ∧ TablesUsed m vs
  | .unmap _ _ => True
  | .other => True

/-- What every call keeps. -/
structure VspaceInv (vs : Vspace) (m : PhysMem) : Prop where
  separated : Separated m vs
  direct : DirectMapped m vs

theorem pageMap_update {vs : Vspace} {m m' : PhysMem} {virt : Nat} {e : Gpte}
    (h : EntrySet vs m virt e m') :
    pageMap vs m' = Function.update (pageMap vs m) (pageKey virt) e.mapping := by
  funext v
  have hv : v.val % 2 ^ 36 = v.val := Nat.mod_eq_of_lt v.isLt
  have hkey : v = pageKey virt ↔ v.val % 2 ^ 36 = virt % 2 ^ 36 := by
    rw [Fin.ext_iff, pageKey, Fin.val_ofNat, hv]
  rw [pageMap, h.translation_eq, Function.update_apply]
  by_cases hk : v = pageKey virt
  · rw [if_pos hk, if_pos (hkey.mp hk)]
  · rw [if_neg hk, if_neg (fun hc => hk (hkey.mpr hc))]
    rfl

theorem DirectMapped.entrySet {vs : Vspace} {m m' : PhysMem} {virt : Nat} {e : Gpte}
    (hdirect : DirectMapped m vs) (h : EntrySet vs m virt e m')
    (he : ∀ mp, e.mapping = some mp → mp.ppn < 2 ^ 35) : DirectMapped m' vs := by
  intro w mp hmp
  rw [h.translation_eq] at hmp
  split at hmp
  · exact he mp hmp
  · exact hdirect w mp hmp

theorem Mapped.refines {vs : Vspace} {m m' : PhysMem} {virt phys flags : Nat}
    (h : Mapped vs m virt phys flags m') (hinv : VspaceInv vs m) (hphys : phys < m.size) :
    VspaceInv vs m' ∧ PageMap.Step (pageMap vs m) (.map virt phys flags) (pageMap vs m') := by
  cases h with
  | present hne => exact ⟨hinv, .keep (by rw [pageMap_key]; exact hne)⟩
  | @added m1 _ e hnone hg hset _ _ =>
      have hlt : phys < 2 ^ 32 := Nat.lt_of_lt_of_le hphys m.freePages.small
      have hmap := pageEntry_mapping e flags (show phys < 2 ^ 40 by omega)
      have hpm : pageMap vs m1 = pageMap vs m := funext fun v => hg.translation_eq v
      have hdirect : DirectMapped m1 vs := fun w mp hmp =>
        hinv.direct w mp (by rw [← hg.translation_eq]; exact hmp)
      refine ⟨⟨hset.separated (hg.separated hinv.separated), hdirect.entrySet hset ?_⟩, ?_⟩
      · intro mp hmp
        rw [hmap] at hmp
        obtain rfl := Option.some.inj hmp
        exact Nat.lt_trans hlt (by decide)
      · rw [pageMap_update hset, hpm, hmap]
        exact .add (by rw [pageMap_key]; exact hnone)

theorem vspaceUnmap_refines {vs : Vspace} {m m' : PhysMem} {virt : Nat} {ret : Bool}
    (h : vspaceUnmap m vs virt = (ret, m')) (hinv : VspaceInv vs m) :
    VspaceInv vs m' ∧ PageMap.Step (pageMap vs m) (.unmap virt ret) (pageMap vs m') := by
  cases htr : translation m vs virt with
  | none =>
      rw [vspaceUnmap_none htr] at h
      cases h
      exact ⟨hinv, .absent (by rw [pageMap_key]; exact htr)⟩
  | some mp =>
      obtain ⟨m1, heq, hset, -, -⟩ :=
        vspaceUnmap_some hinv.separated htr (hinv.direct virt mp htr)
      rw [heq] at h
      cases h
      have hdirect : DirectMapped m1 vs := hinv.direct.entrySet hset nofun
      have hpm : pageMap vs (freePage m1 mp.ppn) = pageMap vs m1 :=
        funext fun v => translation_freePage m1 mp.ppn vs v
      refine ⟨⟨?_, ?_⟩, ?_⟩
      · exact separated_freePage.mpr (hset.separated hinv.separated)
      · exact fun w mp' h' => hdirect w mp' ((translation_freePage _ _ _ _).symm.trans h')
      · rw [hpm, pageMap_update hset]
        exact .remove (by rw [pageMap_key, htr]; nofun)

/-- One call does to the tables what it does to the map. -/
theorem vspaceStep_refines {vs : Vspace} {m m' : PhysMem} {call : VspaceCall}
    (hinv : VspaceInv vs m) (h : Guarded (VspaceStep vs) (CallOk vs) m call m') :
    VspaceInv vs m' ∧ PageMap.Step (pageMap vs m) call (pageMap vs m') := by
  obtain ⟨hstep, hok⟩ := h
  cases hstep with
  | map hret =>
      obtain ⟨hphys, hused⟩ := hok
      rcases vspaceMap_cases _ _ _ hinv.separated hused with hp | ⟨m1, h1, hmapped⟩
      · rw [hp] at hret
        cases hret
      · rw [h1] at hret
        cases hret
        exact hmapped.refines hinv hphys
  | unmap hret => exact vspaceUnmap_refines hret hinv
  | other hram =>
      have hpm : pageMap vs m' = pageMap vs m := funext fun v => translation_congr hram v
      refine ⟨⟨?_, ?_⟩, by rw [hpm]; exact .other⟩
      · exact Radix.Separated.of_node_eq hinv.separated fun q hq => walk_congr hram (by omega)
      · exact fun w mp hmp => hinv.direct w mp (by rw [← translation_congr hram]; exact hmp)

/-- **Page tables refine a map.**  In every address space that `vspace_create` made,
every sequence of calls does to the four levels of tables what it does to a partial
function from virtual page numbers of 36 bits, and a further call of `vspace_map`
returns unless no frame is left for a table. -/
theorem page_tables_refine_map {m0 m m' : PhysMem} {kernel vs : Vspace} {calls : List VspaceCall}
    (hkernel : KernelTables m0 kernel) (hcreate : vspaceCreate m0 kernel = .ret (vs, m))
    (hrun : Run (Guarded (VspaceStep vs) (CallOk vs)) m calls m') :
    (∀ virt, pageMap vs m (pageKey virt) =
      if 2 ^ 35 ≤ virt % 2 ^ 36 then pageMap kernel m0 (pageKey virt) else none) ∧
    Run PageMap.Step (pageMap vs m) calls (pageMap vs m') ∧
    (∀ virt, translation m' vs virt = pageMap vs m' (pageKey virt)) ∧
    (∀ virt phys flags, TablesUsed m' vs →
      (∃ m'', vspaceMap m' vs virt phys flags = .ret m'') ∨
        vspaceMap m' vs virt phys flags = .panic "alloc_page() out of memory") := by
  have hc := vspaceCreate_ret hkernel.used hcreate
  have hinv : VspaceInv vs m := ⟨hc.separated hkernel, hc.directMapped hkernel⟩
  obtain ⟨hinv', hsim⟩ := hrun.simulates (pageMap vs)
    (fun _ _ _ hP hst => vspaceStep_refines hP hst) hinv
  refine ⟨fun virt => ?_, hsim, fun virt => (pageMap_key vs m' virt).symm, ?_⟩
  · rw [pageMap_key, pageMap_key, hc.translation_eq hkernel.used]
    have hidx : 256 ≤ (tableIndex virt 27).val ↔ 2 ^ 35 ≤ virt % 2 ^ 36 := by
      rw [tableIndex, Fin.val_ofNat, Nat.shiftRight_eq_div_pow]
      omega
    simp only [hidx]
  · intro virt phys flags hused
    rcases vspaceMap_cases virt phys flags hinv'.separated hused with hp | ⟨m1, h1, -⟩
    · exact .inr hp
    · exact .inl ⟨m1, h1⟩

/-- A machine with 32 frames, all zero, where the first is the PML4 table of the
kernel and the others are free. -/
def emptyMachine : PhysMem where
  ram := fun _ => 0
  freePages :=
    { bmp := ⟨32, [1, 0, 0, 0]⟩
      length_eq := by decide
      padded := fun i (h1 : 32 ≤ i) (h2 : i / 8 < 4) => by omega
      small := by decide }
  calls := []

theorem emptyMachine_walk (i : Fin 512) (q : Path) : walk emptyMachine ⟨0⟩ (i :: q) = none := by
  have hzero : tables emptyMachine.ram 0 i = noGpte := by
    rw [tables, noGpte]
    exact congrArg Gpte.decode (load_zero fun _ _ _ => rfl)
  rw [walk, Radix.node, hzero]
  rfl

theorem emptyMachine_isTable {f : Nat} (h : IsTable emptyMachine ⟨0⟩ f) : f = 0 := by
  obtain ⟨q, -, hw⟩ := h
  cases q with
  | nil => exact (Option.some.inj hw).symm
  | cons i q => rw [emptyMachine_walk] at hw; cases hw

theorem emptyMachine_kernel : KernelTables emptyMachine ⟨0⟩ where
  separated := by
    intro p q f _ _ hp hq
    cases p with
    | nil =>
        cases q with
        | nil => rfl
        | cons j q => exact absurd (hq.symm.trans (emptyMachine_walk j q)) (nomatch ·)
    | cons i p => exact absurd (hp.symm.trans (emptyMachine_walk i p)) (nomatch ·)
  used := by
    intro f hf
    rw [emptyMachine_isTable hf]
    decide
  direct := by
    intro virt mp hmp
    have hw := walk_pagePath emptyMachine ⟨0⟩ virt
    rw [hmp, pagePath, emptyMachine_walk] at hw
    cases hw

/-- A page is mapped in a new address space and unmapped again. -/
theorem page_tables_refine_map_page_five : ∃ vs m m',
    vspaceCreate emptyMachine ⟨0⟩ = .ret (vs, m) ∧
      Run PageMap.Step (pageMap vs m) [.map 5 7 3, .unmap 5 true] (pageMap vs m') := by
  have hcompute : (do
      let created ← vspaceCreate emptyMachine ⟨0⟩
      let m ← vspaceMap created.2 created.1 5 7 3
      .ret (vspaceUnmap m created.1 5).1) = Outcome.ret true := by decide +kernel
  obtain ⟨⟨vs, m⟩, hcreate, hrest⟩ := Outcome.bind_eq_ret.mp hcompute
  obtain ⟨m1, hmap, hunmap⟩ := Outcome.bind_eq_ret.mp hrest
  have hc := vspaceCreate_ret emptyMachine_kernel.used hcreate
  have hok : CallOk vs m (.map 5 7 3) := by
    refine ⟨?_, hc.tablesUsed emptyMachine_kernel.used⟩
    rw [hc.size_eq]
    decide
  have hrun : Run (Guarded (VspaceStep vs) (CallOk vs)) m [.map 5 7 3, .unmap 5 true]
      (vspaceUnmap m1 vs 5).2 := by
    refine .cons ⟨.map hmap, hok⟩ (.cons ⟨.unmap ?_, trivial⟩ .nil)
    rw [← Outcome.ret.inj hunmap]
  exact ⟨vs, m, _, hcreate, (page_tables_refine_map emptyMachine_kernel hcreate hrun).2.1⟩

end UlmerOS
