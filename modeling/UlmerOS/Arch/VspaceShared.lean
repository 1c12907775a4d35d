import UlmerOS.Arch.VspaceRefine

/-!
# The half of the kernel

`vspace_create` copies the upper half of the PML4 table of the kernel once, and nobody
copies it again.  What the kernel maps and unmaps later is seen by a process because the
two PML4 tables point to the same tables below.

This needs that an entry of the PML4 table of the kernel is not changed once it is present,
and that nobody else writes to the PML4 table of the process.  `vspace_map` writes to tables
of the kernel and to frames that were free, and it changes no entry that is present.
`vspace_unmap` clears an entry of a page table and releases the frame of the page, and never
a table.
-/

namespace UlmerOS

open Transition

/-! ## What a call for the kernel keeps -/

/-- The entries of the kernel's PML4 table that were present are as they were, and frames
that are in use and are no tables of the kernel keep their bytes. -/
structure KeepsSlots (kernel : Vspace) (m m' : PhysMem) : Prop where
  slot : ∀ i, (tables m.ram kernel.pml4Ppn i).present →
    tables m'.ram kernel.pml4Ppn i = tables m.ram kernel.pml4Ppn i
  keeps : ∀ f, ¬ m.Free f → ¬ IsTable m kernel f →
    ¬ IsTable m' kernel f ∧ ∀ i, tables m'.ram f i = tables m.ram f i

/-- The entries of the PML4 table are those of the empty path. -/
theorem entry_nil (m : PhysMem) (vs : Vspace) (i : Fin 512) :
    entry m vs [] i = some (tables m.ram vs.pml4Ppn i) := rfl

variable {kernel : Vspace} {m m' : PhysMem}

theorem Installed.slot {p : Path} {i j : Fin 512} {g : Nat} (h : Installed kernel m p i g m')
    (hpres : (tables m.ram kernel.pml4Ppn j).present) :
    tables m'.ram kernel.pml4Ppn j = tables m.ram kernel.pml4Ppn j := by
  have hkeep : entry m' kernel [] j = entry m kernel [] j := by
    refine h.entry_keep [] j (Nat.zero_le 3) ?_ (by simp)
    -- a table is added below an entry that is not present
    rintro ⟨rfl, rfl⟩
    have hnone := h.empty
    rw [walk_snoc_entry, entry_nil, Option.bind_some, Gpte.child, if_pos hpres] at hnone
    cases hnone
  exact Option.some.inj hkeep

theorem Grows.keepsSlots {path : Path} (h : Grows kernel path m m') : KeepsSlots kernel m m' where
  slot := by
    induction h with
    | refl => exact fun _ _ => rfl
    | install hi _ _ ih =>
        intro i hpres
        have heq := hi.slot hpres
        rw [ih i (by rw [heq]; exact hpres), heq]
  keeps := by
    intro f hused hf
    obtain ⟨hf', hram⟩ := h.keeps hused hf
    exact ⟨hf', fun i => tables_congr hram i⟩

theorem EntrySet.keepsSlots {virt : Nat} {e : Gpte} (h : EntrySet kernel m virt e m') :
    KeepsSlots kernel m m' where
  slot := by
    intro i _
    have hkeep : entry m' kernel [] i = entry m kernel [] i :=
      h.entry_keep [] i (Nat.zero_le 3) (by simp [ptblPath])
    exact Option.some.inj hkeep
  keeps := by
    intro f _ hf
    refine ⟨fun ht => hf (h.isTable_iff.mp ht), fun i => tables_congr (fun x hx => ?_) i⟩
    exact h.ram_keep x (by rw [hx]; exact hf)

theorem KeepsSlots.trans {m'' : PhysMem} (h : KeepsSlots kernel m m')
    (h' : KeepsSlots kernel m' m'') (hfree : ∀ f, m'.Free f → m.Free f) :
    KeepsSlots kernel m m'' where
  slot := by
    intro i hpres
    have heq := h.slot i hpres
    rw [h'.slot i (by rw [heq]; exact hpres), heq]
  keeps := by
    intro f hused hf
    obtain ⟨hf1, htab1⟩ := h.keeps f hused hf
    obtain ⟨hf2, htab2⟩ := h'.keeps f (fun hfr => hused (hfree f hfr)) hf1
    exact ⟨hf2, fun i => (htab2 i).trans (htab1 i)⟩

/-- Nothing is written to a frame in use. -/
theorem TablesKept.keepsSlots (h : TablesKept m m') (hused : TablesUsed m kernel) :
    KeepsSlots kernel m m' where
  slot := fun i _ => h _ (hused _ ⟨[], Nat.zero_le 3, rfl⟩) i
  keeps := fun f hf hnot => ⟨fun ht => hnot ((h.isTable_iff hused).mp ht), h f hf⟩

/-- `vspace_map` for the kernel. -/
theorem Mapped.keepsSlots {virt phys flags : Nat} (h : Mapped kernel m virt phys flags m') :
    KeepsSlots kernel m m' ∧ ∀ f, m'.Free f → m.Free f := by
  cases h with
  | present _ =>
      have hrefl : Grows kernel [] m m := .refl
      exact ⟨hrefl.keepsSlots, fun _ hf => hf⟩
  | added _ hg hset hfp _ =>
      refine ⟨hg.keepsSlots.trans hset.keepsSlots fun _ hf => hg.free_le hf, fun f hf => ?_⟩
      rw [PhysMem.Free, hfp] at hf
      exact hg.free_le hf

/-! ## Address spaces and the kernel -/

/-- An address space of a process, and memory when `vspace_create` was called for it. -/
structure Space where
  vspace : Vspace
  born : PhysMem

/-- The kernel had this slot of the PML4 table when the address space was made. -/
def Space.HasSlot (p : Space) (kernel : Vspace) (i : Fin 512) : Prop :=
  (tables p.born.ram kernel.pml4Ppn i).present

/-- Memory and the address spaces that were made. -/
structure Spaces where
  mem : PhysMem
  procs : List Space

/-- What is done with the kernel's half. -/
inductive KernelCall where
  /-- `vspace_create`. -/
  | create
  /-- `alloc_page`, for a frame that is mapped later. -/
  | alloc
  /-- `vspace_map` on `VSPACE_KERNEL`. -/
  | map (virt phys flags : Nat)
  /-- `vspace_unmap` on `VSPACE_KERNEL`. -/
  | unmap (virt : Nat)

/-- The calls that return. -/
inductive SpacesStep (kernel : Vspace) : Spaces → KernelCall → Spaces → Prop where
  | create {s : Spaces} {vs : Vspace} {m' : PhysMem} : vspaceCreate s.mem kernel = .ret (vs, m') →
      SpacesStep kernel s .create ⟨m', ⟨vs, s.mem⟩ :: s.procs⟩
  | alloc {s : Spaces} {ppn : Nat} {m' : PhysMem} : allocPage s.mem = .ret (ppn, m') →
      SpacesStep kernel s .alloc { s with mem := m' }
  | map {s : Spaces} {virt phys flags : Nat} {m' : PhysMem} :
      vspaceMap s.mem kernel virt phys flags = .ret m' →
      SpacesStep kernel s (.map virt phys flags) { s with mem := m' }
  | unmap {s : Spaces} {virt : Nat} :
      SpacesStep kernel s (.unmap virt) { s with mem := (vspaceUnmap s.mem kernel virt).2 }

/-- `vspace_unmap` gives the frame of the page back.  The kernel calls it for pages that it
mapped to frames of its own, which are neither its tables nor PML4 tables of processes. -/
def ReleasesNoTable (kernel : Vspace) (s : Spaces) : KernelCall → Prop
  | .unmap virt => ∀ mp, translation s.mem kernel virt = some mp →
      ¬ IsTable s.mem kernel mp.ppn ∧ ∀ p ∈ s.procs, mp.ppn ≠ p.vspace.pml4Ppn
  | _ => True

/-- The PML4 table of an address space is its own, and it has the slots that the kernel had
when it was made. -/
structure Shares (kernel : Vspace) (m : PhysMem) (p : Space) : Prop where
  used : ¬ m.Free p.vspace.pml4Ppn
  not_table : ¬ IsTable m kernel p.vspace.pml4Ppn
  slots : ∀ i : Fin 512, 256 ≤ i.val → p.HasSlot kernel i →
    (tables m.ram kernel.pml4Ppn i).present ∧
      tables m.ram p.vspace.pml4Ppn i = tables m.ram kernel.pml4Ppn i

theorem Shares.step {p : Space} (h : Shares kernel m p) (hkeep : KeepsSlots kernel m m')
    (hused : ¬ m'.Free p.vspace.pml4Ppn) : Shares kernel m' p := by
  obtain ⟨hnot, htab⟩ := hkeep.keeps _ h.used h.not_table
  refine ⟨hused, hnot, fun i hi hslot => ?_⟩
  obtain ⟨hpres, heq⟩ := h.slots i hi hslot
  rw [hkeep.slot i hpres, htab]
  exact ⟨hpres, heq⟩

/-- The tables that a present slot leads to are the same in the two address spaces. -/
theorem Shares.walk_eq {p : Space} (h : Shares kernel m p) {i : Fin 512} (hi : 256 ≤ i.val)
    (hslot : p.HasSlot kernel i) (q : Path) :
    walk m p.vspace (i :: q) = walk m kernel (i :: q) := by
  rw [walk, walk, Radix.node, Radix.node, (h.slots i hi hslot).2]

/-- What every call keeps. -/
structure SharedHalf (kernel : Vspace) (s : Spaces) : Prop where
  separated : Separated s.mem kernel
  used : TablesUsed s.mem kernel
  procs : ∀ p ∈ s.procs, Shares kernel s.mem p

namespace SharedHalf

variable {s : Spaces}

theorem create (h : SharedHalf kernel s) {vs : Vspace}
    (hret : vspaceCreate s.mem kernel = .ret (vs, m')) :
    SharedHalf kernel ⟨m', ⟨vs, s.mem⟩ :: s.procs⟩ := by
  have hc := vspaceCreate_ret h.used hret
  have hkept := hc.tablesKept
  have hkeep : KeepsSlots kernel s.mem m' := hkept.keepsSlots h.used
  have hfree : ∀ f, m'.Free f → s.mem.Free f := fun f hf => ((hc.free_iff f).mp hf).1
  refine ⟨Radix.Separated.of_node_eq h.separated fun q hq => hkept.walk_eq h.used (by omega),
    fun f hf hfr => h.used f ((hkept.isTable_iff h.used).mp hf) (hfree f hfr), fun p hp => ?_⟩
  rcases List.mem_cons.mp hp with rfl | hp
  · have hnot : ¬ IsTable s.mem kernel vs.pml4Ppn := fun ht => h.used _ ht hc.free
    refine ⟨fun hfr => ((hc.free_iff _).mp hfr).2 rfl,
      fun ht => hnot ((hkept.isTable_iff h.used).mp ht), fun i hi hslot => ?_⟩
    rw [hkeep.slot i hslot, hc.tables_eq, if_pos rfl, if_pos hi]
    exact ⟨hslot, rfl⟩
  · exact (h.procs p hp).step hkeep fun hfr => (h.procs p hp).used (hfree _ hfr)

theorem alloc (h : SharedHalf kernel s) {ppn : Nat} (hret : allocPage s.mem = .ret (ppn, m')) :
    SharedHalf kernel { s with mem := m' } := by
  have ha := allocPage_ret hret
  have hkept := ha.tablesKept
  have hfree : ∀ f, m'.Free f → s.mem.Free f := fun f hf => ((ha.free_iff f).mp hf).1
  refine ⟨Radix.Separated.of_node_eq h.separated fun q hq => hkept.walk_eq h.used (by omega),
    fun f hf hfr => h.used f ((hkept.isTable_iff h.used).mp hf) (hfree f hfr), fun p hp => ?_⟩
  exact (h.procs p hp).step (hkept.keepsSlots h.used) fun hfr => (h.procs p hp).used (hfree _ hfr)

theorem mapped (h : SharedHalf kernel s) {virt phys flags : Nat}
    (hret : vspaceMap s.mem kernel virt phys flags = .ret m') :
    Mapped kernel s.mem virt phys flags m' := by
  rcases vspaceMap_cases virt phys flags h.separated h.used with hp | ⟨m1, h1, hmapped⟩
  · exact absurd (hret.symm.trans hp) (nomatch ·)
  · rw [Outcome.ret.inj (hret.symm.trans h1)]
    exact hmapped

theorem map (h : SharedHalf kernel s) {virt phys flags : Nat}
    (hret : vspaceMap s.mem kernel virt phys flags = .ret m') :
    SharedHalf kernel { s with mem := m' } := by
  have hmapped := h.mapped hret
  obtain ⟨hkeep, hfree⟩ := hmapped.keepsSlots
  have hprocs : ∀ p ∈ s.procs, Shares kernel m' p := fun p hp =>
    (h.procs p hp).step hkeep fun hfr => (h.procs p hp).used (hfree _ hfr)
  cases hmapped with
  | present _ => exact h
  | added _ hg hset hfp _ =>
      exact ⟨hset.separated (hg.separated h.separated),
        hset.tablesUsed (hg.tablesUsed h.used) hfp, hprocs⟩

theorem unmap (h : SharedHalf kernel s) {virt : Nat}
    (hok : ReleasesNoTable kernel s (.unmap virt)) :
    SharedHalf kernel { s with mem := (vspaceUnmap s.mem kernel virt).2 } := by
  rcases vspaceUnmap_cases virt h.separated with heq | ⟨mp, m1, htr, heq, hset, hfp⟩
  · rw [heq]
    exact h
  obtain ⟨hnot, hprocs⟩ := hok mp htr
  have hused := hset.tablesUsed h.used hfp
  have hfree : ∀ f, f ≠ mp.ppn → (freePage m1 mp.ppn).Free f → s.mem.Free f := by
    intro f hne hfr
    have hfr1 := (freePage_free.mp hfr).resolve_right fun he => hne he.1
    rw [PhysMem.Free, hfp] at hfr1
    exact hfr1
  have hkept : TablesKept m1 (freePage m1 mp.ppn) := fun f _ i => by rw [freePage_ram]
  rw [heq]
  refine ⟨Radix.Separated.of_node_eq (hset.separated h.separated) fun q hq =>
    hkept.walk_eq hused (by omega), fun f hf hfr => ?_, fun p hp => ?_⟩
  · have hf' : IsTable s.mem kernel f := hset.isTable_iff.mp ((hkept.isTable_iff hused).mp hf)
    refine h.used f hf' (hfree f ?_ hfr)
    rintro rfl
    exact hnot hf'
  · have hp' := h.procs p hp
    refine hp'.step (hset.keepsSlots.trans (hkept.keepsSlots hused) fun f hfr => ?_)
      fun hfr => hp'.used (hfree _ (hprocs p hp).symm hfr)
    rw [PhysMem.Free, hfp] at hfr
    exact hfr

theorem step {s' : Spaces} {call : KernelCall} (h : SharedHalf kernel s)
    (hstep : Guarded (SpacesStep kernel) (ReleasesNoTable kernel) s call s') :
    SharedHalf kernel s' := by
  obtain ⟨hstep, hok⟩ := hstep
  cases hstep with
  | create hret => exact h.create hret
  | alloc hret => exact h.alloc hret
  | map hret => exact h.map hret
  | unmap => exact h.unmap hok

end SharedHalf

/-- **The half of the kernel is shared.**  Address spaces are made and kernel pages are
mapped and unmapped, in any order.  Every address space has the PML4 entry of the kernel in
each upper slot that the kernel had when it was made, and translates every page there as the
kernel does now. -/
theorem kernel_half_shared {m0 : PhysMem} {calls : List KernelCall} {s : Spaces}
    (hsep : Separated m0 kernel) (hused : TablesUsed m0 kernel)
    (hrun : Run (Guarded (SpacesStep kernel) (ReleasesNoTable kernel)) ⟨m0, []⟩ calls s) :
    ∀ p ∈ s.procs, ∀ virt, 2 ^ 35 ≤ virt % 2 ^ 36 → p.HasSlot kernel (tableIndex virt 27) →
      tables s.mem.ram p.vspace.pml4Ppn (tableIndex virt 27) =
          tables s.mem.ram kernel.pml4Ppn (tableIndex virt 27) ∧
        translation s.mem p.vspace virt = translation s.mem kernel virt := by
  have h : SharedHalf kernel s :=
    hrun.invariant (fun _ _ _ h hstep => h.step hstep) ⟨hsep, hused, by simp⟩
  intro p hp virt hvirt hslot
  have hi : 256 ≤ (tableIndex virt 27).val := by
    rw [tableIndex, Fin.val_ofNat, Nat.shiftRight_eq_div_pow]
    omega
  have hs := h.procs p hp
  refine ⟨(hs.slots _ hi hslot).2, ?_⟩
  rw [translation_eq, translation_eq, entry_eq, entry_eq, ptblPath, hs.walk_eq hi hslot]

/-- The kernel has a page when a process is made.  It unmaps the page and maps the next one,
and the process sees both changes. -/
theorem kernel_half_shared_later_page : ∃ s p calls,
    Run (Guarded (SpacesStep ⟨0⟩) (ReleasesNoTable ⟨0⟩)) ⟨emptyMachine, []⟩ calls s ∧
      p ∈ s.procs ∧
      translation p.born ⟨0⟩ 0x800000000 ≠ none ∧
      translation s.mem p.vspace 0x800000000 = none ∧
      translation p.born ⟨0⟩ 0x800000001 = none ∧
      translation s.mem p.vspace 0x800000001 ≠ none := by
  have hcompute : (do
      let taken1 ← allocPage emptyMachine
      let m2 ← vspaceMap taken1.2 ⟨0⟩ 0x800000000 taken1.1 2
      let created ← vspaceCreate m2 ⟨0⟩
      let taken2 ← allocPage (vspaceUnmap created.2 ⟨0⟩ 0x800000000).2
      let m5 ← vspaceMap taken2.2 ⟨0⟩ 0x800000001 taken2.1 2
      .ret (decide (¬ taken1.2.Free 1 ∧ (tables m2.ram 0 (tableIndex 0x800000000 27)).present ∧
        (tables m2.ram 0 (tableIndex 0x800000001 27)).present ∧
        translation m2 ⟨0⟩ 0x800000000 ≠ none ∧ translation m2 ⟨0⟩ 0x800000001 = none ∧
        (translation created.2 ⟨0⟩ 0x800000000).map Mapping.ppn = some 1 ∧ created.1.pml4Ppn ≠ 1 ∧
        translation m5 ⟨0⟩ 0x800000000 = none ∧ translation m5 ⟨0⟩ 0x800000001 ≠ none))) =
      Outcome.ret true := by decide +kernel
  obtain ⟨⟨f, m1⟩, halloc1, hrest⟩ := Outcome.bind_eq_ret.mp hcompute
  obtain ⟨m2, hmap1, hrest⟩ := Outcome.bind_eq_ret.mp hrest
  obtain ⟨⟨vs, m3⟩, hcreate, hrest⟩ := Outcome.bind_eq_ret.mp hrest
  obtain ⟨⟨g, m4⟩, halloc2, hrest⟩ := Outcome.bind_eq_ret.mp hrest
  obtain ⟨m5, hmap2, hvals⟩ := Outcome.bind_eq_ret.mp hrest
  obtain ⟨hinuse, hslot0, hslot1, hborn0, hborn1, hframe, hvs, hgone, hthere⟩ :=
    of_decide_eq_true (Outcome.ret.inj hvals)
  have h0 : SharedHalf ⟨0⟩ ⟨emptyMachine, []⟩ :=
    ⟨emptyMachine_kernel.separated, emptyMachine_kernel.used, by simp⟩
  have h1 := h0.alloc halloc1
  have h2 := h1.map hmap1
  -- the frame of the page is not a table, and no table is added in it
  have hnot1 : ¬ IsTable m1 ⟨0⟩ 1 := fun ht =>
    absurd (emptyMachine_isTable (((allocPage_ret halloc1).tablesKept.isTable_iff h0.used).mp ht))
      (by decide)
  have hnot2 : ¬ IsTable m2 ⟨0⟩ 1 := ((h1.mapped hmap1).keepsSlots.1.keeps 1 hinuse hnot1).1
  have hnot3 : ¬ IsTable m3 ⟨0⟩ 1 := fun ht =>
    hnot2 (((vspaceCreate_ret h2.used hcreate).tablesKept.isTable_iff h2.used).mp ht)
  have hok : ReleasesNoTable ⟨0⟩ ⟨m3, [⟨vs, m2⟩]⟩ (.unmap 0x800000000) := by
    intro mp hmp
    have hone : mp.ppn = 1 := by
      rw [hmp] at hframe
      exact Option.some.inj hframe
    rw [hone]
    exact ⟨hnot3, by simpa using hvs.symm⟩
  have hrun : Run (Guarded (SpacesStep ⟨0⟩) (ReleasesNoTable ⟨0⟩)) ⟨emptyMachine, []⟩
      [.alloc, .map 0x800000000 f 2, .create, .unmap 0x800000000, .alloc, .map 0x800000001 g 2]
      ⟨m5, [⟨vs, m2⟩]⟩ :=
    .cons ⟨.alloc halloc1, trivial⟩ (.cons ⟨.map hmap1, trivial⟩ (.cons ⟨.create hcreate, trivial⟩
      (.cons ⟨.unmap, hok⟩ (.cons ⟨.alloc halloc2, trivial⟩ (.cons ⟨.map hmap2, trivial⟩ .nil)))))
  have hshared := kernel_half_shared emptyMachine_kernel.separated emptyMachine_kernel.used hrun
    ⟨vs, m2⟩ List.mem_cons_self
  refine ⟨_, ⟨vs, m2⟩, _, hrun, List.mem_cons_self, hborn0, ?_, hborn1, ?_⟩
  · rw [(hshared 0x800000000 (by decide) hslot0).2]
    exact hgone
  · rw [(hshared 0x800000001 (by decide) hslot1).2]
    exact hthere

/-- A page of the kernel is mapped to the PML4 table of a process and unmapped again.  Its frame
is free then, and the next table of the kernel is put into it. -/
theorem pml4_released_not_shared : ¬ ∀ (m0 : PhysMem) (kernel : Vspace) (calls : List KernelCall)
    (s : Spaces), Separated m0 kernel → TablesUsed m0 kernel →
    Run (SpacesStep kernel) ⟨m0, []⟩ calls s →
    ∀ p ∈ s.procs, ∀ virt, 2 ^ 35 ≤ virt % 2 ^ 36 → p.HasSlot kernel (tableIndex virt 27) →
      translation s.mem p.vspace virt = translation s.mem kernel virt := by
  intro hshared
  have hcompute : (do
      let taken ← allocPage emptyMachine
      let m2 ← vspaceMap taken.2 ⟨0⟩ 0x800000000 taken.1 2
      let created ← vspaceCreate m2 ⟨0⟩
      let m4 ← vspaceMap created.2 ⟨0⟩ 0x800000001 created.1.pml4Ppn 2
      let m6 ← vspaceMap (vspaceUnmap m4 ⟨0⟩ 0x800000001).2 ⟨0⟩ 0x800000200 taken.1 2
      .ret (decide ((tables m2.ram 0 (tableIndex 0x800000000 27)).present ∧
        translation m6 created.1 0x800000000 ≠ translation m6 ⟨0⟩ 0x800000000))) =
      Outcome.ret true := by decide +kernel
  obtain ⟨⟨f, m1⟩, halloc, hrest⟩ := Outcome.bind_eq_ret.mp hcompute
  obtain ⟨m2, hmap1, hrest⟩ := Outcome.bind_eq_ret.mp hrest
  obtain ⟨⟨vs, m3⟩, hcreate, hrest⟩ := Outcome.bind_eq_ret.mp hrest
  obtain ⟨m4, hmap2, hrest⟩ := Outcome.bind_eq_ret.mp hrest
  obtain ⟨m6, hmap3, hvals⟩ := Outcome.bind_eq_ret.mp hrest
  obtain ⟨hslot, hdiffer⟩ := of_decide_eq_true (Outcome.ret.inj hvals)
  have hrun : Run (SpacesStep ⟨0⟩) ⟨emptyMachine, []⟩
      [.alloc, .map 0x800000000 f 2, .create, .map 0x800000001 vs.pml4Ppn 2, .unmap 0x800000001,
        .map 0x800000200 f 2] ⟨m6, [⟨vs, m2⟩]⟩ :=
    .cons (.alloc halloc) (.cons (.map hmap1) (.cons (.create hcreate) (.cons (.map hmap2)
      (.cons .unmap (.cons (.map hmap3) .nil)))))
  exact hdiffer (hshared emptyMachine ⟨0⟩ _ _ emptyMachine_kernel.separated
    emptyMachine_kernel.used hrun ⟨vs, m2⟩ List.mem_cons_self 0x800000000 (by decide) hslot)

end UlmerOS
