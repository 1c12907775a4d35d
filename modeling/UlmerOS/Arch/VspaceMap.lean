import UlmerOS.Arch.Vspace

/-!
# What mapping and unmapping do to the tables

The four levels of an address space are a radix tree of depth three whose tables
are frames.  `vspace_map` adds at most three empty tables on the path of the page
(`Grows`) and then writes the entry of the page if it is not present
(`EntrySet`).  `vspace_unmap` clears one entry.

All of this is said about trees that are separated and whose tables are not free.
A table that is added is a free frame, so it was nowhere in the tree before.
-/

namespace UlmerOS

open ByteMem

/-- Indices from the PML4 table down. -/
abbrev Path := List (Fin 512)

/-- The path of a virtual page number. -/
def pagePath (virt : Nat) : Path :=
  [tableIndex virt 27, tableIndex virt 18, tableIndex virt 9, tableIndex virt 0]

/-- The path of the page table of a virtual page number. -/
def ptblPath (virt : Nat) : Path :=
  [tableIndex virt 27, tableIndex virt 18, tableIndex virt 9]

theorem pagePath_eq (virt : Nat) : pagePath virt = ptblPath virt ++ [tableIndex virt 0] := rfl

/-- The path has the low 36 bits of the page number and no more. -/
theorem pagePath_inj {v w : Nat} : pagePath v = pagePath w ↔ v % 2 ^ 36 = w % 2 ^ 36 := by
  simp only [pagePath, tableIndex, List.cons.injEq, and_true, Fin.ext_iff, Fin.val_ofNat,
    Nat.shiftRight_eq_div_pow]
  omega

/-- The frame that a path leads to. -/
def walk (m : PhysMem) (vs : Vspace) (p : Path) : Option Nat :=
  Radix.node Gpte.child (tables m.ram) vs.pml4Ppn p

/-- The entry at an index of the table that a path leads to. -/
def entry (m : PhysMem) (vs : Vspace) (p : Path) (i : Fin 512) : Option Gpte :=
  Radix.cell Gpte.child (tables m.ram) vs.pml4Ppn p i

/-- The frame is a table of the address space. -/
def IsTable (m : PhysMem) (vs : Vspace) (f : Nat) : Prop :=
  ∃ q : Path, q.length ≤ 3 ∧ walk m vs q = some f

/-- The tables of an address space are distinct frames. -/
def Separated (m : PhysMem) (vs : Vspace) : Prop :=
  Radix.Separated Gpte.child (tables m.ram) vs.pml4Ppn 3

/-- No free frame is a table of the address space. -/
def TablesUsed (m : PhysMem) (vs : Vspace) : Prop := ∀ f, IsTable m vs f → ¬ m.Free f

theorem walk_snoc (m : PhysMem) (vs : Vspace) (p : Path) (i : Fin 512) :
    walk m vs (p ++ [i]) = (walk m vs p).bind fun f => (tables m.ram f i).child :=
  Radix.node_snoc _ _ _

theorem walk_snoc_entry (m : PhysMem) (vs : Vspace) (p : Path) (i : Fin 512) :
    walk m vs (p ++ [i]) = (entry m vs p i).bind Gpte.child :=
  Radix.node_snoc_cell _ _ _

theorem entry_eq (m : PhysMem) (vs : Vspace) (p : Path) (i : Fin 512) :
    entry m vs p i = (walk m vs p).map fun f => tables m.ram f i := rfl

/-- A frame whose bytes did not change holds the same table. -/
theorem tables_congr {ram ram' : Mem} {f : Nat} (h : ∀ x, x / pageSize = f → ram' x = ram x)
    (i : Fin 512) : tables ram' f i = tables ram f i := by
  have hi := i.isLt
  rw [tables, tables]
  refine congrArg Gpte.decode (load_congr fun x h1 h2 => h x ?_)
  rw [pageSize] at *
  omega

theorem walk_congr {m m' : PhysMem} {vs : Vspace}
    (h : ∀ x, IsTable m vs (x / pageSize) → m'.ram x = m.ram x) {q : Path} (hq : q.length ≤ 4) :
    walk m' vs q = walk m vs q := by
  refine Radix.node_congr (d := 3) (fun p f i hp hf => ?_) hq
  refine tables_congr (fun x hx => h x ⟨p, hp, ?_⟩) i
  rw [hx]
  exact hf

theorem entry_congr {m m' : PhysMem} {vs : Vspace}
    (h : ∀ x, IsTable m vs (x / pageSize) → m'.ram x = m.ram x) {q : Path} (hq : q.length ≤ 3)
    (i : Fin 512) : entry m' vs q i = entry m vs q i := by
  rw [entry_eq, entry_eq, walk_congr h (by omega)]
  cases hf : walk m vs q with
  | none => rfl
  | some f =>
      refine congrArg some (tables_congr (fun x hx => h x ⟨q, hq, ?_⟩) i)
      rw [hx]
      exact hf

/-! ## The mapping of a page -/

/-- What a page is mapped to. -/
structure Mapping where
  ppn : Nat
  write : Bool
  user : Bool
  noExec : Bool
deriving DecidableEq, Repr

/-- The mapping that an entry of a page table is. -/
def Gpte.mapping (e : Gpte) : Option Mapping :=
  if e.present then some ⟨e.ppn, e.write, e.user, e.noExec⟩ else none

/-- The mapping that `flags` ask for. -/
def Mapping.ofFlags (phys flags : Nat) : Mapping where
  ppn := phys
  write := decide (flags &&& pgWrite ≠ 0)
  user := decide (flags &&& pgUser ≠ 0)
  noExec := decide (flags &&& pgNoexec ≠ 0)

/-- The mapping of a page, as `resolve_mapping` finds it. -/
def translation (m : PhysMem) (vs : Vspace) (virt : Nat) : Option Mapping :=
  match (resolveMapping m.ram vs virt).ptble with
  | none => none
  | some ptr => (ptr.read m.ram).mapping

/-! A frame that is given back keeps its bytes, and so do the tables. -/

@[simp] theorem walk_freePage (m : PhysMem) (f : Nat) (vs : Vspace) (p : Path) :
    walk (freePage m f) vs p = walk m vs p := by
  rw [walk, walk, freePage_ram]

@[simp] theorem entry_freePage (m : PhysMem) (f : Nat) (vs : Vspace) (p : Path) (i : Fin 512) :
    entry (freePage m f) vs p i = entry m vs p i := by
  rw [entry, entry, freePage_ram]

@[simp] theorem isTable_freePage {m : PhysMem} {f g : Nat} {vs : Vspace} :
    IsTable (freePage m f) vs g ↔ IsTable m vs g := by
  simp only [IsTable, walk_freePage]

@[simp] theorem separated_freePage {m : PhysMem} {f : Nat} {vs : Vspace} :
    Separated (freePage m f) vs ↔ Separated m vs := by
  rw [Separated, Separated, freePage_ram]

@[simp] theorem translation_freePage (m : PhysMem) (f : Nat) (vs : Vspace) (virt : Nat) :
    translation (freePage m f) vs virt = translation m vs virt := by
  rw [translation, translation, freePage_ram]

@[simp] theorem noGpte_mapping : noGpte.mapping = none := rfl

theorem Gpte.child_eq (e : Gpte) : e.child = e.mapping.map Mapping.ppn := by
  rw [child, mapping]
  split <;> rfl

/-! ## What `resolve_mapping` finds -/

/-- The pointers and frame numbers of `vaddr_t` are what the path leads to. -/
theorem resolveMapping_eq (m : PhysMem) (vs : Vspace) (virt : Nat) :
    resolveMapping m.ram vs virt =
      let pdpt := walk m vs [tableIndex virt 27]
      let pdir := walk m vs [tableIndex virt 27, tableIndex virt 18]
      let ptbl := walk m vs (ptblPath virt)
      let page := walk m vs (pagePath virt)
      { pml4Ppn := vs.pml4Ppn, pdptPpn := pdpt.getD 0, pdirPpn := pdir.getD 0,
        ptblPpn := ptbl.getD 0, pagePpn := page.getD 0
        pml4i := tableIndex virt 27, pdpti := tableIndex virt 18
        pdiri := tableIndex virt 9, ptbli := tableIndex virt 0
        pml4e := some ⟨vs.pml4Ppn, tableIndex virt 27⟩
        pdpte := pdpt.map fun f => ⟨f, tableIndex virt 18⟩
        pdire := pdir.map fun f => ⟨f, tableIndex virt 9⟩
        ptble := ptbl.map fun f => ⟨f, tableIndex virt 0⟩
        page := (page.map ppnToVirt).getD 0 } := by
  simp only [resolveMapping, walk, ptblPath, pagePath, Radix.node, Gpte.child, GptePtr.read]
  -- one level after the other: the next entry is known once this one is present
  by_cases h0 : (tables m.ram vs.pml4Ppn (tableIndex virt 27)).present
  · obtain ⟨pdpt, hpdpt⟩ : ∃ f, (tables m.ram vs.pml4Ppn (tableIndex virt 27)).ppn = f := ⟨_, rfl⟩
    simp only [h0, if_true, Option.bind_some, hpdpt]
    by_cases h1 : (tables m.ram pdpt (tableIndex virt 18)).present
    · obtain ⟨pdir, hpdir⟩ : ∃ f, (tables m.ram pdpt (tableIndex virt 18)).ppn = f := ⟨_, rfl⟩
      simp only [h1, if_true, Option.bind_some, hpdir]
      by_cases h2 : (tables m.ram pdir (tableIndex virt 9)).present
      · obtain ⟨ptbl, hptbl⟩ : ∃ f, (tables m.ram pdir (tableIndex virt 9)).ppn = f := ⟨_, rfl⟩
        simp only [h2, if_true, Option.bind_some, hptbl]
        by_cases h3 : (tables m.ram ptbl (tableIndex virt 0)).present
        · obtain ⟨page, hpage⟩ : ∃ f, (tables m.ram ptbl (tableIndex virt 0)).ppn = f := ⟨_, rfl⟩
          simp only [h3, if_true, hpage]
          -- by rewriting, so that nothing has to compute with the address
          rw [Option.bind_some, Option.map_some (f := ppnToVirt),
            Option.getD_some (a := ppnToVirt _)]
          rfl
        · simp [h3]
      · simp [h2]
    · simp [h1]
  · simp [h0]

theorem resolveMapping_pml4e (m : PhysMem) (vs : Vspace) (virt : Nat) :
    (resolveMapping m.ram vs virt).pml4e =
      (walk m vs []).map fun f => ⟨f, tableIndex virt 27⟩ := by
  rw [resolveMapping_eq]
  rfl

theorem resolveMapping_pdpte (m : PhysMem) (vs : Vspace) (virt : Nat) :
    (resolveMapping m.ram vs virt).pdpte =
      (walk m vs [tableIndex virt 27]).map fun f => ⟨f, tableIndex virt 18⟩ := by
  rw [resolveMapping_eq]

theorem resolveMapping_pdire (m : PhysMem) (vs : Vspace) (virt : Nat) :
    (resolveMapping m.ram vs virt).pdire =
      (walk m vs [tableIndex virt 27, tableIndex virt 18]).map fun f => ⟨f, tableIndex virt 9⟩ := by
  rw [resolveMapping_eq]

theorem resolveMapping_ptble (m : PhysMem) (vs : Vspace) (virt : Nat) :
    (resolveMapping m.ram vs virt).ptble =
      (walk m vs (ptblPath virt)).map fun f => ⟨f, tableIndex virt 0⟩ := by
  rw [resolveMapping_eq]

theorem resolveMapping_pagePpn (m : PhysMem) (vs : Vspace) (virt : Nat) :
    (resolveMapping m.ram vs virt).pagePpn = (walk m vs (pagePath virt)).getD 0 := by
  rw [resolveMapping_eq]

theorem resolveMapping_page (m : PhysMem) (vs : Vspace) (virt : Nat) :
    (resolveMapping m.ram vs virt).page =
      ((walk m vs (pagePath virt)).map ppnToVirt).getD 0 := by
  rw [resolveMapping_eq]

theorem translation_eq (m : PhysMem) (vs : Vspace) (virt : Nat) :
    translation m vs virt =
      (entry m vs (ptblPath virt) (tableIndex virt 0)).bind Gpte.mapping := by
  rw [translation, resolveMapping_ptble, entry_eq]
  cases walk m vs (ptblPath virt) <;> rfl

theorem translation_congr {m m' : PhysMem} {vs : Vspace}
    (h : ∀ x, IsTable m vs (x / pageSize) → m'.ram x = m.ram x) (virt : Nat) :
    translation m' vs virt = translation m vs virt := by
  rw [translation_eq, translation_eq, entry_congr h (q := ptblPath virt) (Nat.le_refl 3)]

/-- The mapping of a page depends on the low 36 bits of its number. -/
theorem translation_mod (m : PhysMem) (vs : Vspace) {v w : Nat} (h : v % 2 ^ 36 = w % 2 ^ 36) :
    translation m vs v = translation m vs w := by
  have heq := pagePath_inj.mpr h
  rw [pagePath_eq, pagePath_eq] at heq
  obtain ⟨h1, h2⟩ := List.append_inj' heq rfl
  rw [translation_eq, translation_eq, h1, (List.cons.inj h2).1]

/-- A page is mapped to the frame its path leads to. -/
theorem walk_pagePath (m : PhysMem) (vs : Vspace) (virt : Nat) :
    walk m vs (pagePath virt) = (translation m vs virt).map Mapping.ppn := by
  rw [pagePath_eq, walk_snoc_entry, translation_eq]
  cases entry m vs (ptblPath virt) (tableIndex virt 0) with
  | none => rfl
  | some e => exact e.child_eq

/-- The frames a pointer can be made for have one that is not `NULL`. -/
theorem ppnToVirt_ne_zero {p : Nat} (h : p < 2 ^ 35) : ppnToVirt p ≠ 0 := by
  rw [ppnToVirt, pageShift, Nat.shiftLeft_eq]
  simp only [wrap64, word, identOffset]
  omega

/-! ## Adding a table -/

/-- The entry `e` with the table in the frame `g` below it. -/
def tableEntry (e : Gpte) (g : Nat) : Gpte :=
  { e with present := true, write := true, user := true, ppn := Fin.ofNat (2 ^ 40) g }

theorem tableEntry_child (e : Gpte) {g : Nat} (hg : g < 2 ^ 40) :
    (tableEntry e g).child = some g := by
  rw [tableEntry, Gpte.child, if_pos rfl, Fin.val_ofNat, Nat.mod_eq_of_lt hg]

/-- An empty table, in a frame `g` that was free, was put below the entry `i` of
the table at `p`. -/
structure Installed (vs : Vspace) (m : PhysMem) (p : Path) (i : Fin 512) (g : Nat)
    (m' : PhysMem) : Prop where
  depth : p.length < 3
  free : m.Free g
  not_table : ¬ IsTable m vs g
  empty : walk m vs (p ++ [i]) = none
  walk_eq : ∀ q, q.length ≤ 4 →
    walk m' vs q = if q = p ++ [i] then some g else walk m vs q
  entry_self : ∃ e, entry m vs p i = some e ∧ entry m' vs p i = some (tableEntry e g)
  entry_new : ∀ j, entry m' vs (p ++ [i]) j = some noGpte
  entry_keep : ∀ q j, q.length ≤ 3 → ¬ (q = p ∧ j = i) → q ≠ p ++ [i] →
    entry m' vs q j = entry m vs q j
  free_iff : ∀ f, m'.Free f ↔ m.Free f ∧ f ≠ g
  size_eq : m'.size = m.size
  calls_eq : m'.calls = .alloc g :: m.calls
  ram_keep : ∀ x, ¬ IsTable m vs (x / pageSize) → x / pageSize ≠ g → m'.ram x = m.ram x

/-- The bytes of other frames do not change with an entry. -/
theorem write_ram (ptr : GptePtr) (ram : Mem) (e : Gpte) {x : Nat} (h : x / pageSize ≠ ptr.ppn) :
    ptr.write ram e x = ram x := by
  have hi := ptr.index.isLt
  rw [pageSize] at h
  rw [GptePtr.write, pageSize]
  exact store_of_not_mem (by omega)

theorem fill_ram (ram : Mem) {p x : Nat} (h : x / pageSize ≠ p) :
    fill ram (pageSize * p) pageSize 0 x = ram x := by
  rw [pageSize] at *
  exact fill_of_not_mem (by omega)

/-- The two writes of an entry and the allocation between them. -/
theorem tables_install (ram : Mem) (ptr : GptePtr) {g : Nat} (hg : g ≠ ptr.ppn) :
    let ram1 := ptr.write ram
      { ptr.read ram with present := true, write := true, user := true }
    let ram2 := fill ram1 (pageSize * g) pageSize 0
    let ram3 := ptr.write ram2 { ptr.read ram2 with ppn := Fin.ofNat (2 ^ 40) g }
    ∀ f j, tables ram3 f j =
      if f = ptr.ppn ∧ j = ptr.index then tableEntry (ptr.read ram) g
      else if f = g then noGpte else tables ram f j := by
  intro ram1 ram2 ram3 f j
  have hread : ptr.read ram2 =
      { ptr.read ram with present := true, write := true, user := true } := by
    rw [GptePtr.read, tables_fill, if_neg (Ne.symm hg), tables_write, if_pos ⟨rfl, rfl⟩]
  rw [tables_write, hread]
  split
  · rfl
  · rename_i hne
    rw [tables_fill, tables_write, if_neg hne]

theorem installed_of_alloc {vs : Vspace} {m m1 m2 : PhysMem} {p : Path} {i : Fin 512} {f g : Nat}
    (hsep : Separated m vs) (hused : TablesUsed m vs) (hp : p.length < 3)
    (hf : walk m vs p = some f) (hpres : ¬ (tables m.ram f i).present)
    (hm1 : m1 = GptePtr.modify ⟨f, i⟩
      (fun e => { e with present := true, write := true, user := true }) m)
    (halloc : allocPage m1 = .ret (g, m2)) :
    Installed vs m p i g
      (GptePtr.modify ⟨f, i⟩ (fun e => { e with ppn := Fin.ofNat (2 ^ 40) g }) m2) := by
  subst hm1
  have ha := allocPage_ret halloc
  have hfree : m.Free g := ha.free
  have hnot : ¬ IsTable m vs g := fun ht => hused g ht hfree
  have hgf : g ≠ f := by
    rintro rfl
    exact hnot ⟨p, by omega, hf⟩
  have hnone : (tables m.ram f i).child = none := by
    rw [Gpte.child, if_neg hpres]
  have htab := tables_install m.ram ⟨f, i⟩ hgf
  obtain ⟨m', hm'⟩ : ∃ m', m' =
    GptePtr.modify ⟨f, i⟩ (fun e => { e with ppn := Fin.ofNat (2 ^ 40) g }) m2 := ⟨_, rfl⟩
  rw [← hm']
  have hram : m'.ram = GptePtr.write ⟨f, i⟩ m2.ram
      { GptePtr.read ⟨f, i⟩ m2.ram with ppn := Fin.ofNat (2 ^ 40) g } := by rw [hm']; rfl
  have htab' : ∀ f' j, tables m'.ram f' j =
      if f' = f ∧ j = i then tableEntry (tables m.ram f i) g
      else if f' = g then noGpte else tables m.ram f' j := by
    rw [hram, ha.ram_eq]
    exact htab
  have hupd : Radix.Updated Gpte.child (tables m.ram) (tables m'.ram) vs.pml4Ppn 3 p i
      (tableEntry (tables m.ram f i) g) := by
    refine .of_separated hsep (by omega) hf (by rw [htab', if_pos ⟨rfl, rfl⟩]) ?_
    intro q f' j hq hf' hne
    rw [htab', if_neg hne, if_neg]
    rintro rfl
    exact hnot ⟨q, hq, hf'⟩
  have hchild := tableEntry_child (tables m.ram f i) (g := g) (by have := ha.lt; omega)
  have hempty : ∀ j, tables m'.ram g j = noGpte := fun j => by
    rw [htab', if_neg (fun h => hgf h.1), if_pos rfl]
  have hwalk : ∀ q, q.length ≤ 4 →
      walk m' vs q = if q = p ++ [i] then some g else walk m vs q := fun q hq =>
    hupd.node_install hp hf hnone hchild (fun j => by rw [hempty, noGpte_child]) hq
  have hnoneWalk : walk m vs (p ++ [i]) = none := by
    rw [walk_snoc, hf, Option.bind_some, hnone]
  exact {
    depth := hp
    free := hfree
    not_table := hnot
    empty := hnoneWalk
    walk_eq := hwalk
    entry_self := ⟨tables m.ram f i, by rw [entry_eq, hf]; rfl, hupd.cell_self (by omega)⟩
    entry_new := fun j => by
      rw [entry_eq, hwalk _ (by simp; omega), if_pos rfl, Option.map_some, hempty]
    entry_keep := by
      intro q j hq hne hqr
      exact hupd.cell_of_node_eq hq hne ((hwalk q (by omega)).trans (if_neg hqr))
    free_iff := by rw [hm']; exact ha.free_iff
    size_eq := by rw [hm']; exact ha.size_eq
    calls_eq := by rw [hm']; exact ha.calls_eq
    ram_keep := by
      intro x hx hxg
      have hxf : x / pageSize ≠ f := fun h => hx ⟨p, by omega, by rw [h]; exact hf⟩
      rw [hram, write_ram _ _ _ hxf, ha.ram_eq, fill_ram _ hxg,
        modify_ram, write_ram _ _ _ hxf] }

namespace Installed

variable {vs : Vspace} {m m' : PhysMem} {p : Path} {i : Fin 512} {g : Nat}

theorem separated (h : Installed vs m p i g m') (hsep : Separated m vs) : Separated m' vs := by
  refine Radix.Separated.of_node_install (r := p ++ [i]) (g := g) hsep ?_ ?_
  · exact fun q hq hw => h.not_table ⟨q, hq, hw⟩
  · exact fun q hq => h.walk_eq q (by omega)

/-- The tables are those there were and the one that was added. -/
theorem isTable_iff (h : Installed vs m p i g m') {f : Nat} :
    IsTable m' vs f ↔ IsTable m vs f ∨ f = g := by
  constructor
  · rintro ⟨q, hq, hw⟩
    rw [h.walk_eq q (by omega)] at hw
    split at hw
    · exact .inr (Option.some.inj hw).symm
    · exact .inl ⟨q, hq, hw⟩
  · rintro (⟨q, hq, hw⟩ | rfl)
    · refine ⟨q, hq, ?_⟩
      rw [h.walk_eq q (by omega), if_neg, hw]
      rintro rfl
      rw [h.empty] at hw
      cases hw
    · have hlen := h.depth
      refine ⟨p ++ [i], by simp; omega, ?_⟩
      rw [h.walk_eq _ (by simp; omega), if_pos rfl]

theorem tablesUsed (h : Installed vs m p i g m') (hused : TablesUsed m vs) :
    TablesUsed m' vs := by
  intro f hf hfree
  obtain ⟨hfree', hne⟩ := (h.free_iff f).mp hfree
  rcases h.isTable_iff.mp hf with hf' | rfl
  · exact hused f hf' hfree'
  · exact hne rfl

/-- No page is mapped or unmapped by a table that is added. -/
theorem translation_eq (h : Installed vs m p i g m') (virt : Nat) :
    translation m' vs virt = translation m vs virt := by
  have hlen := h.depth
  rw [UlmerOS.translation_eq, UlmerOS.translation_eq]
  by_cases hr : ptblPath virt = p ++ [i]
  · rw [hr, h.entry_new, entry_eq, h.empty]
    rfl
  · rw [h.entry_keep _ _ (by simp [ptblPath]) ?_ hr]
    rintro ⟨rfl, -⟩
    simp [ptblPath] at hlen

end Installed

/-- Tables were added on the path to a page. -/
inductive Grows (vs : Vspace) (path : Path) : PhysMem → PhysMem → Prop where
  | refl {m : PhysMem} : Grows vs path m m
  | install {m m1 m2 : PhysMem} {p : Path} {i : Fin 512} {g : Nat} :
      Installed vs m p i g m1 → p ++ [i] <+: path → Grows vs path m1 m2 → Grows vs path m m2

namespace Grows

variable {vs : Vspace} {m m' m'' : PhysMem} {path : Path}

theorem trans (h : Grows vs path m m') (h' : Grows vs path m' m'') : Grows vs path m m'' := by
  induction h with
  | refl => exact h'
  | install hi hp _ ih => exact .install hi hp (ih h')

theorem separated (h : Grows vs path m m') (hsep : Separated m vs) : Separated m' vs := by
  induction h with
  | refl => exact hsep
  | install hi _ _ ih => exact ih (hi.separated hsep)

theorem tablesUsed (h : Grows vs path m m') (hused : TablesUsed m vs) : TablesUsed m' vs := by
  induction h with
  | refl => exact hused
  | install hi _ _ ih => exact ih (hi.tablesUsed hused)

theorem translation_eq (h : Grows vs path m m') (virt : Nat) :
    translation m' vs virt = translation m vs virt := by
  induction h with
  | refl => rfl
  | install hi _ _ ih => rw [ih, hi.translation_eq]

theorem free_le (h : Grows vs path m m') {f : Nat} (hf : m'.Free f) : m.Free f := by
  induction h with
  | refl => exact hf
  | install hi _ _ ih => exact ((hi.free_iff f).mp (ih hf)).1

theorem size_eq (h : Grows vs path m m') : m'.size = m.size := by
  induction h with
  | refl => rfl
  | install hi _ _ ih => rw [ih, hi.size_eq]

/-- A frame that is in use and not a table keeps its bytes. -/
theorem keeps (h : Grows vs path m m') {f : Nat} (hused : ¬ m.Free f) (hf : ¬ IsTable m vs f) :
    ¬ IsTable m' vs f ∧ ∀ x, x / pageSize = f → m'.ram x = m.ram x := by
  induction h with
  | refl => exact ⟨hf, fun _ _ => rfl⟩
  | @install m m1 m2 p i g hi _ _ ih =>
      have hg : f ≠ g := by
        rintro rfl
        exact hused hi.free
      have hf1 : ¬ IsTable m1 vs f := fun ht => (hi.isTable_iff.mp ht).elim hf hg
      obtain ⟨hf2, hram⟩ := ih (fun hfree => hused ((hi.free_iff f).mp hfree).1) hf1
      refine ⟨hf2, fun x hx => ?_⟩
      rw [hram x hx]
      exact hi.ram_keep x (by rw [hx]; exact hf) (by rw [hx]; exact hg)

/-- Where the path leads somewhere there is no table to add. -/
theorem eq_of_walk (h : Grows vs path m m') {f : Nat} (hw : walk m vs path = some f) :
    m' = m := by
  cases h with
  | refl => rfl
  | install hi hp _ =>
      obtain ⟨g, hg⟩ := Radix.node_prefix hp hw
      exact absurd (hi.empty.symm.trans hg) (nomatch ·)

end Grows

/-- A block of `vspace_map` makes sure that there is a table below its entry, or no
frame is left for it. -/
theorem ensureTable_cases {vs : Vspace} {virt : Nat} {entryOf : Vaddr → Option GptePtr}
    {m : PhysMem} {p : Path} {i : Fin 512} {f : Nat}
    (hentry : entryOf (resolveMapping m.ram vs virt) = (walk m vs p).map fun f => ⟨f, i⟩)
    (hsep : Separated m vs) (hused : TablesUsed m vs) (hp : p.length < 3)
    (hpre : p ++ [i] <+: pagePath virt) (hf : walk m vs p = some f) :
    ensureTable vs virt entryOf m (resolveMapping m.ram vs virt) =
        .panic "alloc_page() out of memory" ∨
      ∃ m', ensureTable vs virt entryOf m (resolveMapping m.ram vs virt) =
          .ret (m', resolveMapping m'.ram vs virt) ∧
        Grows vs (pagePath virt) m m' ∧ ∃ f', walk m' vs (p ++ [i]) = some f' := by
  rw [ensureTable, hentry, hf]
  simp only [Option.map_some]
  by_cases hpres : (GptePtr.read ⟨f, i⟩ m.ram).present
  · refine .inr ⟨m, by rw [if_pos hpres], .refl, ↑(tables m.ram f i).ppn, ?_⟩
    rw [walk_snoc, hf]
    exact if_pos hpres
  · rw [if_neg hpres]
    obtain ⟨m1, hm1⟩ : ∃ m1, m1 = GptePtr.modify ⟨f, i⟩
      (fun e => { e with present := true, write := true, user := true }) m := ⟨_, rfl⟩
    rw [← hm1]
    rcases allocPage_cases m1 with ha | ⟨g, m2, ha, -⟩
    · left
      rw [ha]
      rfl
    · right
      have hi := installed_of_alloc hsep hused hp hf hpres hm1 ha
      refine ⟨_, ?_, .install hi hpre .refl, g, ?_⟩
      · rw [ha]
        rfl
      · rw [hi.walk_eq _ (by simp; omega), if_pos rfl]

/-! ## Writing the entry of a page -/

/-- The entry of a page was set to `e`, and no other entry changed. -/
structure EntrySet (vs : Vspace) (m : PhysMem) (virt : Nat) (e : Gpte) (m' : PhysMem) : Prop where
  walk_eq : ∀ q, q.length ≤ 4 →
    walk m' vs q = if q = pagePath virt then e.child else walk m vs q
  entry_self : entry m' vs (ptblPath virt) (tableIndex virt 0) = some e
  entry_keep : ∀ q j, q.length ≤ 3 → ¬ (q = ptblPath virt ∧ j = tableIndex virt 0) →
    entry m' vs q j = entry m vs q j
  ram_keep : ∀ x, ¬ IsTable m vs (x / pageSize) → m'.ram x = m.ram x

theorem entrySet_of_write {vs : Vspace} {m m' : PhysMem} {virt t : Nat} {e : Gpte}
    (hsep : Separated m vs) (ht : walk m vs (ptblPath virt) = some t)
    (hram : m'.ram = GptePtr.write ⟨t, tableIndex virt 0⟩ m.ram e) : EntrySet vs m virt e m' := by
  have htab : ∀ f j, tables m'.ram f j =
      if f = t ∧ j = tableIndex virt 0 then e else tables m.ram f j := by
    intro f j
    rw [hram]
    exact tables_write _ _ _ _ _
  have hupd : Radix.Updated Gpte.child (tables m.ram) (tables m'.ram) vs.pml4Ppn 3
      (ptblPath virt) (tableIndex virt 0) e := by
    refine .of_separated hsep (Nat.le_refl 3) ht (by rw [htab, if_pos ⟨rfl, rfl⟩]) ?_
    intro q f j _ _ hne
    rw [htab, if_neg hne]
  refine ⟨fun q hq => hupd.node_last rfl hq, hupd.cell_self (Nat.le_refl 3), ?_, ?_⟩
  · intro q j hq hne
    refine hupd.cell_of_node_eq hq hne (hupd.node_of_not_prefix (by omega) fun hpre => ?_)
    exact Nat.not_succ_le_self 3 (hpre.length_le.trans hq)
  · intro x hx
    rw [hram]
    refine write_ram _ _ _ fun hxt => hx ⟨ptblPath virt, Nat.le_refl 3, ?_⟩
    rw [hxt]
    exact ht

namespace EntrySet

variable {vs : Vspace} {m m' : PhysMem} {virt : Nat} {e : Gpte}

theorem walk_of_length (h : EntrySet vs m virt e m') {q : Path} (hq : q.length ≤ 3) :
    walk m' vs q = walk m vs q := by
  rw [h.walk_eq q (by omega), if_neg]
  rintro rfl
  simp [pagePath] at hq

theorem separated (h : EntrySet vs m virt e m') (hsep : Separated m vs) : Separated m' vs :=
  Radix.Separated.of_node_eq hsep fun _ hq => h.walk_of_length hq

theorem isTable_iff (h : EntrySet vs m virt e m') {f : Nat} :
    IsTable m' vs f ↔ IsTable m vs f := by
  constructor
  · rintro ⟨q, hq, hw⟩
    exact ⟨q, hq, by rw [← h.walk_of_length hq]; exact hw⟩
  · rintro ⟨q, hq, hw⟩
    exact ⟨q, hq, by rw [h.walk_of_length hq]; exact hw⟩

theorem tablesUsed (h : EntrySet vs m virt e m') (hused : TablesUsed m vs)
    (hfp : m'.freePages = m.freePages) : TablesUsed m' vs := by
  intro f hf hfree
  rw [PhysMem.Free, hfp] at hfree
  exact hused f (h.isTable_iff.mp hf) hfree

/-- One page changed its mapping. -/
theorem translation_eq (h : EntrySet vs m virt e m') (w : Nat) :
    translation m' vs w = if w % 2 ^ 36 = virt % 2 ^ 36 then e.mapping else translation m vs w := by
  rw [UlmerOS.translation_eq, UlmerOS.translation_eq]
  split
  · rename_i hw
    have heq := pagePath_inj.mpr hw
    rw [pagePath_eq, pagePath_eq] at heq
    obtain ⟨h1, h2⟩ := List.append_inj' heq rfl
    rw [h1, (List.cons.inj h2).1, h.entry_self]
    rfl
  · rename_i hw
    rw [h.entry_keep (ptblPath w) (tableIndex w 0) (Nat.le_refl 3)]
    rintro ⟨h1, h2⟩
    refine hw (pagePath_inj.mp ?_)
    rw [pagePath_eq, pagePath_eq, h1, h2]

end EntrySet

/-- The entry of a page that `vspace_map` writes over `e`. -/
def pageEntry (e : Gpte) (phys flags : Nat) : Gpte :=
  { e with
    present := true
    noExec := decide (flags &&& pgNoexec ≠ 0)
    write := decide (flags &&& pgWrite ≠ 0)
    user := decide (flags &&& pgUser ≠ 0)
    ppn := Fin.ofNat (2 ^ 40) phys }

theorem pageEntry_mapping (e : Gpte) (flags : Nat) {phys : Nat} (h : phys < 2 ^ 40) :
    (pageEntry e phys flags).mapping = some (Mapping.ofFlags phys flags) := by
  rw [pageEntry, Gpte.mapping, if_pos rfl, Fin.val_ofNat, Nat.mod_eq_of_lt h]
  rfl

/-- `vspace_map` left a page alone that was mapped, or it added the tables that were
missing and wrote the entry of the page. -/
inductive Mapped (vs : Vspace) (m : PhysMem) (virt phys flags : Nat) : PhysMem → Prop where
  | present : translation m vs virt ≠ none → Mapped vs m virt phys flags m
  | added {m1 m' : PhysMem} {e : Gpte} : translation m vs virt = none →
      Grows vs (pagePath virt) m m1 → EntrySet vs m1 virt (pageEntry e phys flags) m' →
      m'.freePages = m1.freePages → m'.calls = m1.calls → Mapped vs m virt phys flags m'

/-- The last block of `vspace_map`. -/
theorem mapEntry_cases {vs : Vspace} {m : PhysMem} {virt t : Nat} (phys flags : Nat)
    (hsep : Separated m vs) (ht : walk m vs (ptblPath virt) = some t) :
    (translation m vs virt ≠ none ∧
      mapEntry (some ⟨t, tableIndex virt 0⟩) phys flags m = .ret m) ∨
    (translation m vs virt = none ∧ ∃ m' e,
      mapEntry (some ⟨t, tableIndex virt 0⟩) phys flags m = .ret m' ∧
        EntrySet vs m virt (pageEntry e phys flags) m' ∧
        m'.freePages = m.freePages ∧ m'.calls = m.calls) := by
  have htrans : translation m vs virt = (GptePtr.read ⟨t, tableIndex virt 0⟩ m.ram).mapping := by
    rw [translation_eq, entry_eq, ht]
    rfl
  rw [htrans, mapEntry, Gpte.mapping]
  by_cases hpres : (GptePtr.read ⟨t, tableIndex virt 0⟩ m.ram).present
  · exact .inl ⟨by rw [if_pos hpres]; nofun, if_pos hpres⟩
  · refine .inr ⟨if_neg hpres, _, GptePtr.read ⟨t, tableIndex virt 0⟩ m.ram, if_neg hpres, ?_⟩
    exact ⟨entrySet_of_write hsep ht rfl, rfl, rfl⟩

/-- `vspace_map` returns, or no frame is left for a table. -/
theorem vspaceMap_cases {vs : Vspace} {m : PhysMem} (virt phys flags : Nat)
    (hsep : Separated m vs) (hused : TablesUsed m vs) :
    vspaceMap m vs virt phys flags = .panic "alloc_page() out of memory" ∨
      ∃ m', vspaceMap m vs virt phys flags = .ret m' ∧ Mapped vs m virt phys flags m' := by
  rw [vspaceMap]
  rcases ensureTable_cases (resolveMapping_pml4e m vs virt) hsep hused (by decide)
    ⟨[_, _, _], rfl⟩ rfl with h1 | ⟨m1, h1, hg1, f1, hf1⟩
  · exact .inl (by simp only [h1, Outcome.panic_bind])
  have hsep1 := hg1.separated hsep
  have hused1 := hg1.tablesUsed hused
  rcases ensureTable_cases (resolveMapping_pdpte m1 vs virt) hsep1 hused1 (by simp)
    ⟨[_, _], rfl⟩ hf1 with h2 | ⟨m2, h2, hg2, f2, hf2⟩
  · exact .inl (by simp only [h1, h2, Outcome.ret_bind, Outcome.panic_bind])
  have hsep2 := hg2.separated hsep1
  have hused2 := hg2.tablesUsed hused1
  rcases ensureTable_cases (resolveMapping_pdire m2 vs virt) hsep2 hused2 (by simp)
    ⟨[_], rfl⟩ hf2 with h3 | ⟨m3, h3, hg3, f3, hf3⟩
  · exact .inl (by simp only [h1, h2, h3, Outcome.ret_bind, Outcome.panic_bind])
  have hg : Grows vs (pagePath virt) m m3 := hg1.trans (hg2.trans hg3)
  simp only [h1, h2, h3, Outcome.ret_bind, resolveMapping_ptble]
  rw [show walk m3 vs (ptblPath virt) = some f3 from hf3, Option.map_some]
  rcases mapEntry_cases phys flags (hg3.separated hsep2) hf3 with
    ⟨hpres, h4⟩ | ⟨hnone, m4, e, h4, hset, hfp, hc⟩
  · rw [hg.translation_eq] at hpres
    obtain ⟨mp, hmp⟩ := Option.ne_none_iff_exists'.mp hpres
    have heq : m3 = m := hg.eq_of_walk (by rw [walk_pagePath, hmp]; rfl)
    rw [heq] at h4
    exact .inr ⟨m, by rw [heq]; exact h4, .present hpres⟩
  · rw [hg.translation_eq] at hnone
    exact .inr ⟨m4, h4, .added hnone hg hset hfp hc⟩

/-! ## Unmapping a page -/

/-- Every mapped frame can be reached through the identity mapping. -/
def DirectMapped (m : PhysMem) (vs : Vspace) : Prop :=
  ∀ virt mp, translation m vs virt = some mp → mp.ppn < 2 ^ 35

/-- A page that is not mapped is left alone. -/
theorem vspaceUnmap_none {vs : Vspace} {m : PhysMem} {virt : Nat}
    (h : translation m vs virt = none) : vspaceUnmap m vs virt = (false, m) := by
  have hpage : (resolveMapping m.ram vs virt).page = 0 := by
    rw [resolveMapping_page, walk_pagePath, h]
    rfl
  rw [vspaceUnmap, if_neg (fun hne => hne hpage)]

/-- The entry of a page whose pointer is not `NULL` is cleared and its frame is released. -/
theorem vspaceUnmap_page {vs : Vspace} {m : PhysMem} {virt : Nat} {mp : Mapping}
    (hsep : Separated m vs) (h : translation m vs virt = some mp)
    (hpage : (resolveMapping m.ram vs virt).page ≠ 0) :
    ∃ m', vspaceUnmap m vs virt = (true, freePage m' mp.ppn) ∧ EntrySet vs m virt noGpte m' ∧
      m'.freePages = m.freePages ∧ m'.calls = m.calls := by
  have hwalk : walk m vs (pagePath virt) = some mp.ppn := by rw [walk_pagePath, h]; rfl
  obtain ⟨t, ht⟩ := Radix.node_prefix (p := ptblPath virt) ⟨[_], rfl⟩ hwalk
  have hptble : (resolveMapping m.ram vs virt).ptble = some ⟨t, tableIndex virt 0⟩ := by
    rw [resolveMapping_ptble, show walk m vs (ptblPath virt) = some t from ht, Option.map_some]
  have hppn : (resolveMapping m.ram vs virt).pagePpn = mp.ppn := by
    rw [resolveMapping_pagePpn, hwalk, Option.getD_some]
  refine ⟨{ m with ram := GptePtr.write ⟨t, tableIndex virt 0⟩ m.ram noGpte }, ?_,
    entrySet_of_write hsep ht rfl, rfl, rfl⟩
  rw [vspaceUnmap, if_pos hpage, hptble, hppn]
  rfl

/-- A page that is mapped to a frame there can be is unmapped. -/
theorem vspaceUnmap_some {vs : Vspace} {m : PhysMem} {virt : Nat} {mp : Mapping}
    (hsep : Separated m vs) (h : translation m vs virt = some mp) (hsmall : mp.ppn < 2 ^ 35) :
    ∃ m', vspaceUnmap m vs virt = (true, freePage m' mp.ppn) ∧ EntrySet vs m virt noGpte m' ∧
      m'.freePages = m.freePages ∧ m'.calls = m.calls := by
  have hwalk : walk m vs (pagePath virt) = some mp.ppn := by rw [walk_pagePath, h]; rfl
  refine vspaceUnmap_page hsep h ?_
  rw [resolveMapping_page, hwalk, Option.map_some, Option.getD_some]
  exact ppnToVirt_ne_zero hsmall

/-- `vspace_unmap` does nothing, or it clears the entry of a page and releases its frame. -/
theorem vspaceUnmap_cases {vs : Vspace} {m : PhysMem} (virt : Nat) (hsep : Separated m vs) :
    vspaceUnmap m vs virt = (false, m) ∨
      ∃ mp m', translation m vs virt = some mp ∧
        vspaceUnmap m vs virt = (true, freePage m' mp.ppn) ∧ EntrySet vs m virt noGpte m' ∧
        m'.freePages = m.freePages := by
  by_cases hpage : (resolveMapping m.ram vs virt).page = 0
  · left
    rw [vspaceUnmap, if_neg fun hne => hne hpage]
  · cases h : translation m vs virt with
    | none => exact .inl (vspaceUnmap_none h)
    | some mp =>
        obtain ⟨m', heq, hset, hfree, -⟩ := vspaceUnmap_page hsep h hpage
        exact .inr ⟨mp, m', rfl, heq, hset, hfree⟩

end UlmerOS
