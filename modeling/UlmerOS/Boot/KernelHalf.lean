import UlmerOS.Boot.IdentityMap
import UlmerOS.Proc.Machine

/-!
# The address space that the kernel starts with

`paging_init` of the boot loader, and `vspace_setup` of the kernel after it.  The loader
maps RAM to itself twice, in slot 0 and in slot 256 of the PML4, and the kernel clears
the lower half of the PML4.  What is left is the window at `IDENT_OFFSET` that
`ppn_to_virt` relies on.

With at most 1 GiB of RAM these tables are what the rest of the development asks of
the kernel: they are distinct frames, no free frame is among them, and no entry of the
PML4 lets a user in (`boot_kernel_half`).
-/

namespace UlmerOS.Boot

open ByteMem

/-- `vspace_setup`: the frame of the PML4 is that of the kernel, and its lower half is cleared. -/
def vspaceSetup (ram : Mem) (pml4Ppn : Nat) : Vspace × Mem :=
  (⟨pml4Ppn⟩, fill ram (pageSize * pml4Ppn) (pageSize / 2) 0)

theorem vspaceSetup_tables (ram : Mem) (p f : Nat) (i : Fin 512) :
    tables (vspaceSetup ram p).2 f i =
      if f = p ∧ i.val < 256 then noGpte else tables ram f i := by
  have hi := i.isLt
  simp only [vspaceSetup, tables, pageSize]
  split
  · rename_i h
    obtain ⟨rfl, hlow⟩ := h
    rw [load_zero, noGpte]
    intro x h1 h2
    exact fill_of_mem (by omega) (by omega)
  · rename_i h
    rw [load_congr]
    intro x h1 h2
    exact fill_of_not_mem (by omega)

theorem pte_child {p : Nat} (hp : p < 2 ^ 40) : (pte p).child = some p := by
  have hpresent : (pte p).present = true := rfl
  rw [Gpte.child, if_pos hpresent, pte_ppn hp]

theorem pte_mapping {p : Nat} (hp : p < 2 ^ 40) :
    (pte p).mapping = some ⟨p, true, false, false⟩ := by
  have hpresent : (pte p).present = true := rfl
  rw [Gpte.mapping, if_pos hpresent, pte_ppn hp]
  rfl

/-! ## The tree of tables -/

/-- A table whose entries lead to tables, by the call of `alloc_page` that returned it, in a
machine with `n` pages. -/
inductive Inner (n : Nat) : Nat → Prop where
  | pml4 : Inner n 1
  | pdpt : Inner n 2
  | pdir : Inner n 3
  | second : 261632 ≤ n → Inner n 516

/-- The table `c` is below the entry `i` of the table `a`. -/
inductive Below (n : Nat) : Nat → Nat → Nat → Prop where
  | pdpt : Below n 1 256 2
  | pdir : Below n 2 0 3
  | second : 261632 ≤ n → Below n 2 1 516
  | ptbl {i : Nat} : i < 512 → 512 * i ≤ n → Below n 3 i (ptblFrame i)
  | last : 2 ^ 18 ≤ n → Below n 516 1 (ptblFrame 512)

section

variable {n a b c i j : Nat}

/-- No two entries lead to the same table. -/
theorem Below.unique {d : Nat} (h : Below n a i c) (h' : Below n b j d) (hcd : c = d) :
    a = b ∧ i = j := by
  have hptbl : ∀ q, ptblFrame q ≠ 2 ∧ ptblFrame q ≠ 3 ∧ ptblFrame q ≠ 516 := fun q =>
    ⟨(ne_ptblFrame (by omega) q).symm, (ne_ptblFrame (by omega) q).symm,
      (ne_ptblFrame (by omega) q).symm⟩
  cases h with
  | ptbl hi _ =>
      cases h' with
      | ptbl _ _ => exact ⟨rfl, ptblFrame_inj hcd⟩
      | last _ =>
          obtain rfl := ptblFrame_inj hcd
          omega
      | pdpt => exact absurd hcd (hptbl _).1
      | pdir => exact absurd hcd (hptbl _).2.1
      | second _ => exact absurd hcd (hptbl _).2.2
  | last _ =>
      cases h' with
      | ptbl hj _ =>
          obtain rfl := ptblFrame_inj hcd
          omega
      | last _ => exact ⟨rfl, rfl⟩
      | pdpt => exact absurd hcd (hptbl _).1
      | pdir => exact absurd hcd (hptbl _).2.1
      | second _ => exact absurd hcd (hptbl _).2.2
  | pdpt =>
      cases h' with
      | pdpt => exact ⟨rfl, rfl⟩
      | ptbl _ _ => exact absurd hcd.symm (hptbl _).1
      | last _ => exact absurd hcd.symm (hptbl _).1
      | _ => cases hcd
  | pdir =>
      cases h' with
      | pdir => exact ⟨rfl, rfl⟩
      | ptbl _ _ => exact absurd hcd.symm (hptbl _).2.1
      | last _ => exact absurd hcd.symm (hptbl _).2.1
      | _ => cases hcd
  | second _ =>
      cases h' with
      | second _ => exact ⟨rfl, rfl⟩
      | ptbl _ _ => exact absurd hcd.symm (hptbl _).2.2
      | last _ => exact absurd hcd.symm (hptbl _).2.2
      | _ => cases hcd

/-- An entry leads to one table. -/
theorem Below.det {d : Nat} (h : Below n a i c) (h' : Below n a i d) : c = d := by
  cases h with
  | _ => cases h' with
    | _ => rfl

/-- The PML4 is below no entry. -/
theorem Below.one_lt (h : Below n a i c) : 1 < c := by
  cases h with
  | ptbl _ _ =>
      rw [ptblFrame]
      split <;> omega
  | last _ => decide
  | _ => decide

end

section

variable {frames : Nat → Nat} {ram : Mem} {n : Nat}

/-- The memory that the kernel starts with. -/
def kernelRam (frames : Nat → Nat) (ram : Mem) (n : Nat) : Mem :=
  (vspaceSetup (pagingInit frames ram n).2.ram (pagingInit frames ram n).1).2

/-- The tables that were allocated. -/
structure Booted (frames : Nat → Nat) (ram : Mem) (n : Nat) : Prop where
  supply : Supply frames (pagingInit frames ram n).2.next
  small : n ≤ 2 ^ 18

variable (h : Booted frames ram n)
include h

theorem Booted.shape : Shape frames n (idMapped frames ram n) :=
  idMapped_shape h.supply (Nat.le_refl _) h.small

theorem Booted.below_lt {a i c : Nat} (hb : Below n a i c) :
    c < (pagingInit frames ram n).2.next := by
  have hnext := h.shape.next
  rw [pagingInit_next]
  cases hb with
  | ptbl _ hq => exact h.shape.ptblFrame_lt h.small hq
  | last hq => exact h.shape.ptblFrame_lt h.small hq
  | _ => omega

theorem Booted.inner_lt {a : Nat} (ha : Inner n a) : a < (pagingInit frames ram n).2.next := by
  have hnext := h.shape.next
  rw [pagingInit_next]
  cases ha with
  | _ => omega

/-- The PML4 has entry 256 and no other. -/
theorem Booted.pml4e (i : Fin 512) : tables (kernelRam frames ram n) (frames 1) i =
    if i.val = 256 then pte (frames 2) else noGpte := by
  have hpml4 : (pagingInit frames ram n).1 = frames 1 := rfl
  rw [kernelRam, vspaceSetup_tables, pagingInit_tables, hpml4, h.shape.pml4e, h.shape.pml4e]
  by_cases hi : i.val = 256
  · simp [hi]
  · by_cases hlow : i.val < 256
    · simp [hlow, hi]
    · simp [hlow, hi]
      omega

/-- The other tables are those that `id_map` made. -/
theorem Booted.tables_eq {a : Nat} (ha : a < (pagingInit frames ram n).2.next) (hne : a ≠ 1)
    (i : Fin 512) : tables (kernelRam frames ram n) (frames a) i =
      tables (idMapped frames ram n).ram (frames a) i := by
  have hpml4 : (pagingInit frames ram n).1 = frames 1 := rfl
  have hfive := five_le_next frames ram n
  have hdiff : frames a ≠ frames 1 := fun he =>
    hne ((h.supply.eq_iff ha (by rw [pagingInit_next]; omega)).mp he)
  rw [kernelRam, vspaceSetup_tables, pagingInit_tables, hpml4, if_neg fun hc => hdiff hc.1,
    if_neg fun hc => hdiff hc.1]

/-- An entry of an inner table leads to the table below it. -/
theorem Booted.child_iff {a f : Nat} (ha : Inner n a) (i : Fin 512) :
    (tables (kernelRam frames ram n) (frames a) i).child = some f ↔
      ∃ c, Below n a i c ∧ frames c = f := by
  have hsome : ∀ c, Below n a i c → tables (kernelRam frames ram n) (frames a) i = pte (frames c) →
      ((tables (kernelRam frames ram n) (frames a) i).child = some f ↔
        ∃ c, Below n a i c ∧ frames c = f) := by
    intro c hc he
    rw [he, pte_child (h.supply.lt c (h.below_lt hc))]
    constructor
    · intro hf
      exact ⟨c, hc, Option.some.inj hf⟩
    · rintro ⟨d, hd, rfl⟩
      rw [hc.det hd]
  have hnone : (∀ c, ¬ Below n a i c) → tables (kernelRam frames ram n) (frames a) i = noGpte →
      ((tables (kernelRam frames ram n) (frames a) i).child = some f ↔
        ∃ c, Below n a i c ∧ frames c = f) := by
    intro hc he
    rw [he, noGpte_child]
    exact ⟨nofun, fun ⟨c, hb, _⟩ => absurd hb (hc c)⟩
  have hlt := h.inner_lt ha
  cases ha with
  | pml4 =>
      have he := h.pml4e i
      by_cases hi : i.val = 256
      · rw [if_pos hi] at he
        exact hsome 2 (by rw [hi]; exact .pdpt) he
      · rw [if_neg hi] at he
        exact hnone (fun c hb => by generalize i.val = j at *; cases hb; exact hi rfl) he
  | pdpt =>
      have he := (h.tables_eq hlt (by decide) i).trans (h.shape.pdpte i)
      by_cases hi : i.val = 0
      · rw [if_pos hi] at he
        exact hsome 3 (by rw [hi]; exact .pdir) he
      · rw [if_neg hi] at he
        by_cases hi1 : i.val = 1 ∧ 261632 ≤ n
        · rw [if_pos hi1] at he
          exact hsome 516 (by rw [hi1.1]; exact .second hi1.2) he
        · rw [if_neg hi1] at he
          refine hnone (fun c hb => ?_) he
          generalize i.val = j at *
          cases hb with
          | pdir => exact hi rfl
          | second hge => exact hi1 ⟨rfl, hge⟩
  | pdir =>
      have he := (h.tables_eq hlt (by decide) i).trans (h.shape.pdire i)
      by_cases hi : 512 * i.val ≤ n
      · rw [if_pos hi] at he
        exact hsome _ (.ptbl i.isLt hi) he
      · rw [if_neg hi] at he
        refine hnone (fun c hb => ?_) he
        generalize i.val = j at *
        cases hb with
        | ptbl _ hq => exact hi hq
  | second hge =>
      have he := (h.tables_eq hlt (by decide) i).trans (h.shape.second hge i)
      by_cases hi : i.val = 1 ∧ 2 ^ 18 ≤ n
      · rw [if_pos hi] at he
        exact hsome _ (by rw [hi.1]; exact .last hi.2) he
      · rw [if_neg hi] at he
        refine hnone (fun c hb => ?_) he
        generalize i.val = j at *
        cases hb with
        | last hq => exact hi ⟨rfl, hq⟩

/-- A path goes on below an inner table. -/
theorem Booted.node_cons {a f : Nat} (ha : Inner n a) (i : Fin 512) (p : Path) :
    Radix.node Gpte.child (tables (kernelRam frames ram n)) (frames a) (i :: p) = some f ↔
      ∃ c, Below n a i c ∧
        Radix.node Gpte.child (tables (kernelRam frames ram n)) (frames c) p = some f := by
  rw [Radix.node, Option.bind_eq_some_iff]
  constructor
  · rintro ⟨g, hg, hp⟩
    obtain ⟨c, hc, rfl⟩ := (h.child_iff ha i).mp hg
    exact ⟨c, hc, hp⟩
  · rintro ⟨c, hc, hp⟩
    exact ⟨frames c, (h.child_iff ha i).mpr ⟨c, hc, rfl⟩, hp⟩

/-- The page table that three indices lead to. -/
theorem Booted.node_ptbl {x y z : Fin 512} {f : Nat} :
    Radix.node Gpte.child (tables (kernelRam frames ram n)) (frames 1) [x, y, z] = some f ↔
      x.val = 256 ∧ ∃ k, frames (ptblFrame k) = f ∧ 512 * k ≤ n ∧
        (y.val = 0 ∧ z.val = k ∨ y.val = 1 ∧ z.val = 1 ∧ k = 512) := by
  rw [h.node_cons .pml4]
  constructor
  · rintro ⟨c, hc, hp⟩
    generalize x.val = x at *
    cases hc
    obtain ⟨c, hc, hp⟩ := (h.node_cons .pdpt y [z]).mp hp
    generalize y.val = y at *
    cases hc with
    | pdir =>
        obtain ⟨c, hc, hp⟩ := (h.node_cons .pdir z []).mp hp
        generalize z.val = z at *
        cases hc with
        | ptbl _ hq => exact ⟨rfl, z, Option.some.inj hp, hq, .inl ⟨rfl, rfl⟩⟩
    | second hge =>
        obtain ⟨c, hc, hp⟩ := (h.node_cons (.second hge) z []).mp hp
        generalize z.val = z at *
        cases hc with
        | last hq => exact ⟨rfl, 512, Option.some.inj hp, by omega, .inr ⟨rfl, rfl, rfl⟩⟩
  · rintro ⟨hx, k, rfl, hk, ⟨hy, rfl⟩ | ⟨hy, hz, rfl⟩⟩
    · refine ⟨2, by rw [hx]; exact .pdpt,
        (h.node_cons .pdpt y [z]).mpr ⟨3, by rw [hy]; exact .pdir, ?_⟩⟩
      exact (h.node_cons .pdir z []).mpr ⟨_, .ptbl z.isLt hk, rfl⟩
    · refine ⟨2, by rw [hx]; exact .pdpt,
        (h.node_cons .pdpt y [z]).mpr ⟨516, by rw [hy]; exact .second (by omega), ?_⟩⟩
      exact (h.node_cons (.second (by omega)) z []).mpr
        ⟨_, by rw [hz]; exact .last (by omega), rfl⟩

/-- The tables are frames that `alloc_page` returned, and those that lead to tables are inner. -/
theorem Booted.node_cases {q : Path} {f : Nat} (hq : q.length ≤ 3)
    (hw : Radix.node Gpte.child (tables (kernelRam frames ram n)) (frames 1) q = some f) :
    ∃ a, 1 ≤ a ∧ a < (pagingInit frames ram n).2.next ∧ frames a = f ∧
      (q.length < 3 → Inner n a) := by
  have hfive := five_le_next frames ram n
  rw [← pagingInit_next] at hfive
  rcases q with _ | ⟨x, _ | ⟨y, _ | ⟨z, _ | ⟨_, _⟩⟩⟩⟩
  · exact ⟨1, Nat.le_refl 1, by omega, Option.some.inj hw, fun _ => .pml4⟩
  · obtain ⟨c, hc, hp⟩ := (h.node_cons .pml4 x []).mp hw
    generalize x.val = x at *
    cases hc
    exact ⟨2, by decide, by omega, Option.some.inj hp, fun _ => .pdpt⟩
  · obtain ⟨c, hc, hp⟩ := (h.node_cons .pml4 x [y]).mp hw
    generalize x.val = x at *
    cases hc
    obtain ⟨c, hc, hp⟩ := (h.node_cons .pdpt y []).mp hp
    have hlt := h.below_lt hc
    generalize y.val = y at *
    cases hc with
    | pdir => exact ⟨3, by decide, hlt, Option.some.inj hp, fun _ => .pdir⟩
    | second hge => exact ⟨516, by decide, hlt, Option.some.inj hp, fun _ => .second hge⟩
  · obtain ⟨-, k, hf, hk, -⟩ := h.node_ptbl.mp hw
    refine ⟨ptblFrame k, ?_, ?_, hf, fun hlt => absurd hlt (by simp)⟩
    · rw [ptblFrame]
      split <;> omega
    · rw [pagingInit_next]
      exact h.shape.ptblFrame_lt h.small hk
  · exact absurd hq (by simp)

/-- The tables are distinct frames. -/
theorem Booted.separated :
    Radix.Separated Gpte.child (tables (kernelRam frames ram n)) (frames 1) 3 := by
  refine Radix.separated_of_parent (fun f => ∃ a, Inner n a ∧ frames a = f) ?_ ?_ ?_
  · intro p f hp hw
    obtain ⟨a, -, -, hf, ha⟩ := h.node_cases (by omega) hw
    exact ⟨a, ha hp, hf⟩
  · rintro f i ⟨a, ha, rfl⟩ hc
    obtain ⟨c, hb, heq⟩ := (h.child_iff ha i).mp hc
    have hlt := h.below_lt hb
    have := hb.one_lt
    have := (h.supply.eq_iff hlt (by omega)).mp heq
    omega
  · rintro f g i j e ⟨a, ha, rfl⟩ ⟨b, hb, rfl⟩ hi hj
    obtain ⟨c, hc, rfl⟩ := (h.child_iff ha i).mp hi
    obtain ⟨d, hd, heq⟩ := (h.child_iff hb j).mp hj
    have hcd := (h.supply.eq_iff (h.below_lt hd) (h.below_lt hc)).mp heq
    obtain ⟨rfl, hij⟩ := hc.unique hd hcd.symm
    exact ⟨rfl, Fin.ext hij⟩

end

/-! ## The kernel's address space -/

section

variable {frames : Nat → Nat} {ram : Mem} {n : Nat} {m : PhysMem}

/-- The pages of the kernel: RAM, at `IDENT_OFFSET`. -/
theorem Booted.translation (h : Booted frames ram n) (hram : m.ram = kernelRam frames ram n)
    (virt : Nat) : UlmerOS.translation m ⟨frames 1⟩ virt =
      if 2 ^ 35 ≤ virt % 2 ^ 36 ∧ virt % 2 ^ 36 < 2 ^ 35 + n then
        some ⟨virt % 2 ^ 36 - 2 ^ 35, true, false, false⟩
      else none := by
  have hx := tableIndex_val virt 27
  have hy := tableIndex_val virt 18
  have hz := tableIndex_val virt 9
  have hd := tableIndex_val virt 0
  have hsmall := h.small
  rw [translation_eq, entry_eq, walk, hram]
  cases hw : Radix.node Gpte.child (tables (kernelRam frames ram n)) (frames 1)
      (ptblPath virt) with
  | none =>
      rw [if_neg]
      · rfl
      · -- the indices of a page of RAM lead to a page table
        intro hin
        have hptbl := (h.node_ptbl (x := tableIndex virt 27) (y := tableIndex virt 18)).mpr
          ⟨by omega, (tableIndex virt 9).val, rfl, by omega, .inl ⟨by omega, rfl⟩⟩
        rw [ptblPath, hptbl] at hw
        cases hw
  | some f =>
      obtain ⟨h256, k, rfl, hk, hyz⟩ := h.node_ptbl.mp hw
      have hlt : ptblFrame k < (pagingInit frames ram n).2.next := by
        rw [pagingInit_next]
        exact h.shape.ptblFrame_lt h.small hk
      have he := (h.tables_eq hlt (ne_ptblFrame (by omega) k).symm (tableIndex virt 0)).trans
        (h.shape.ptble k hk (tableIndex virt 0))
      rw [Option.map_some, Option.bind_some, he]
      by_cases hin : 512 * k + (tableIndex virt 0).val < n
      · have hpage : 512 * k + (tableIndex virt 0).val = virt % 2 ^ 36 - 2 ^ 35 := by omega
        rw [if_pos hin, if_pos (by omega), pte_mapping (by omega), hpage]
      · rw [if_neg hin, if_neg (by omega)]
        rfl

/-- **The kernel starts with the address space it relies on.**  The boot loader maps at most
1 GiB of RAM with the frames that `alloc_page` returns, and the kernel clears the lower half.
Then its tables are distinct and in use, no user program can get to a page of its half, the
pages that are mapped are those of RAM at `IDENT_OFFSET` and no others, and `ppn_to_virt` is an
address of the frame it is given. -/
theorem boot_kernel_half (hs : Supply frames (pagingInit frames ram n).2.next) (hn : n ≤ 2 ^ 18)
    (hram : m.ram = (vspaceSetup (pagingInit frames ram n).2.ram (pagingInit frames ram n).1).2)
    (hused : ∀ a, 1 ≤ a → a < (pagingInit frames ram n).2.next → ¬ m.Free (frames a)) :
    let kernel := (vspaceSetup (pagingInit frames ram n).2.ram (pagingInit frames ram n).1).1
    KernelTables m kernel ∧ KernelOnly m kernel ∧
      (∀ virt, UlmerOS.translation m kernel virt =
        if 2 ^ 35 ≤ virt % 2 ^ 36 ∧ virt % 2 ^ 36 < 2 ^ 35 + n then
          some ⟨virt % 2 ^ 36 - 2 ^ 35, true, false, false⟩
        else none) ∧
      ∀ p < n, UlmerOS.translation m kernel (ppnToVirt p >>> pageShift) =
        some ⟨p, true, false, false⟩ := by
  intro kernel
  have h : Booted frames ram n := ⟨hs, hn⟩
  have htr : ∀ virt, UlmerOS.translation m kernel virt = _ := h.translation hram
  refine ⟨⟨?_, ?_, ?_⟩, ?_, htr, ?_⟩
  · show Radix.Separated Gpte.child (tables m.ram) (frames 1) 3
    rw [hram]
    exact h.separated
  · rintro f ⟨q, hq, hw⟩
    rw [walk, hram] at hw
    obtain ⟨a, hpos, hlt, rfl, -⟩ := h.node_cases hq hw
    exact hused a hpos hlt
  · intro virt mp hmp
    rw [htr] at hmp
    split at hmp
    · obtain rfl := Option.some.inj hmp
      rename_i hin
      exact Nat.sub_lt_left_of_lt_add hin.1 (Nat.lt_of_lt_of_le hin.2 (by omega))
    · cases hmp
  · intro virt bits huser _ hper
    obtain ⟨e, he, hpresent, -, hallow, -⟩ := hper [] (tableIndex virt 27) (by simp [pagePath])
    have hentry : tables m.ram (frames 1) (tableIndex virt 27) = e := Option.some.inj he
    -- the entries of the PML4 are empty or lead to a table of the kernel
    have hpml4e := h.pml4e (tableIndex virt 27)
    rw [kernelRam, ← hram, hentry] at hpml4e
    subst hpml4e
    split at hallow
    · exact absurd (hallow huser) Bool.false_ne_true
    · exact absurd (hallow huser) (by decide)
  · intro p hp
    have hvirt : ppnToVirt p >>> pageShift % 2 ^ 36 = 2 ^ 35 + p := by
      rw [ppnToVirt, identOffset, wrap64, wrap64, word, pageShift, Nat.shiftLeft_eq,
        Nat.shiftRight_eq_div_pow]
      omega
    rw [htr, hvirt, if_pos ⟨by omega, by omega⟩, Nat.add_sub_cancel_left]

end

/-- A machine with 32 frames, of which the loader took the first. -/
def bootMachine : PhysMem where
  ram := kernelRam id (fun _ => 0) 32
  freePages :=
    { bmp := ⟨32, [0x1f, 0, 0, 0]⟩
      length_eq := by decide
      padded := fun i (h1 : 32 ≤ i) (h2 : i / 8 < 4) =>
        absurd (Nat.lt_mul_of_div_lt h2 (by decide)) (Nat.not_lt.mpr h1)
      small := by decide }
  calls := []

theorem boot_kernel_half_small : KernelTables bootMachine ⟨1⟩ ∧ KernelOnly bootMachine ⟨1⟩ ∧
    translation bootMachine ⟨1⟩ (ppnToVirt 31 >>> pageShift) = some ⟨31, true, false, false⟩ := by
  have hnext := pagingInit_next_le id (fun _ => 0) 32
  have hs : Supply id (pagingInit id (fun _ => 0) 32).2.next := supply_id (by omega)
  have h : Booted id (fun _ => 0) 32 := ⟨hs, by decide⟩
  obtain ⟨htables, honly, -, hwindow⟩ := boot_kernel_half (m := bootMachine) hs (by decide) rfl
    fun a hpos hlt => by
      rw [pagingInit_next, h.shape.next] at hlt
      exact (by decide : ∀ a < 5, ¬ bootMachine.Free a) a hlt
  exact ⟨htables, honly, hwindow 31 (by decide)⟩

end UlmerOS.Boot
