import UlmerOS.Arch.VspaceOwned

/-!
# Deleting an address space

The nested loops of `vspace_delete` release the frames of the lower half, deeper ones
first, and then the PML4 table.  Releasing a frame does not change its contents, so
that the loops read the tables as they were at the start, and `vspace_delete` is
`free_page` on a list of frames (`vspaceDelete_eq`).

In an address space that owns its frames the list has each of them once.
-/

namespace UlmerOS

open ByteMem

/-! ## The loops -/

theorem foldl_freePage_ram (m : PhysMem) (fs : List Nat) : (fs.foldl freePage m).ram = m.ram := by
  induction fs generalizing m with
  | nil => rfl
  | cons f fs ih => rw [List.foldl_cons, ih, freePage_ram]

/-- The frames that are released for a frame `d` levels above those of the pages. -/
def released (ram : Mem) : Nat → Nat → List Nat :=
  Radix.tree Gpte.child (tables ram) (List.finRange 512)

/-- A loop whose body releases a list of frames releases them all. -/
theorem forPresent_eq {body : PhysMem → Nat → PhysMem} (list : Mem → Nat → List Nat)
    (hbody : ∀ m f, body m f = (list m.ram f).foldl freePage m) (count table : Nat) (m : PhysMem) :
    forPresent count table body m =
      (Radix.branch Gpte.child (tables m.ram) ((List.finRange 512).take count) (list m.ram)
        table).foldl freePage m := by
  rw [forPresent, Radix.branch]
  induction (List.finRange 512).take count generalizing m with
  | nil => rfl
  | cons i idx ih =>
      have hstep : (if (tables m.ram table i).present then body m (tables m.ram table i).ppn else m)
          = (((tables m.ram table i).child.map (list m.ram)).getD []).foldl freePage m := by
        rw [Gpte.child]
        split
        · exact hbody m _
        · rfl
      rw [List.foldl_cons, hstep, ih, foldl_freePage_ram, List.flatMap_cons, List.foldl_append]

/-- A table is released after what is below it. -/
theorem delete_eq {body : PhysMem → Nat → PhysMem} (d : Nat)
    (hbody : ∀ m f, body m f = (released m.ram d f).foldl freePage m) (m : PhysMem) (f : Nat) :
    freePage (forPresent 512 f body m) f = (released m.ram (d + 1) f).foldl freePage m := by
  rw [forPresent_eq (fun ram => released ram d) hbody,
    List.take_of_length_le (by rw [List.length_finRange])]
  simp only [released]
  rw [Radix.tree, List.foldl_append, List.foldl_cons, List.foldl_nil]

theorem deletePtbl_eq (m : PhysMem) (f : Nat) :
    deletePtbl m f = (released m.ram 1 f).foldl freePage m := by
  rw [deletePtbl]
  refine delete_eq 0 (fun m f => ?_) m f
  rw [released, Radix.tree, List.foldl_cons, List.foldl_nil]

theorem deletePdir_eq (m : PhysMem) (f : Nat) :
    deletePdir m f = (released m.ram 2 f).foldl freePage m := by
  rw [deletePdir]
  exact delete_eq 1 deletePtbl_eq m f

theorem deletePdpt_eq (m : PhysMem) (f : Nat) :
    deletePdpt m f = (released m.ram 3 f).foldl freePage m := by
  rw [deletePdpt]
  exact delete_eq 2 deletePdir_eq m f

/-- The frames that `vspace_delete` releases. -/
def vspaceFrames (m : PhysMem) (vs : Vspace) : List Nat :=
  Radix.branch Gpte.child (tables m.ram) ((List.finRange 512).take 256) (released m.ram 3)
    vs.pml4Ppn ++ [vs.pml4Ppn]

theorem vspaceDelete_eq {m : PhysMem} {vs : Vspace} (h : vs.pml4Ppn ≠ minusOne) :
    (vspaceDelete m vs).2 = (vspaceFrames m vs).foldl freePage m := by
  rw [vspaceDelete, if_neg h, vspaceFrames, List.foldl_append, List.foldl_cons, List.foldl_nil,
    forPresent_eq (fun ram => released ram 3) deletePdpt_eq]

/-! ## The frames that are released -/

theorem mem_lower {i : Fin 512} : i ∈ (List.finRange 512).take 256 ↔ i.val < 256 := by
  rw [List.mem_take_iff_getElem]
  constructor
  · rintro ⟨j, hj, rfl⟩
    rw [List.length_finRange] at hj
    rw [List.getElem_finRange]
    exact Nat.lt_of_lt_of_le hj (Nat.min_le_left 256 512)
  · intro hi
    refine ⟨i.val, ?_, ?_⟩
    · rw [List.length_finRange]
      exact Nat.lt_min.mpr ⟨hi, i.isLt⟩
    · rw [List.getElem_finRange]
      rfl

/-- They are those that the paths of the lower half lead to. -/
theorem mem_vspaceFrames {m : PhysMem} {vs : Vspace} {f : Nat} :
    f ∈ vspaceFrames m vs ↔ ∃ p : Path, UserPath p ∧ p.length ≤ 4 ∧ walk m vs p = some f := by
  rw [vspaceFrames, List.mem_append, List.mem_singleton, Radix.mem_branch]
  constructor
  · rintro (⟨i, hi, h, hh, hf⟩ | rfl)
    · obtain ⟨p, hp, hpf⟩ := (Radix.mem_tree List.mem_finRange).mp hf
      refine ⟨i :: p, mem_lower.mp hi, Nat.succ_le_succ hp, ?_⟩
      rw [walk, Radix.node, hh]
      exact hpf
    · exact ⟨[], userPath_nil, Nat.zero_le 4, rfl⟩
  · rintro ⟨p, hu, hp, hw⟩
    cases p with
    | nil => exact .inr (Option.some.inj hw).symm
    | cons i p =>
        rw [walk, Radix.node] at hw
        obtain ⟨h, hh, hpf⟩ := Option.bind_eq_some_iff.mp hw
        exact .inl ⟨i, mem_lower.mpr hu, h, hh,
          (Radix.mem_tree List.mem_finRange).mpr ⟨p, Nat.le_of_succ_le_succ hp, hpf⟩⟩

theorem walk_cons_of_child {m : PhysMem} {vs : Vspace} {i : Fin 512} {h f : Nat} {p : Path}
    (hh : (tables m.ram vs.pml4Ppn i).child = some h)
    (hf : Radix.node Gpte.child (tables m.ram) h p = some f) : walk m vs (i :: p) = some f := by
  rw [walk, Radix.node, hh]
  exact hf

/-- Each of them is released once. -/
theorem Owned.nodup_frames {m0 m : PhysMem} {kernel vs : Vspace} (ho : Owned m0 kernel vs m) :
    (vspaceFrames m vs).Nodup := by
  have hinj : ∀ i j h h' p q f, i.val < 256 → j.val < 256 → p.length ≤ 3 → q.length ≤ 3 →
      (tables m.ram vs.pml4Ppn i).child = some h → (tables m.ram vs.pml4Ppn j).child = some h' →
      Radix.node Gpte.child (tables m.ram) h p = some f →
      Radix.node Gpte.child (tables m.ram) h' q = some f → i :: p = j :: q :=
    fun i j h h' p q f hi hj hp hq hh hh' hpf hqf =>
      ho.inj (i :: p) (j :: q) f hi hj (Nat.succ_le_succ hp) (Nat.succ_le_succ hq)
        (walk_cons_of_child hh hpf) (walk_cons_of_child hh' hqf)
  rw [vspaceFrames, List.nodup_append]
  refine ⟨Radix.nodup_branch ((List.nodup_finRange 512).sublist (List.take_sublist 256 _)) ?_ ?_,
    List.nodup_singleton _, ?_⟩
  · intro i hi h hh
    refine Radix.nodup_tree (List.nodup_finRange 512) List.mem_finRange ?_
    intro p q f hp hq hpf hqf
    exact (List.cons.inj (hinj i i h h p q f (mem_lower.mp hi) (mem_lower.mp hi) hp hq hh hh
      hpf hqf)).2
  · intro i hi j hj h h' f hh hh' hf hf'
    obtain ⟨p, hp, hpf⟩ := (Radix.mem_tree List.mem_finRange).mp hf
    obtain ⟨q, hq, hqf⟩ := (Radix.mem_tree List.mem_finRange).mp hf'
    exact (List.cons.inj (hinj i j h h' p q f (mem_lower.mp hi) (mem_lower.mp hj) hp hq hh hh'
      hpf hqf)).1
  · intro f hf g hg he
    rw [List.mem_singleton] at hg
    obtain ⟨i, hi, h, hh, hfh⟩ := Radix.mem_branch.mp hf
    obtain ⟨p, hp, hpf⟩ := (Radix.mem_tree List.mem_finRange).mp hfh
    have hroot : walk m vs [] = some f := by rw [he, hg]; rfl
    have hcycle := ho.inj (i :: p) [] f (mem_lower.mp hi) userPath_nil (Nat.succ_le_succ hp)
      (Nat.zero_le 4) (walk_cons_of_child hh hpf) hroot
    cases hcycle

/-- Frames that were taken and are released once each are free, and the calls match. -/
theorem foldl_freePage {m0 m : PhysMem} {fs : List Nat} (hnodup : fs.Nodup)
    (htaken : ∀ f ∈ fs, m0.Free f ∧ ¬ m.Free f) (hsize : m.size = m0.size)
    (hbalanced : Balanced m0 m) :
    Balanced m0 (fs.foldl freePage m) ∧ (fs.foldl freePage m).size = m0.size ∧
      ∀ g, (fs.foldl freePage m).Free g ↔ m.Free g ∨ g ∈ fs := by
  induction fs generalizing m with
  | nil => exact ⟨hbalanced, hsize, fun g => by simp⟩
  | cons f fs ih =>
      obtain ⟨hnot, hnodup⟩ := List.nodup_cons.mp hnodup
      obtain ⟨h0, hf⟩ := htaken f List.mem_cons_self
      have hfree : ∀ g, (freePage m f).Free g ↔ m.Free g ∨ g = f := by
        intro g
        rw [freePage_free, hsize]
        exact or_congr Iff.rfl ⟨And.left, fun he => ⟨he, h0.1⟩⟩
      obtain ⟨hb, hs, hg⟩ := ih hnodup
        (by
          intro g hgfs
          obtain ⟨hg0, hgf⟩ := htaken g (List.mem_cons_of_mem f hgfs)
          refine ⟨hg0, fun hfr => ((hfree g).mp hfr).elim hgf ?_⟩
          rintro rfl
          exact hnot hgfs)
        (by rw [freePage_size, hsize])
        (hbalanced.free h0 hf hfree (freePage_calls m f))
      refine ⟨hb, hs, fun g => ?_⟩
      rw [List.foldl_cons, hg g, hfree g, List.mem_cons, or_assoc]

/-- The PML4 table is a frame. -/
theorem Owned.pml4Ppn_ne {m0 m : PhysMem} {kernel vs : Vspace} (ho : Owned m0 kernel vs m) :
    vs.pml4Ppn ≠ minusOne := by
  have hlt := (ho.taken [] vs.pml4Ppn userPath_nil (Nat.zero_le 4) rfl).1.1
  have hsmall := m0.freePages.small
  intro he
  rw [he, minusOne, word] at hlt
  have := Nat.lt_of_lt_of_le hlt hsmall
  omega

/-- `vspace_delete` releases the frames that the address space owns. -/
theorem Owned.delete_free {m0 m : PhysMem} {kernel vs : Vspace} (ho : Owned m0 kernel vs m) :
    Balanced m0 (vspaceDelete m vs).2 ∧ (vspaceDelete m vs).2.size = m0.size ∧
      ∀ f, (vspaceDelete m vs).2.Free f ↔ m.Free f ∨ f ∈ vspaceFrames m vs := by
  have htaken : ∀ f ∈ vspaceFrames m vs, m0.Free f ∧ ¬ m.Free f := by
    intro f hf
    obtain ⟨p, hu, hp, hw⟩ := mem_vspaceFrames.mp hf
    exact ho.taken p f hu hp hw
  rw [vspaceDelete_eq ho.pml4Ppn_ne]
  exact foldl_freePage ho.nodup_frames htaken ho.size_eq ho.balanced

/-- If none is loose they are all that were taken for it. -/
theorem Owned.delete {m0 m : PhysMem} {kernel vs : Vspace} (ho : Owned m0 kernel vs m)
    (hloose : ∀ f, ¬ Loose m0 vs m f) (f : Nat) :
    (vspaceDelete m vs).2.Free f ↔ m0.Free f := by
  refine (ho.delete_free.2.2 f).trans ⟨?_, fun h0 => ?_⟩
  · rintro (hf | hf)
    · exact ho.free f hf
    · obtain ⟨p, hu, hp, hw⟩ := mem_vspaceFrames.mp hf
      exact (ho.taken p f hu hp hw).1
  · by_cases hf : m.Free f
    · exact .inl hf
    · refine .inr (mem_vspaceFrames.mpr ?_)
      by_contra hno
      exact hloose f ⟨h0, hf, fun p hu hp hw => hno ⟨p, hu, hp, hw⟩⟩

/-- A loose frame stays in use. -/
theorem Owned.delete_loose {m0 m : PhysMem} {kernel vs : Vspace} (ho : Owned m0 kernel vs m)
    {f : Nat} (hf : Loose m0 vs m f) :
    (vspaceDelete m vs).2.freePages.Used f ∧ ¬ m0.freePages.Used f := by
  obtain ⟨h0, hused, hno⟩ := hf
  obtain ⟨-, hsize, hfree⟩ := ho.delete_free
  rw [FreePages.used_iff, FreePages.used_iff]
  refine ⟨⟨?_, fun hfr => ?_⟩, fun h => h.2 h0⟩
  · exact Nat.lt_of_lt_of_eq h0.1 hsize.symm
  · rcases (hfree f).mp hfr with hfr | hfr
    · exact hused hfr
    · obtain ⟨p, hu, hp, hw⟩ := mem_vspaceFrames.mp hfr
      exact hno p hu hp hw

end UlmerOS
