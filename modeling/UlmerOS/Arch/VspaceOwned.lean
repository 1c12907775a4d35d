import UlmerOS.Arch.VspaceRefine

/-!
# The frames that an address space owns

The tables of the lower half of an address space, and the frames of the pages that
are mapped there, belong to it alone.  `Owned` says what this is: they were free
before the address space was made, each is reached by one path, and none of them is
free.  The upper half is that of the kernel still.

A frame that was taken and that no path leads to is `Loose`.  It is on its way into
the tables, or nobody will ever release it.  Every lemma here says what an operation
keeps of the frames that are owned and what it does to those that are loose.
-/

namespace UlmerOS

/-! ## The two halves -/

/-- The path of a user page or of a table above one. -/
def UserPath : Path → Prop
  | [] => True
  | i :: _ => i.val < 256

theorem userPath_nil : UserPath [] := trivial

/-- A path that is not empty is in the same half as the paths it goes on with. -/
theorem userPath_extend {p q : Path} (h : p <+: q) (hne : p ≠ []) : UserPath p ↔ UserPath q := by
  cases p with
  | nil => exact absurd rfl hne
  | cons i p =>
      obtain ⟨r, rfl⟩ := h
      exact Iff.rfl

/-- A page is in the lower half if its number is below that of `USER_BREAK`. -/
theorem userPath_pagePath {virt : Nat} : UserPath (pagePath virt) ↔ virt % 2 ^ 36 < 2 ^ 35 := by
  rw [pagePath, UserPath, tableIndex, Fin.val_ofNat, Nat.shiftRight_eq_div_pow]
  omega

/-! ## Calls of the allocator -/

/-- Since `m0` every frame was given back as often as it was taken, but for those that
were free and are not. -/
def Balanced (m0 m : PhysMem) : Prop :=
  ∃ log, m.calls = log ++ m0.calls ∧
    ∀ f, log.count (.alloc f) = log.count (.free f) + if m0.Free f ∧ ¬ m.Free f then 1 else 0

namespace Balanced

variable {m0 m m' : PhysMem} {g : Nat}

theorem refl (m : PhysMem) : Balanced m m := by
  refine ⟨[], rfl, fun f => ?_⟩
  rw [if_neg fun h => h.2 h.1]
  rfl

theorem congr (h : Balanced m0 m) (hfree : m'.freePages = m.freePages)
    (hcalls : m'.calls = m.calls) : Balanced m0 m' := by
  obtain ⟨log, hlog, hcount⟩ := h
  refine ⟨log, hcalls.trans hlog, fun f => ?_⟩
  rw [hcount f]
  simp only [PhysMem.Free, hfree]

theorem alloc (h : Balanced m0 m) (h0 : m0.Free g) (hfree : m.Free g)
    (hiff : ∀ f, m'.Free f ↔ m.Free f ∧ f ≠ g) (hcalls : m'.calls = .alloc g :: m.calls) :
    Balanced m0 m' := by
  obtain ⟨log, hlog, hcount⟩ := h
  refine ⟨.alloc g :: log, by rw [hcalls, hlog, List.cons_append], fun f => ?_⟩
  have hc := hcount f
  have hother : (PageCall.alloc g :: log).count (.free f) = log.count (.free f) :=
    List.count_cons_of_ne (by nofun)
  rw [hother]
  by_cases hf : f = g
  · subst hf
    rw [if_neg fun hc => hc.2 hfree] at hc
    rw [List.count_cons_self, hc, if_pos ⟨h0, fun hfr => ((hiff f).mp hfr).2 rfl⟩]
  · rw [List.count_cons_of_ne (by rintro ⟨⟩; exact hf rfl), hc]
    simp only [hiff f, hf, ne_eq, not_false_iff, and_true]

theorem free (h : Balanced m0 m) (h0 : m0.Free g) (hused : ¬ m.Free g)
    (hiff : ∀ f, m'.Free f ↔ m.Free f ∨ f = g) (hcalls : m'.calls = .free g :: m.calls) :
    Balanced m0 m' := by
  obtain ⟨log, hlog, hcount⟩ := h
  refine ⟨.free g :: log, by rw [hcalls, hlog, List.cons_append], fun f => ?_⟩
  have hc := hcount f
  have hother : (PageCall.free g :: log).count (.alloc f) = log.count (.alloc f) :=
    List.count_cons_of_ne (by nofun)
  rw [hother]
  by_cases hf : f = g
  · subst hf
    rw [if_pos ⟨h0, hused⟩] at hc
    rw [List.count_cons_self, hc, if_neg fun hn => hn.2 ((hiff f).mpr (.inr rfl))]
  · rw [List.count_cons_of_ne (by rintro ⟨⟩; exact hf rfl), hc]
    simp only [hiff f, hf, or_false]

end Balanced

/-! ## Ownership -/

/-- The address space `vs`, which was made when memory was `m0`, owns what its lower
half leads to, and its upper half is that of the kernel. -/
structure Owned (m0 : PhysMem) (kernel vs : Vspace) (m : PhysMem) : Prop where
  kernel_entry : ∀ p j, ¬ UserPath (p ++ [j]) → p.length ≤ 3 →
    entry m vs p j = entry m0 kernel p j
  inj : ∀ p q f, UserPath p → UserPath q → p.length ≤ 4 → q.length ≤ 4 →
    walk m vs p = some f → walk m vs q = some f → p = q
  taken : ∀ p f, UserPath p → p.length ≤ 4 → walk m vs p = some f → m0.Free f ∧ ¬ m.Free f
  free : ∀ f, m.Free f → m0.Free f
  size_eq : m.size = m0.size
  balanced : Balanced m0 m

/-- A frame that was taken and that is not in the tables. -/
def Loose (m0 : PhysMem) (vs : Vspace) (m : PhysMem) (f : Nat) : Prop :=
  m0.Free f ∧ ¬ m.Free f ∧ ∀ p, UserPath p → p.length ≤ 4 → walk m vs p ≠ some f

namespace Owned

variable {m0 m : PhysMem} {kernel vs : Vspace}

/-- Paths of the upper half lead where they do in the kernel. -/
theorem walk_kernel (h : Owned m0 kernel vs m) {p : Path} (hp : ¬ UserPath p)
    (hlen : p.length ≤ 4) : walk m vs p = walk m0 kernel p := by
  induction p using List.reverseRecOn with
  | nil => exact absurd trivial hp
  | append_singleton p j _ =>
      rw [List.length_append, List.length_singleton] at hlen
      rw [walk_snoc_entry, walk_snoc_entry, h.kernel_entry p j hp (by omega)]

theorem separated (h : Owned m0 kernel vs m) (hk : KernelTables m0 kernel) : Separated m vs := by
  intro p q f hp hq hpf hqf
  by_cases hup : UserPath p
  · by_cases huq : UserPath q
    · exact h.inj p q f hup huq (by omega) (by omega) hpf hqf
    · have hkf : walk m vs q = some f := hqf
      rw [h.walk_kernel huq (by omega)] at hkf
      exact absurd (h.taken p f hup (by omega) hpf).1 (hk.used f ⟨q, hq, hkf⟩)
  · have hkp : walk m vs p = some f := hpf
    rw [h.walk_kernel hup (by omega)] at hkp
    by_cases huq : UserPath q
    · exact absurd (h.taken q f huq (by omega) hqf).1 (hk.used f ⟨p, hp, hkp⟩)
    · have hkq : walk m vs q = some f := hqf
      rw [h.walk_kernel huq (by omega)] at hkq
      exact hk.separated p q f hp hq hkp hkq

theorem tablesUsed (h : Owned m0 kernel vs m) (hk : KernelTables m0 kernel) :
    TablesUsed m vs := by
  rintro f ⟨q, hq, hw⟩ hfree
  by_cases hu : UserPath q
  · exact (h.taken q f hu (by omega) hw).2 hfree
  · rw [h.walk_kernel hu (by omega)] at hw
    exact hk.used f ⟨q, hq, hw⟩ (h.free f hfree)

end Owned

/-- A new address space owns its PML4 table. -/
theorem Created.owned {m0 m : PhysMem} {kernel vs : Vspace} (h : Created m0 kernel vs m)
    (hused : TablesUsed m0 kernel) : Owned m0 kernel vs m ∧ ∀ f, ¬ Loose m0 vs m f := by
  -- only the empty path leads anywhere in the lower half
  have hroot : ∀ p f, UserPath p → p.length ≤ 4 → walk m vs p = some f →
      p = [] ∧ f = vs.pml4Ppn := by
    intro p f hu hp hw
    cases p with
    | nil => exact ⟨rfl, (Option.some.inj hw).symm⟩
    | cons i p =>
        have hi : i.val < 256 := hu
        rw [List.length_cons] at hp
        rw [h.walk_cons hused i (by omega), if_neg (by omega)] at hw
        cases hw
  refine ⟨⟨?_, ?_, ?_, ?_, h.size_eq, ?_⟩, ?_⟩
  · intro p j hk hp
    cases p with
    | nil =>
        have hj : 256 ≤ j.val := Nat.not_lt.mp hk
        rw [entry_eq, entry_eq, walk, walk, Radix.node_nil, Radix.node_nil, Option.map_some,
          Option.map_some, h.tables_eq, if_pos rfl, if_pos hj]
    | cons i p =>
        have hi : 256 ≤ i.val := Nat.not_lt.mp hk
        rw [List.length_cons] at hp
        rw [h.entry_cons hused i j (by omega), if_pos hi]
  · intro p q f hup huq hp hq hpf hqf
    rw [(hroot p f hup hp hpf).1, (hroot q f huq hq hqf).1]
  · intro p f hu hp hw
    obtain ⟨-, rfl⟩ := hroot p f hu hp hw
    exact ⟨h.free, fun hfree => ((h.free_iff _).mp hfree).2 rfl⟩
  · exact fun f hf => ((h.free_iff f).mp hf).1
  · exact (Balanced.refl m0).alloc h.free h.free h.free_iff h.calls_eq
  · rintro f ⟨h0, hf, hno⟩
    refine hno [] userPath_nil (Nat.zero_le 4) (congrArg some ?_)
    by_contra hne
    exact hf ((h.free_iff f).mpr ⟨h0, fun he => hne he.symm⟩)

/-! ## Giving a frame back -/

/-- A loose frame can be released. -/
theorem Owned.release {m0 m : PhysMem} {kernel vs : Vspace} {p : Nat}
    (ho : Owned m0 kernel vs m) (hp : Loose m0 vs m p) :
    Owned m0 kernel vs (freePage m p) ∧
      ∀ f, Loose m0 vs (freePage m p) f ↔ Loose m0 vs m f ∧ f ≠ p := by
  obtain ⟨h0, hused, hno⟩ := hp
  have hwalk : ∀ q, walk (freePage m p) vs q = walk m vs q := walk_freePage m p vs
  have hfree : ∀ f, (freePage m p).Free f ↔ m.Free f ∨ f = p := by
    intro f
    rw [freePage_free, ho.size_eq]
    exact or_congr Iff.rfl ⟨And.left, fun he => ⟨he, h0.1⟩⟩
  refine ⟨⟨?_, ?_, ?_, ?_, ?_, ho.balanced.free h0 hused hfree (freePage_calls m p)⟩, fun f => ?_⟩
  · intro q j hk hq
    rw [entry_freePage]
    exact ho.kernel_entry q j hk hq
  · intro q r f huq hur hq hr hqf hrf
    rw [hwalk] at hqf hrf
    exact ho.inj q r f huq hur hq hr hqf hrf
  · intro q f huq hq hw
    rw [hwalk] at hw
    obtain ⟨hf0, hf⟩ := ho.taken q f huq hq hw
    refine ⟨hf0, fun hfr => ((hfree f).mp hfr).elim hf ?_⟩
    rintro rfl
    exact hno q huq hq hw
  · intro f hf
    rcases (hfree f).mp hf with hf | rfl
    · exact ho.free f hf
    · exact h0
  · rw [freePage_size, ho.size_eq]
  · simp only [Loose, hwalk, hfree f]
    constructor
    · rintro ⟨hf0, hf, hnof⟩
      exact ⟨⟨hf0, fun hfr => hf (.inl hfr), hnof⟩, fun he => hf (.inr he)⟩
    · rintro ⟨⟨hf0, hf, hnof⟩, hne⟩
      exact ⟨hf0, fun hor => hor.elim hf hne, hnof⟩

/-! ## Adding tables -/

section

variable {m0 m m' : PhysMem} {kernel vs : Vspace}

/-- A free frame is nowhere in the lower half. -/
theorem Owned.walk_ne_free (h : Owned m0 kernel vs m) {g : Nat} (hg : m.Free g) {p : Path}
    (hu : UserPath p) (hp : p.length ≤ 4) : walk m vs p ≠ some g :=
  fun hw => (h.taken p g hu hp hw).2 hg

/-- One path more leads to a frame, which was in no other place. -/
theorem Owned.add (h : Owned m0 kernel vs m) {r : Path} {g : Nat}
    (hwalk : ∀ q, q.length ≤ 4 → walk m' vs q = if q = r then some g else walk m vs q)
    (hentry : ∀ p j, ¬ UserPath (p ++ [j]) → p.length ≤ 3 → entry m' vs p j = entry m vs p j)
    (hfresh : ∀ q, UserPath q → q.length ≤ 4 → walk m vs q ≠ some g) (h0 : m0.Free g)
    (hg : ¬ m'.Free g) (hfree : ∀ f, m'.Free f → m.Free f) (hsize : m'.size = m.size)
    (hbalanced : Balanced m0 m') : Owned m0 kernel vs m' := by
  refine ⟨?_, ?_, ?_, fun f hf => h.free f (hfree f hf), hsize.trans h.size_eq, hbalanced⟩
  · intro p j hk hp
    rw [hentry p j hk hp, h.kernel_entry p j hk hp]
  · intro p q f hup huq hp hq hpf hqf
    rw [hwalk p hp] at hpf
    rw [hwalk q hq] at hqf
    split at hpf <;> split at hqf
    · rename_i hpr hqr
      rw [hpr, hqr]
    · exact absurd (hqf.trans hpf.symm) (hfresh q huq hq)
    · exact absurd (hpf.trans hqf.symm) (hfresh p hup hp)
    · exact h.inj p q f hup huq hp hq hpf hqf
  · intro p f hu hp hw
    rw [hwalk p hp] at hw
    split at hw
    · obtain rfl := Option.some.inj hw
      exact ⟨h0, hg⟩
    · obtain ⟨h1, h2⟩ := h.taken p f hu hp hw
      exact ⟨h1, fun hf => h2 (hfree f hf)⟩

/-- The frame at the end of that path is the one that is not loose for it. -/
theorem walk_ne_iff_of_add {r : Path} {g : Nat}
    (hwalk : ∀ q, q.length ≤ 4 → walk m' vs q = if q = r then some g else walk m vs q)
    (hu : UserPath r) (hr : r.length ≤ 4) (hnone : walk m vs r = none) (f : Nat) :
    (∀ q, UserPath q → q.length ≤ 4 → walk m' vs q ≠ some f) ↔
      (∀ q, UserPath q → q.length ≤ 4 → walk m vs q ≠ some f) ∧ f ≠ g := by
  constructor
  · intro hno
    refine ⟨fun q huq hq => ?_, ?_⟩
    · by_cases hqr : q = r
      · rw [hqr, hnone]
        nofun
      · have hq' := hno q huq hq
        rw [hwalk q hq, if_neg hqr] at hq'
        exact hq'
    · rintro rfl
      exact hno r hu hr (by rw [hwalk r hr, if_pos rfl])
  · rintro ⟨hno, hne⟩ q huq hq
    rw [hwalk q hq]
    split
    · exact fun he => hne (Option.some.inj he).symm
    · exact hno q huq hq

/-- A table that is added is owned. -/
theorem Installed.owned {p : Path} {i : Fin 512} {g : Nat} (h : Installed vs m p i g m')
    (ho : Owned m0 kernel vs m) (hu : UserPath (p ++ [i])) :
    Owned m0 kernel vs m' ∧ ∀ f, Loose m0 vs m' f ↔ Loose m0 vs m f := by
  have hlen : (p ++ [i]).length ≤ 4 := by
    have hdepth := h.depth
    rw [List.length_append, List.length_singleton]
    omega
  refine ⟨ho.add h.walk_eq ?_ (fun q => ho.walk_ne_free h.free) (ho.free g h.free)
    (fun hf => ((h.free_iff g).mp hf).2 rfl) (fun f hf => ((h.free_iff f).mp hf).1) h.size_eq
    (ho.balanced.alloc (ho.free g h.free) h.free h.free_iff h.calls_eq), fun f => ?_⟩
  · intro q j hk hq
    refine h.entry_keep q j hq ?_ ?_
    · rintro ⟨rfl, rfl⟩
      exact hk hu
    · rintro rfl
      exact hk ((userPath_extend (List.prefix_append _ [j]) (by simp)).mp hu)
  · rw [Loose, Loose, walk_ne_iff_of_add h.walk_eq hu hlen h.empty, h.free_iff f]
    constructor
    · rintro ⟨h0, hf, hno, hne⟩
      exact ⟨h0, fun hf' => hf ⟨hf', hne⟩, hno⟩
    · rintro ⟨h0, hf, hno⟩
      refine ⟨h0, fun hf' => hf hf'.1, hno, ?_⟩
      rintro rfl
      exact hf h.free

theorem Grows.owned {path : Path} (h : Grows vs path m m') (ho : Owned m0 kernel vs m)
    (hu : UserPath path) :
    Owned m0 kernel vs m' ∧ ∀ f, Loose m0 vs m' f ↔ Loose m0 vs m f := by
  induction h with
  | refl => exact ⟨ho, fun _ => Iff.rfl⟩
  | install hi hp _ ih =>
      obtain ⟨ho1, hl1⟩ := hi.owned ho ((userPath_extend hp (by simp)).mpr hu)
      obtain ⟨ho2, hl2⟩ := ih ho1
      exact ⟨ho2, fun f => (hl2 f).trans (hl1 f)⟩

/-! ## Mapping and unmapping a page -/

/-- The entries of the upper half do not change with one of the lower half. -/
theorem EntrySet.kernel_entry {virt : Nat} {e : Gpte} (h : EntrySet vs m virt e m')
    (hu : UserPath (pagePath virt)) :
    ∀ p j, ¬ UserPath (p ++ [j]) → p.length ≤ 3 → entry m' vs p j = entry m vs p j := by
  intro p j hk hp
  refine h.entry_keep p j hp ?_
  rintro ⟨rfl, rfl⟩
  exact hk hu

/-- A loose frame that is mapped is owned and not loose any more. -/
theorem EntrySet.owned_map {virt p flags : Nat} {e : Gpte}
    (h : EntrySet vs m virt (pageEntry e p flags) m') (ho : Owned m0 kernel vs m)
    (hu : UserPath (pagePath virt)) (hp : Loose m0 vs m p)
    (hnone : walk m vs (pagePath virt) = none) (hfp : m'.freePages = m.freePages)
    (hcalls : m'.calls = m.calls) :
    Owned m0 kernel vs m' ∧ ∀ f, Loose m0 vs m' f ↔ Loose m0 vs m f ∧ f ≠ p := by
  have hlt : p < 2 ^ 32 := Nat.lt_of_lt_of_le hp.1.1 m0.freePages.small
  have hchild : (pageEntry e p flags).child = some p := by
    rw [Gpte.child_eq, pageEntry_mapping e flags (by omega)]
    rfl
  have hwalk : ∀ q, q.length ≤ 4 →
      walk m' vs q = if q = pagePath virt then some p else walk m vs q := by
    intro q hq
    rw [h.walk_eq q hq, hchild]
  have hfree : ∀ f, m'.Free f ↔ m.Free f := fun f => by rw [PhysMem.Free, hfp]
  refine ⟨ho.add hwalk (h.kernel_entry hu) hp.2.2 hp.1 (fun hf => hp.2.1 ((hfree p).mp hf))
    (fun f => (hfree f).mp) (by rw [PhysMem.size, hfp]) (ho.balanced.congr hfp hcalls),
    fun f => ?_⟩
  rw [Loose, Loose, walk_ne_iff_of_add hwalk hu (Nat.le_refl 4) hnone, hfree f]
  constructor
  · rintro ⟨h0, hf, hno, hne⟩
    exact ⟨⟨h0, hf, hno⟩, hne⟩
  · rintro ⟨⟨h0, hf, hno⟩, hne⟩
    exact ⟨h0, hf, hno, hne⟩

/-- The frame of a page of the lower half is loose when the entry is cleared. -/
theorem EntrySet.owned_clear {virt f : Nat} (h : EntrySet vs m virt noGpte m')
    (ho : Owned m0 kernel vs m) (hu : UserPath (pagePath virt))
    (hw : walk m vs (pagePath virt) = some f) (hfp : m'.freePages = m.freePages)
    (hcalls : m'.calls = m.calls) :
    Owned m0 kernel vs m' ∧ ∀ g, Loose m0 vs m' g ↔ Loose m0 vs m g ∨ g = f := by
  obtain ⟨h0, hf⟩ := ho.taken _ f hu (Nat.le_refl 4) hw
  have hwalk : ∀ q, q.length ≤ 4 →
      walk m' vs q = if q = pagePath virt then none else walk m vs q := h.walk_eq
  have hfree : ∀ g, m'.Free g ↔ m.Free g := fun g => by rw [PhysMem.Free, hfp]
  -- the page was the only place of its frame
  have hkeep : ∀ q g, UserPath q → q.length ≤ 4 →
      (walk m' vs q = some g ↔ walk m vs q = some g ∧ g ≠ f) := by
    intro q g huq hq
    rw [hwalk q hq]
    split
    · rename_i he
      rw [he, hw]
      constructor
      · intro hnone
        cases hnone
      · exact fun hg => absurd (Option.some.inj hg.1).symm hg.2
    · rename_i hne
      refine ⟨fun hg => ⟨hg, ?_⟩, And.left⟩
      rintro rfl
      exact hne (ho.inj q _ g huq hu hq (Nat.le_refl 4) hg hw)
  refine ⟨⟨?_, ?_, ?_, ?_, ?_, ho.balanced.congr hfp hcalls⟩, fun g => ?_⟩
  · intro p j hk hp
    rw [h.kernel_entry hu p j hk hp, ho.kernel_entry p j hk hp]
  · intro p q g hup huq hp hq hpg hqg
    exact ho.inj p q g hup huq hp hq ((hkeep p g hup hp).mp hpg).1 ((hkeep q g huq hq).mp hqg).1
  · intro p g hup hp hpg
    obtain ⟨hg0, hgf⟩ := ho.taken p g hup hp ((hkeep p g hup hp).mp hpg).1
    exact ⟨hg0, fun hfr => hgf ((hfree g).mp hfr)⟩
  · exact fun g hg => ho.free g ((hfree g).mp hg)
  · rw [PhysMem.size, hfp]
    exact ho.size_eq
  · constructor
    · rintro ⟨hg0, hg, hno⟩
      by_cases hgf : g = f
      · exact .inr hgf
      · exact .inl ⟨hg0, fun hfr => hg ((hfree g).mpr hfr),
          fun q huq hq hwg => hno q huq hq ((hkeep q g huq hq).mpr ⟨hwg, hgf⟩)⟩
    · rintro (⟨hg0, hg, hno⟩ | rfl)
      · exact ⟨hg0, fun hfr => hg ((hfree g).mp hfr),
          fun q huq hq hwg => hno q huq hq ((hkeep q g huq hq).mp hwg).1⟩
      · exact ⟨h0, fun hfr => hf ((hfree g).mp hfr),
          fun q huq hq hwg => ((hkeep q g huq hq).mp hwg).2 rfl⟩

/-- A page of the lower half that is unmapped gives its frame back. -/
theorem EntrySet.owned_unmap {virt f : Nat} (h : EntrySet vs m virt noGpte m')
    (ho : Owned m0 kernel vs m) (hu : UserPath (pagePath virt))
    (hw : walk m vs (pagePath virt) = some f) (hfp : m'.freePages = m.freePages)
    (hcalls : m'.calls = m.calls) :
    Owned m0 kernel vs (freePage m' f) ∧
      ∀ g, Loose m0 vs (freePage m' f) g ↔ Loose m0 vs m g := by
  obtain ⟨ho', hloose⟩ := h.owned_clear ho hu hw hfp hcalls
  obtain ⟨ho'', hrelease⟩ := ho'.release ((hloose f).mpr (.inr rfl))
  refine ⟨ho'', fun g => ?_⟩
  rw [hrelease g, hloose g]
  constructor
  · rintro ⟨hg | he, hne⟩
    · exact hg
    · exact absurd he hne
  · rintro hg
    refine ⟨.inl hg, ?_⟩
    rintro rfl
    exact hg.2.2 _ hu (Nat.le_refl 4) hw

/-- `vspace_unmap` of a page that is in the lower half if it is mapped. -/
theorem Owned.unmap (ho : Owned m0 kernel vs m) (hk : KernelTables m0 kernel) {virt : Nat}
    (hu : translation m vs virt ≠ none → virt % 2 ^ 36 < 2 ^ 35) :
    ∃ m', vspaceUnmap m vs virt = ((translation m vs virt).isSome, m') ∧
      Owned m0 kernel vs m' ∧ (∀ f, Loose m0 vs m' f ↔ Loose m0 vs m f) ∧
      ∀ w, translation m' vs w =
        if w % 2 ^ 36 = virt % 2 ^ 36 then none else translation m vs w := by
  cases htr : translation m vs virt with
  | none =>
      refine ⟨m, vspaceUnmap_none htr, ho, fun _ => Iff.rfl, fun w => ?_⟩
      split
      · rename_i hw
        rw [translation_mod m vs hw, htr]
      · rfl
  | some mp =>
      have hup : UserPath (pagePath virt) :=
        userPath_pagePath.mpr (hu (by rw [htr]; nofun))
      have hw : walk m vs (pagePath virt) = some mp.ppn := by rw [walk_pagePath, htr]; rfl
      obtain ⟨h0, -⟩ := ho.taken _ mp.ppn hup (Nat.le_refl 4) hw
      have hlt : mp.ppn < 2 ^ 32 := Nat.lt_of_lt_of_le h0.1 m0.freePages.small
      obtain ⟨m1, heq, hset, hfp, hcalls⟩ :=
        vspaceUnmap_some (ho.separated hk) htr (by omega)
      obtain ⟨ho', hloose⟩ := hset.owned_unmap ho hup hw hfp hcalls
      refine ⟨_, heq, ho', hloose, fun w => ?_⟩
      rw [translation_freePage]
      exact hset.translation_eq w

end

end UlmerOS
