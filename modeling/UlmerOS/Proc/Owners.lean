import UlmerOS.Lib.Ownership
import UlmerOS.Proc.Conservation
import UlmerOS.Proc.Teardown

/-!
# Physical memory and its owners

Frames are the places of a store that address spaces share (`PhysMem.store`), and an
address space owns the tables and pages of its lower half (`frames`).

What an address space does to itself is confined to the frames it owns: a page that is
mapped, pages that are unmapped, a stack that is unwound, and its end.  It is then a
matter of the store that the other address spaces do not notice (`Owned.frame`).
-/

namespace UlmerOS

open ByteMem Ownership

/-! ## Frames as places -/

theorem Gpte.encode_decode {w : Nat} (h : w < 256 ^ 8) : (Gpte.decode w).encode = w := by
  have hbit : ∀ n : Nat, (decide (n % 2 = 1)).toNat = n % 2 := by
    intro n
    rcases Nat.mod_two_eq_zero_or_one n with h | h <;> rw [h] <;> rfl
  simp only [encode, decode, hbit, Fin.val_ofNat]
  omega

/-- A frame that holds the same table has the same bytes. -/
theorem ram_eq_of_tables {ram ram' : Mem} {f : Nat} (h : tables ram' f = tables ram f) {x : Nat}
    (hx : x / pageSize = f) : ram' x = ram x := by
  rw [pageSize] at hx
  have hi : x % 4096 / 8 < 512 := by omega
  have hload := congrArg Gpte.encode (congrFun h ⟨x % 4096 / 8, hi⟩)
  rw [tables, tables, Gpte.encode_decode (load_lt _ _ 8),
    Gpte.encode_decode (load_lt _ _ 8)] at hload
  have hbyte := bytes_of_load_eq hload (i := x % 8) (by omega)
  have hsum : pageSize * f + 8 * (x % 4096 / 8) + x % 8 = x := by
    rw [pageSize]
    omega
  rw [hsum] at hbyte
  exact hbyte

/-- The frames of memory, each with its table, and those of them that are free. -/
def PhysMem.store (m : PhysMem) : Store Nat (Fin 512 → Gpte) where
  value := tables m.ram
  free := {f | m.Free f}

/-- The frames that an address space owns. -/
def frames (m : PhysMem) (vs : Vspace) : Set Nat := {f | OwnsFrame m vs f}

@[simp] theorem mem_store_free {m : PhysMem} {f : Nat} : f ∈ m.store.free ↔ m.Free f := Iff.rfl

@[simp] theorem store_value (m : PhysMem) : m.store.value = tables m.ram := rfl

theorem mem_frames {m : PhysMem} {vs : Vspace} {f : Nat} :
    f ∈ frames m vs ↔ ∃ p : Path, UserPath p ∧ p.length ≤ 4 ∧ walk m vs p = some f :=
  ownsFrame_iff

@[simp] theorem frames_freePage (m : PhysMem) (f : Nat) (vs : Vspace) :
    frames (freePage m f) vs = frames m vs := by
  ext g
  simp only [mem_frames, walk_freePage]

section

variable {m0 m m' : PhysMem} {kernel vs : Vspace}

/-- The frames that are owned are not free, and they were free when memory was `m0`. -/
theorem Owned.frames_taken (ho : Owned m0 kernel vs m) {f : Nat} (hf : f ∈ frames m vs) :
    m0.Free f ∧ ¬ m.Free f := by
  obtain ⟨p, hu, hp, hw⟩ := mem_frames.mp hf
  exact ho.taken p f hu hp hw

/-- The frame of a user page is owned. -/
theorem mem_frames_of_translation {virt : Nat} {mp : Mapping} (h : translation m vs virt = some mp)
    (hu : virt % 2 ^ 36 < 2 ^ 35) : mp.ppn ∈ frames m vs := by
  refine mem_frames.mpr ⟨pagePath virt, userPath_pagePath.mpr hu, Nat.le_refl 4, ?_⟩
  rw [walk_pagePath, h]
  rfl

/-! ## Confined to what is owned -/

/-- A table that the address space does not own is one of the kernel. -/
theorem Owned.kernel_table (ho : Owned m0 kernel vs m) (ho' : Owned m0 kernel vs m') {f : Nat}
    (hf : IsTable m vs f) (hno : f ∉ frames m vs) : tables m'.ram f = tables m.ram f := by
  obtain ⟨p, hp, hw⟩ := hf
  have hk : ¬ UserPath p := fun hu => hno (mem_frames.mpr ⟨p, hu, by omega, hw⟩)
  have hw' : walk m' vs p = some f := by
    rw [ho'.walk_kernel hk (by omega), ← ho.walk_kernel hk (by omega), hw]
  funext i
  have hki : ¬ UserPath (p ++ [i]) := by
    cases p with
    | nil => exact absurd trivial hk
    | cons j p => exact hk
  have hentry := (ho'.kernel_entry p i hki hp).trans (ho.kernel_entry p i hki hp).symm
  rw [entry_eq, entry_eq, hw, hw'] at hentry
  exact Option.some.inj hentry

/-- An operation is confined if it writes to tables and to frames that were free. -/
theorem Owned.confined (ho : Owned m0 kernel vs m) (ho' : Owned m0 kernel vs m')
    (hram : ∀ f, ¬ m.Free f → ¬ IsTable m vs f → f ∉ frames m vs →
      ∀ x, x / pageSize = f → m'.ram x = m.ram x)
    (hfree : ∀ f, m'.Free f → m.Free f ∨ f ∈ frames m vs)
    (hmine : ∀ f, f ∈ frames m' vs → f ∈ frames m vs ∨ m.Free f) :
    Confined (frames m vs) (frames m' vs) m.store m'.store where
  keep := by
    intro f hf hno
    by_cases ht : IsTable m vs f
    · exact ho.kernel_table ho' ht hno
    · exact funext (tables_congr (hram f hf ht hno))
  free_sub := hfree
  mine_sub := hmine

/-- Tables that are added are frames that were free. -/
theorem Grows.frames_sub {path : Path} (h : Grows vs path m m') {f : Nat}
    (hf : f ∈ frames m' vs) : f ∈ frames m vs ∨ m.Free f := by
  induction h with
  | refl => exact .inl hf
  | install hi _ _ ih =>
      rcases ih hf with hf1 | hfree
      · obtain ⟨p, hu, hp, hw⟩ := mem_frames.mp hf1
        rw [hi.walk_eq p hp] at hw
        split at hw
        · obtain rfl := Option.some.inj hw
          exact .inr hi.free
        · exact .inl (mem_frames.mpr ⟨p, hu, hp, hw⟩)
      · exact .inr ((hi.free_iff f).mp hfree).1

theorem Filled.frames_eq {p : Nat} {bytes : List UInt8} (h : Filled m p bytes m')
    (hused : TablesUsed m vs) : frames m' vs = frames m vs := by
  ext f
  rw [mem_frames, mem_frames]
  constructor
  · rintro ⟨q, hu, hq, hw⟩
    exact ⟨q, hu, hq, (h.walk_eq hused hq).symm.trans hw⟩
  · rintro ⟨q, hu, hq, hw⟩
    exact ⟨q, hu, hq, (h.walk_eq hused hq).trans hw⟩

/-- A fault writes to tables and to the frame it takes. -/
theorem MapFresh.ram_keep {virt flags : Nat} {ret : Int} {bytes : List UInt8} {ok : Bool}
    (h : MapFresh vs m virt ret bytes flags ok m') (hused : TablesUsed m vs) {f : Nat}
    (hf : ¬ m.Free f) (ht : ¬ IsTable m vs f) : ∀ x, x / pageSize = f → m'.ram x = m.ram x := by
  have hfill_ram : ∀ p m1, Filled m p bytes m1 → ∀ x, x / pageSize = f → m1.ram x = m.ram x := by
    intro p m1 hfill x hx
    refine hfill.ram_keep x ?_
    rw [hx]
    rintro rfl
    exact hf hfill.free
  intro x hx
  cases h with
  | @failed m1 p _ hfill =>
      rw [freePage_ram]
      exact hfill_ram p m1 hfill x hx
  | @mapped m1 _ p _ hfill hmapped =>
      cases hmapped with
      | present _ => exact hfill_ram p _ hfill x hx
      | added _ hg hset _ _ =>
          have hf1 : ¬ m1.Free f := fun hfr => hf ((hfill.free_iff f).mp hfr).1
          have ht1 : ¬ IsTable m1 vs f := fun h1 => ht ((hfill.isTable_iff hused).mp h1)
          obtain ⟨ht2, hram⟩ := hg.keeps hf1 ht1
          rw [hset.ram_keep x (by rw [hx]; exact ht2), hram x hx, hfill_ram p m1 hfill x hx]

/-- A page fault. -/
theorem MapFresh.confined {virt flags : Nat} {ret : Int} {bytes : List UInt8} {ok : Bool}
    (h : MapFresh vs m virt ret bytes flags ok m') (ho : Owned m0 kernel vs m)
    (ho' : Owned m0 kernel vs m') (hk : KernelTables m0 kernel) :
    Confined (frames m vs) (frames m' vs) m.store m'.store := by
  have hused := ho.tablesUsed hk
  refine ho.confined ho' (fun f hf ht _ => h.ram_keep hused hf ht) ?_ ?_
  · -- a frame that was taken is given back or kept
    intro f hf
    cases h with
    | failed _ hfill =>
        rcases freePage_free.mp hf with hf1 | ⟨rfl, -⟩
        · exact .inl ((hfill.free_iff f).mp hf1).1
        · exact .inl hfill.free
    | mapped _ hfill hmapped =>
        cases hmapped with
        | present _ => exact .inl ((hfill.free_iff f).mp hf).1
        | added _ hg _ hfp _ =>
            rw [PhysMem.Free, hfp] at hf
            exact .inl ((hfill.free_iff f).mp (hg.free_le hf)).1
  · intro f hf
    cases h with
    | failed _ hfill =>
        rw [frames_freePage, hfill.frames_eq hused] at hf
        exact .inl hf
    | @mapped m1 _ p _ hfill hmapped =>
        cases hmapped with
        | present _ =>
            rw [hfill.frames_eq hused] at hf
            exact .inl hf
        | @added m2 _ e _ hg hset _ _ =>
            obtain ⟨q, hu, hq, hw⟩ := mem_frames.mp hf
            rw [hset.walk_eq q hq] at hw
            split at hw
            · -- the page that was mapped has the frame that was filled
              have hlt : p < 2 ^ 32 := Nat.lt_of_lt_of_le hfill.free.1 m.freePages.small
              rw [Gpte.child_eq, pageEntry_mapping e flags (by omega)] at hw
              obtain rfl : p = f := Option.some.inj hw
              exact .inr hfill.free
            · rcases hg.frames_sub (mem_frames.mpr ⟨q, hu, hq, hw⟩) with hf1 | hf1
              · rw [hfill.frames_eq hused] at hf1
                exact .inl hf1
              · exact .inr ((hfill.free_iff f).mp hf1).1

/-- A page that is mapped stays where it is. -/
theorem MapFresh.translation_keep {virt flags w : Nat} {ret : Int} {bytes : List UInt8} {ok : Bool}
    {mp : Mapping} (h : MapFresh vs m virt ret bytes flags ok m') (hused : TablesUsed m vs)
    (hw : translation m vs w = some mp) : translation m' vs w = some mp := by
  cases h with
  | failed _ hfill => rw [translation_freePage, hfill.translation_eq hused, hw]
  | mapped _ hfill hmapped =>
      cases hmapped with
      | present _ => rw [hfill.translation_eq hused, hw]
      | added hnone hg hset _ _ =>
          rw [hset.translation_eq, if_neg, hg.translation_eq, hfill.translation_eq hused, hw]
          intro hmod
          rw [hfill.translation_eq hused, ← translation_mod m vs hmod, hw] at hnone
          cases hnone

/-- Unmapping a page writes to no frame but to tables, and the tables stay. -/
theorem vspaceUnmap_ram (virt : Nat) (hsep : Separated m vs) :
    (∀ x, ¬ IsTable m vs (x / pageSize) → (vspaceUnmap m vs virt).2.ram x = m.ram x) ∧
      ∀ f, IsTable (vspaceUnmap m vs virt).2 vs f ↔ IsTable m vs f := by
  rcases vspaceUnmap_cases virt hsep with heq | ⟨mp, m1, -, heq, hset, -⟩
  · rw [heq]
    exact ⟨fun _ _ => rfl, fun _ => Iff.rfl⟩
  · rw [heq]
    exact ⟨fun x hx => by rw [freePage_ram]; exact hset.ram_keep x hx,
      fun f => isTable_freePage.trans hset.isTable_iff⟩

/-- The frame of a user page is no table. -/
theorem Owned.page_not_table (ho : Owned m0 kernel vs m) (hk : KernelTables m0 kernel) {virt : Nat}
    {mp : Mapping} (htr : translation m vs virt = some mp) (hu : virt % 2 ^ 36 < 2 ^ 35) :
    ¬ IsTable m vs mp.ppn := by
  have hpage : walk m vs (pagePath virt) = some mp.ppn := by
    rw [walk_pagePath, htr]
    rfl
  rintro ⟨q, hq, hw⟩
  by_cases huq : UserPath q
  · obtain rfl := ho.inj q _ _ huq (userPath_pagePath.mpr hu) (by omega) (Nat.le_refl 4) hw hpage
    exact absurd hq (by simp [pagePath])
  · rw [ho.walk_kernel huq (by omega)] at hw
    exact hk.used _ ⟨q, hq, hw⟩ (ho.frames_taken (mem_frames_of_translation htr hu)).1

/-- A page of the lower half that is unmapped. -/
theorem Owned.unmap_confined (ho : Owned m0 kernel vs m) (hk : KernelTables m0 kernel) {virt : Nat}
    (hu : translation m vs virt ≠ none → virt % 2 ^ 36 < 2 ^ 35)
    (ho' : Owned m0 kernel vs (vspaceUnmap m vs virt).2) :
    Confined (frames m vs) (frames (vspaceUnmap m vs virt).2 vs) m.store
      (vspaceUnmap m vs virt).2.store := by
  cases htr : translation m vs virt with
  | none =>
      rw [vspaceUnmap_none htr]
      exact .refl _ _
  | some mp =>
      have hup : virt % 2 ^ 36 < 2 ^ 35 := hu (by rw [htr]; nofun)
      have hmine := mem_frames_of_translation htr hup
      have hlt : mp.ppn < 2 ^ 32 :=
        Nat.lt_of_lt_of_le (ho.frames_taken hmine).1.1 m0.freePages.small
      obtain ⟨m1, heq, hset, hfp, -⟩ := vspaceUnmap_some (ho.separated hk) htr (by omega)
      rw [heq] at ho' ⊢
      refine ho.confined ho' ?_ ?_ ?_
      · intro f _ ht _ x hx
        rw [freePage_ram]
        exact hset.ram_keep x (by rw [hx]; exact ht)
      · intro f hf
        rcases freePage_free.mp hf with hf1 | ⟨rfl, -⟩
        · rw [PhysMem.Free, hfp] at hf1
          exact .inl hf1
        · exact .inr hmine
      · intro f hf
        rw [frames_freePage] at hf
        obtain ⟨q, huq, hq, hw⟩ := mem_frames.mp hf
        rw [hset.walk_eq q hq] at hw
        split at hw
        · cases hw
        · exact .inl (mem_frames.mpr ⟨q, huq, hq, hw⟩)

/-- Pages of the lower half that are unmapped. -/
theorem Owned.unmapRange_confined (ho : Owned m0 kernel vs m) (hk : KernelTables m0 kernel)
    (first n : Nat) (hu : ∀ page, first ≤ page → page < first + n → translation m vs page ≠ none →
      page % 2 ^ 36 < 2 ^ 35) :
    Confined (frames m vs) (frames (UlmerOS.unmapRange vs first n m) vs) m.store
      (UlmerOS.unmapRange vs first n m).store := by
  induction n generalizing first m with
  | zero => exact .refl _ _
  | succ n ih =>
      have hfirst := hu first (Nat.le_refl first) (by omega)
      obtain ⟨m1, heq, ho1, -, ht1⟩ := ho.unmap hk hfirst
      have hc1 := ho.unmap_confined hk hfirst (by rw [heq]; exact ho1)
      rw [heq] at hc1
      rw [UlmerOS.unmapRange, heq]
      refine hc1.trans (ih ho1 (first + 1) fun page h1 h2 hne => hu page (by omega) (by omega) ?_)
      -- what is mapped after the first page was mapped before
      rw [ht1 page] at hne
      split at hne
      · exact absurd rfl hne
      · exact hne

/-- A stack that is unwound, when its pages are counted. -/
theorem Owned.unwind_confined {fuel endPage first k n : Nat} (ho : Owned m0 kernel vs m)
    (hk : KernelTables m0 kernel) (hfirst : 0 < first) (hend : endPage + 1 = first + k)
    (hlt : first + k ≤ userBreak >>> pageShift) (hfuel : k ≤ fuel)
    (hn : n = mappedPages m vs first k) (hret : unwindStack vs fuel endPage n m = .ret m') :
    Owned m0 kernel vs m' ∧ (∀ f, Loose m0 vs m' f ↔ Loose m0 vs m f) ∧
      Confined (frames m vs) (frames m' vs) m.store m'.store := by
  have hunmap : ∀ m1 virt, (Owned m0 kernel vs m1 ∧ (∀ f, Loose m0 vs m1 f ↔ Loose m0 vs m f) ∧
        Confined (frames m vs) (frames m1 vs) m.store m1.store) →
      first ≤ virt → virt < first + k →
      ∃ m2, vspaceUnmap m1 vs virt = ((translation m1 vs virt).isSome, m2) ∧
        (Owned m0 kernel vs m2 ∧ (∀ f, Loose m0 vs m2 f ↔ Loose m0 vs m f) ∧
          Confined (frames m vs) (frames m2 vs) m.store m2.store) ∧
        ∀ w, translation m2 vs w =
          if w % 2 ^ 36 = virt % 2 ^ 36 then none else translation m1 vs w := by
    rintro m1 virt ⟨ho1, hl1, hc1⟩ - h2
    have hu : translation m1 vs virt ≠ none → virt % 2 ^ 36 < 2 ^ 35 :=
      fun _ => lower_of_lt (Nat.lt_of_lt_of_le h2 hlt)
    obtain ⟨m2, heq, ho2, hl2, ht2⟩ := ho1.unmap hk hu
    have hc2 := ho1.unmap_confined hk hu (by rw [heq]; exact ho2)
    rw [heq] at hc2
    exact ⟨m2, heq, ⟨ho2, fun f => (hl2 f).trans (hl1 f), hc1.trans hc2⟩, ht2⟩
  obtain ⟨m2, hret2, hP, -, -⟩ :=
    unwindStack_ret hunmap ⟨ho, fun _ => Iff.rfl, .refl _ _⟩ hfirst hend hlt hfuel hn
  rw [hret] at hret2
  obtain rfl := Outcome.ret.inj hret2
  exact hP

/-- An address space that is deleted gives all its frames back. -/
theorem Owned.delete_confined (ho : Owned m0 kernel vs m) :
    Confined (frames m vs) ∅ m.store (vspaceDelete m vs).2.store where
  keep := by
    intro f _ _
    rw [store_value, vspaceDelete_eq ho.pml4Ppn_ne, foldl_freePage_ram, store_value]
  free_sub := by
    intro f hf
    refine ((ho.delete_free.2.2 f).mp hf).imp_right fun hmem => ?_
    exact mem_frames.mpr (mem_vspaceFrames.mp hmem)
  mine_sub := nofun

/-- An address space that is made takes free frames. -/
theorem Created.confined (h : Created m kernel vs m') (hused : TablesUsed m kernel) :
    Confined ∅ (frames m' vs) m.store m'.store where
  keep := by
    intro f hf _
    funext i
    exact h.tablesKept f hf i
  free_sub := fun f hf => .inl ((h.free_iff f).mp hf).1
  mine_sub := fun _ hf => .inr ((h.owned hused).1.frames_taken hf).1

/-- Bytes of a user page are written.  They are in no table. -/
theorem Owned.poke (ho : Owned m0 kernel vs m) (hk : KernelTables m0 kernel) {virt : Nat}
    {mp : Mapping} (htr : translation m vs virt = some mp) (hu : virt % 2 ^ 36 < 2 ^ 35)
    (hram : ∀ x, x / pageSize ≠ mp.ppn → m'.ram x = m.ram x)
    (hfp : m'.freePages = m.freePages) (hcalls : m'.calls = m.calls) :
    Owned m0 kernel vs m' ∧ frames m' vs = frames m vs ∧
      (∀ v, translation m' vs v = translation m vs v) ∧
      Confined (frames m vs) (frames m' vs) m.store m'.store := by
  have htab : ∀ x, IsTable m vs (x / pageSize) → m'.ram x = m.ram x := by
    intro x hx
    refine hram x fun he => ho.page_not_table hk htr hu ?_
    rw [← he]
    exact hx
  have hwalk : ∀ q : Path, q.length ≤ 4 → walk m' vs q = walk m vs q := fun q hq =>
    walk_congr htab hq
  have hfree : ∀ f, m'.Free f ↔ m.Free f := fun f => by rw [PhysMem.Free, hfp]
  have hframes : frames m' vs = frames m vs := by
    ext f
    rw [mem_frames, mem_frames]
    exact exists_congr fun q => and_congr_right fun _ => and_congr_right fun hq => by
      rw [hwalk q hq]
  have ho' : Owned m0 kernel vs m' := by
    refine ⟨?_, ?_, ?_, fun f hf => ho.free f ((hfree f).mp hf), ?_, ho.balanced.congr hfp hcalls⟩
    · intro p j hkp hp
      rw [entry_congr htab hp]
      exact ho.kernel_entry p j hkp hp
    · intro p q f hup huq hp hq hpf hqf
      rw [hwalk p hp] at hpf
      rw [hwalk q hq] at hqf
      exact ho.inj p q f hup huq hp hq hpf hqf
    · intro p f hup hp hw
      rw [hwalk p hp] at hw
      exact ⟨(ho.taken p f hup hp hw).1, fun hf => (ho.taken p f hup hp hw).2 ((hfree f).mp hf)⟩
    · rw [PhysMem.size, hfp]
      exact ho.size_eq
  refine ⟨ho', hframes, translation_congr htab, ho.confined ho' ?_ ?_ ?_⟩
  · intro f _ _ hno x hx
    refine hram x fun he => hno ?_
    rw [← hx, he]
    exact mem_frames_of_translation htr hu
  · exact fun f hf => .inl ((hfree f).mp hf)
  · intro f hf
    rw [hframes] at hf
    exact .inl hf

/-! ## The others -/

/-- What is true of memory since it was `m0`, whoever has used it: the frames that were in
use are as they were, and the others are counted. -/
structure Since (m0 m : PhysMem) : Prop where
  kept : TablesKept m0 m
  free : ∀ f, m.Free f → m0.Free f
  size_eq : m.size = m0.size
  balanced : Balanced m0 m

theorem Since.refl (m : PhysMem) : Since m m where
  kept := fun _ _ _ => rfl
  free := fun _ hf => hf
  size_eq := rfl
  balanced := .refl m

theorem Owned.since (ho : Owned m0 kernel vs m) (hkept : TablesKept m0 m) : Since m0 m :=
  ⟨hkept, ho.free, ho.size_eq, ho.balanced⟩

/-- What an owner does is not done to the frames that were in use. -/
theorem Since.tablesKept {mine' : Set Nat} (hs : Since m0 m) (ho : Owned m0 kernel vs m)
    (hc : Confined (frames m vs) mine' m.store m'.store) : TablesKept m0 m' := by
  intro f h0 i
  rw [← hs.kept f h0 i]
  refine congrFun (hc.keep f (fun hf => h0 (hs.free f hf)) fun hf => ?_) i
  exact h0 (ho.frames_taken hf).1

/-- The tables of the kernel are its tables still. -/
theorem Since.kernelTables (hs : Since m0 m) (hk : KernelTables m0 kernel) :
    KernelTables m kernel where
  separated :=
    Radix.Separated.of_node_eq hk.separated fun _ hq => hs.kept.walk_eq hk.used (by omega)
  used := fun f hf hfree => hk.used f ((hs.kept.isTable_iff hk.used).mp hf) (hs.free f hfree)
  direct := by
    intro virt mp hmp
    rw [hs.kept.translation_eq hk.used] at hmp
    exact hk.direct virt mp hmp

/-- An address space is not changed when its frames are not and the kernel is as it was. -/
theorem Owned.frame (ho : Owned m0 kernel vs m) (hk : KernelTables m0 kernel) (hs : Since m0 m)
    (hs' : Since m0 m') (hsame : ∀ f ∈ frames m vs, tables m'.ram f = tables m.ram f)
    (hused : ∀ f ∈ frames m vs, ¬ m'.Free f) :
    Owned m0 kernel vs m' ∧ (∀ q, q.length ≤ 4 → walk m' vs q = walk m vs q) ∧
      ∀ q i, q.length ≤ 3 → entry m' vs q i = entry m vs q i := by
  have htab : ∀ q f, q.length ≤ 3 → walk m vs q = some f → tables m'.ram f = tables m.ram f := by
    intro q f hq hw
    by_cases hu : UserPath q
    · exact hsame f (mem_frames.mpr ⟨q, hu, by omega, hw⟩)
    · -- a table of the kernel, in a frame that was in use
      rw [ho.walk_kernel hu (by omega)] at hw
      have h0 : ¬ m0.Free f := hk.used f ⟨q, hq, hw⟩
      funext i
      rw [hs'.kept f h0, hs.kept f h0]
  have hwalk : ∀ q, q.length ≤ 4 → walk m' vs q = walk m vs q := fun q hq =>
    Radix.node_congr (d := 3) (fun p f i hp hw => congrFun (htab p f hp hw) i) hq
  have hentry : ∀ q i, q.length ≤ 3 → entry m' vs q i = entry m vs q i := by
    intro q i hq
    rw [entry_eq, entry_eq, hwalk q (by omega)]
    cases hw : walk m vs q with
    | none => rfl
    | some f => exact congrArg some (congrFun (htab q f hq hw) i)
  refine ⟨⟨?_, ?_, ?_, hs'.free, hs'.size_eq, hs'.balanced⟩, hwalk, hentry⟩
  · intro p j hkp hp
    rw [hentry p j hp]
    exact ho.kernel_entry p j hkp hp
  · intro p q f hup huq hp hq hpf hqf
    rw [hwalk p hp] at hpf
    rw [hwalk q hq] at hqf
    exact ho.inj p q f hup huq hp hq hpf hqf
  · intro p f hu hp hw
    rw [hwalk p hp] at hw
    exact ⟨(ho.taken p f hu hp hw).1, hused f (mem_frames.mpr ⟨p, hu, hp, hw⟩)⟩

/-- A new address space, since memory was `m0`. -/
theorem Created.since (h : Created m kernel vs m') (hk : KernelTables m0 kernel)
    (hs : Since m0 m) : Since m0 m' ∧ Owned m0 kernel vs m' := by
  have hused := (hs.kernelTables hk).used
  obtain ⟨ho, -⟩ := h.owned hused
  have hs' : Since m0 m' := by
    refine ⟨fun f h0 i => ?_, fun f hf => hs.free f (ho.free f hf),
      h.size_eq.trans hs.size_eq, hs.balanced.alloc (hs.free _ h.free) h.free h.free_iff h.calls_eq⟩
    rw [h.tablesKept f (fun hf => h0 (hs.free f hf)) i, hs.kept f h0 i]
  refine ⟨hs', ?_, ho.inj, ?_, hs'.free, hs'.size_eq, hs'.balanced⟩
  · intro p j hkp hp
    rw [ho.kernel_entry p j hkp hp, entry_eq, entry_eq, hs.kept.walk_eq hk.used (by omega)]
    cases hw : walk m0 kernel p with
    | none => rfl
    | some f => exact congrArg some (hs.kept f (hk.used f ⟨p, hp, hw⟩) j)
  · intro p f hu hp hw
    obtain ⟨h1, h2⟩ := ho.taken p f hu hp hw
    exact ⟨hs.free f h1, h2⟩

/-- Memory after an address space was deleted. -/
theorem Owned.delete_since (ho : Owned m0 kernel vs m) (hs : Since m0 m) :
    Since m0 (vspaceDelete m vs).2 := by
  obtain ⟨hbalanced, hsize, -⟩ := ho.delete_free
  refine ⟨hs.tablesKept ho ho.delete_confined, fun f hf => ?_, hsize, hbalanced⟩
  rcases ho.delete_confined.free_sub f hf with hf1 | hf1
  · exact ho.free f hf1
  · exact (ho.frames_taken hf1).1

end

end UlmerOS
