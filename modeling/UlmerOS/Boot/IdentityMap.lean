import UlmerOS.Boot.IdMap

/-!
# The identity map of the boot loader

`paging_init` from its first call of `alloc_page` to the tables that the processor is given.
The pages are mapped to themselves if and only if there are at most `2^18` of them, which is
1 GiB of RAM (`identity_map_iff`).  Behind it page `2^18` is missing.
-/

namespace UlmerOS.Boot

open ByteMem

section

variable {frames : Nat → Nat} {ram : Mem}

/-! ## The first tables -/

/-- The state when the loop of `id_map` starts. -/
def idMapStart (frames : Nat → Nat) (ram : Mem) : BootState :=
  idMapTables frames (frames 1) (((bootState ram).allocPage frames).allocPage frames)

theorem idMapStart_tables (ram : Mem) {n : Nat} (hs : Supply frames n) (hn : 5 ≤ n) {a : Nat}
    (ha : 1 ≤ a) (ha' : a < 5) (i : Fin 512) :
    tables (idMapStart frames ram).ram (frames a) i =
      if a < 4 ∧ i.val = 0 then pte (frames (a + 1)) else noGpte := by
  have hlt : ∀ j < 5, frames j < 2 ^ 40 := fun j hj => hs.lt j (by omega)
  have heq : ∀ j < 5, (frames a = frames j ↔ a = j) :=
    fun j hj => hs.eq_iff (by omega) (by omega)
  -- The frames are cleared before the first entry is made.
  obtain ⟨st, hst, hclear⟩ : ∃ st : BootState, idMapStart frames ram =
      ((st.set (frames 1) 0 (pagEntry (frames 2 <<< pageShift))).set (frames 2) 0
        (pagEntry (frames 3 <<< pageShift))).set (frames 3) 0
        (pagEntry (frames 4 <<< pageShift)) ∧ tables st.ram (frames a) i = noGpte := by
    refine ⟨_, rfl, ?_⟩
    simp only [BootState.allocPage, bootState, tables_fill]
    simp only [heq 4 (by omega), heq 3 (by omega), heq 2 (by omega), heq 1 (by omega)]
    split_ifs <;> first | rfl | omega
  rw [hst, tables_set _ _ (by omega) (hlt 4 (by omega)),
    tables_set _ _ (by omega) (hlt 3 (by omega)), tables_set _ _ (by omega) (hlt 2 (by omega)),
    hclear]
  simp only [heq 3 (by omega), heq 2 (by omega), heq 1 (by omega)]
  obtain rfl | rfl | rfl | rfl : a = 1 ∨ a = 2 ∨ a = 3 ∨ a = 4 := by omega
  · simp
  · simp
  · simp
  · simp

/-- Nothing is mapped yet. -/
theorem idMapStart_shape (ram : Mem) {n : Nat} (hs : Supply frames n) (hn : 5 ≤ n) :
    Shape frames 0 (idMapStart frames ram) := by
  have ht := fun a (ha : 1 ≤ a) (ha' : a < 5) i => idMapStart_tables ram hs hn ha ha' i
  refine ⟨⟨rfl, rfl, rfl, rfl, rfl⟩, rfl, rfl, rfl, rfl, ?_, ?_, ?_, ?_, ?_⟩
  · intro i
    rw [ht 1 (by omega) (by omega)]
    simp
  · intro i
    rw [ht 2 (by omega) (by omega)]
    simp
  · intro i
    rw [ht 3 (by omega) (by omega)]
    by_cases hi : i.val = 0
    · rw [if_pos ⟨by omega, hi⟩, if_pos (by omega), hi]
      rfl
    · rw [if_neg (fun hc => hi hc.2), if_neg (by omega)]
  · intro hk
    omega
  · intro j hj i
    obtain rfl : j = 0 := by omega
    have h4 : ptblFrame 0 = 4 := rfl
    rw [h4, ht 4 (by omega) (by omega), if_neg (by omega), if_neg (by omega)]

/-! ## Walks -/

theorem pte_ppn {p : Nat} (h : p < 2 ^ 40) : ((pte p).ppn : Nat) = p := Nat.mod_eq_of_lt h

theorem translate_pte {f g : Nat} {i : Fin 512} (h : tables ram f i = pte g) (hg : g < 2 ^ 40)
    (path : List (Fin 512)) : translate ram f (i :: path) = translate ram g path := by
  have hp : (pte g).present = true := rfl
  have hw : (pte g).write = true := rfl
  rw [translate, h, if_pos hp, pte_ppn hg]
  simp only [hw, Bool.and_true, Prod.mk.eta, Option.map_id']

theorem translate_noGpte {f : Nat} {i : Fin 512} (h : tables ram f i = noGpte)
    (path : List (Fin 512)) : translate ram f (i :: path) = none := by
  rw [translate, h, if_neg (by decide)]

section

variable {st : BootState} {n m : Nat} (h : Shape frames n st) (hs : Supply frames m)
  (hm : st.next ≤ m) (hn : n ≤ 2 ^ 18)
  (hram : ∀ a < m, a ≠ 1 → ∀ i, tables ram (frames a) i = tables st.ram (frames a) i)
include h hs hm hn hram

omit hs in
/-- A page table, wherever it is reached from. -/
theorem Shape.translate_ptbl {q : Nat} (hq : 512 * q ≤ n) (l : Fin 512) :
    Boot.translate ram (frames (ptblFrame q)) [l] =
      if 512 * q + l.val < n then some (512 * q + l.val, true) else none := by
  have hqm : ptblFrame q < m := Nat.lt_of_lt_of_le (h.ptblFrame_lt hn hq) hm
  have he := (hram _ hqm (ne_ptblFrame (by omega) q).symm l).trans (h.ptble q hq l)
  split at he
  · rename_i hlt
    rw [translate_pte he (by omega), if_pos hlt]
    rfl
  · rename_i hge
    rw [translate_noGpte he, if_neg hge]

/-- The first directory. -/
theorem Shape.translate_pdir (j l : Fin 512) :
    Boot.translate ram (frames 3) [j, l] =
      if 512 * j.val + l.val < n then some (512 * j.val + l.val, true) else none := by
  have hnext := h.next
  have h3 := (hram 3 (by omega) (by omega) j).trans (h.pdire j)
  by_cases hjn : 512 * j.val ≤ n
  · rw [if_pos hjn] at h3
    have hjm : ptblFrame j < m := Nat.lt_of_lt_of_le (h.ptblFrame_lt hn hjn) hm
    rw [translate_pte h3 (hs.lt _ hjm), h.translate_ptbl hm hn hram hjn]
  · rw [if_neg hjn] at h3
    rw [translate_noGpte h3, if_neg (by omega)]

/-- The second directory maps nothing yet. -/
theorem Shape.translate_second (hge : 261632 ≤ n) (j l : Fin 512) :
    Boot.translate ram (frames 516) [j, l] = none := by
  have hnext := h.next
  have h5 := (hram 516 (by omega) (by omega) j).trans (h.second hge j)
  by_cases hj1 : j.val = 1 ∧ 2 ^ 18 ≤ n
  · rw [if_pos hj1] at h5
    have hjm : ptblFrame 512 < m := Nat.lt_of_lt_of_le (h.ptblFrame_lt hn (by omega)) hm
    rw [translate_pte h5 (hs.lt _ hjm), h.translate_ptbl hm hn hram (by omega),
      if_neg (by omega)]
  · rw [if_neg hj1] at h5
    rw [translate_noGpte h5]

/-- The directory pointer table leads to the pages that are mapped, and to no others. -/
theorem Shape.translate (i j l : Fin 512) :
    Boot.translate ram (frames 2) [i, j, l] =
      if 2 ^ 18 * i.val + 512 * j.val + l.val < n then
        some (2 ^ 18 * i.val + 512 * j.val + l.val, true)
      else none := by
  have hnext := h.next
  have h2 := (hram 2 (by omega) (by omega) i).trans (h.pdpte i)
  by_cases hi0 : i.val = 0
  · rw [if_pos hi0] at h2
    rw [translate_pte h2 (hs.lt 3 (by omega)), hi0, Nat.mul_zero, Nat.zero_add]
    exact h.translate_pdir hs hm hn hram j l
  · rw [if_neg hi0] at h2
    rw [if_neg (show ¬ 2 ^ 18 * i.val + 512 * j.val + l.val < n by omega)]
    by_cases hi1 : i.val = 1 ∧ 261632 ≤ n
    · rw [if_pos hi1] at h2
      rw [translate_pte h2 (hs.lt 516 (by omega))]
      exact h.translate_second hs hm hn hram hi1.2 j l
    · rw [if_neg hi1] at h2
      rw [translate_noGpte h2]

end

/-! ## The finished tables -/

theorem tableIndex_val (virt shift : Nat) :
    (tableIndex virt shift).val = virt / 2 ^ shift % 512 := by
  rw [tableIndex, Fin.val_ofNat, Nat.shiftRight_eq_div_pow]

/-- The state after `id_map`. -/
def idMapped (frames : Nat → Nat) (ram : Mem) (n : Nat) : BootState :=
  idMapPages frames (frames 1) n (idMapStart frames ram)

theorem five_le_next (frames : Nat → Nat) (ram : Mem) (n : Nat) :
    5 ≤ (idMapped frames ram n).next := by
  have h : (idMapStart frames ram).next ≤ (idMapped frames ram n).next := next_le_idMapPages n
  exact h

/-- The tables of up to `2^18` pages. -/
theorem idMapped_shape {n m : Nat} (hs : Supply frames m) (hm : (idMapped frames ram n).next ≤ m)
    (hn : n ≤ 2 ^ 18) : Shape frames n (idMapped frames ram n) := by
  have h := (idMapStart_shape ram hs (Nat.le_trans (five_le_next frames ram n) hm)).run hs
    (show 0 + n ≤ 2 ^ 18 by omega) hm
  rwa [Nat.zero_add] at h

/-- The last step copies entry 0 of the PML4 to entry 256. -/
theorem pagingInit_tables (frames : Nat → Nat) (ram : Mem) (n g : Nat) (i : Fin 512) :
    tables (pagingInit frames ram n).2.ram g i =
      if g = frames 1 ∧ i.val = 256 then tables (idMapped frames ram n).ram (frames 1) 0
      else tables (idMapped frames ram n).ram g i := by
  have h := tables_store (idMapped frames ram n).ram (frames 1) ⟨256, by omega⟩
    (load_lt (idMapped frames ram n).ram (pageSize * frames 1) 8) g i
  have h0 : tables (idMapped frames ram n).ram (frames 1) 0 =
      Gpte.decode (load (idMapped frames ram n).ram (pageSize * frames 1) 8) := by
    unfold tables
    rfl
  rw [h0]
  simp only [Fin.ext_iff] at h
  exact h

/-- The calls of `alloc_page` that `paging_init` makes. -/
theorem pagingInit_next (frames : Nat → Nat) (ram : Mem) (n : Nat) :
    (pagingInit frames ram n).2.next = (idMapped frames ram n).next := rfl

/-- Up to `2^18` pages are mapped to themselves. -/
theorem identityMapped_of_le {n : Nat} (hs : Supply frames (pagingInit frames ram n).2.next)
    (hn : n ≤ 2 ^ 18) :
    IdentityMapped (pagingInit frames ram n).2.ram (pagingInit frames ram n).1 n := by
  rw [pagingInit_next] at hs
  have hfive := five_le_next frames ram n
  have hshape := idMapped_shape hs (Nat.le_refl _) hn
  have htab := pagingInit_tables frames ram n
  have hram : ∀ a < (idMapped frames ram n).next, a ≠ 1 → ∀ i,
      tables (pagingInit frames ram n).2.ram (frames a) i =
        tables (idMapped frames ram n).ram (frames a) i := by
    intro a ha hne i
    rw [htab, if_neg (fun hc => hne ((hs.eq_iff ha (by omega)).1 hc.1))]
  have hlower := hshape.translate hs (Nat.le_refl _) hn hram
  have hpml4 : (pagingInit frames ram n).1 = frames 1 := rfl
  rw [hpml4]
  refine ⟨?_, ?_⟩
  · intro p hp hne
    have h4 : (tableIndex p 27).val = p / 2 ^ 27 := by
      rw [tableIndex_val]
      omega
    have he : tables (pagingInit frames ram n).2.ram (frames 1) (tableIndex p 27) =
        if (tableIndex p 27).val = 0 then pte (frames 2) else noGpte := by
      rw [htab, if_neg (fun hc => hne (h4 ▸ hc.2)), hshape.pml4e]
    unfold pagePath
    by_cases h0 : p / 2 ^ 27 = 0
    · rw [if_pos (h4.trans h0)] at he
      have hsum : 2 ^ 18 * (tableIndex p 18).val + 512 * (tableIndex p 9).val +
          (tableIndex p 0).val = p := by
        simp only [tableIndex_val]
        omega
      rw [translate_pte he (hs.lt 2 (by omega)), hlower, hsum]
    · rw [if_neg (fun hc => h0 (h4 ▸ hc))] at he
      rw [translate_noGpte he, if_neg (by omega)]
  · intro p hp
    have h4 : (tableIndex (2 ^ 35 + p) 27).val = 256 := by
      rw [tableIndex_val]
      omega
    have he : tables (pagingInit frames ram n).2.ram (frames 1) (tableIndex (2 ^ 35 + p) 27) =
        pte (frames 2) := by
      rw [htab, if_pos ⟨rfl, h4⟩, hshape.pml4e]
      rfl
    have hsum : 2 ^ 18 * (tableIndex (2 ^ 35 + p) 18).val +
        512 * (tableIndex (2 ^ 35 + p) 9).val + (tableIndex (2 ^ 35 + p) 0).val = p := by
      simp only [tableIndex_val]
      omega
    unfold pagePath
    rw [translate_pte he (hs.lt 2 (by omega)), hlower, hsum]

/-- Of more pages, page `2^18` is not mapped. -/
theorem not_mapped_of_lt {n : Nat} (hs : Supply frames (pagingInit frames ram n).2.next)
    (hn : 2 ^ 18 < n) (hn' : n < 2 ^ 32) :
    translate (pagingInit frames ram n).2.ram (pagingInit frames ram n).1 (pagePath (2 ^ 18)) =
      none := by
  rw [pagingInit_next] at hs
  have hsplit : idMapped frames ram n =
      idMapPages frames (frames 1) (n - 2 ^ 18) (idMapped frames ram (2 ^ 18)) := by
    unfold idMapped
    rw [← idMapPages_add, Nat.add_sub_cancel' hn.le]
  have hle : (idMapped frames ram (2 ^ 18)).next ≤ (idMapped frames ram n).next := by
    rw [hsplit]
    exact next_le_idMapPages _
  have hshape := idMapped_shape hs hle (Nat.le_refl _)
  have hhole : Hole frames (idMapped frames ram n) := by
    have h := hshape.hole.run hshape.digits hs (show 2 ^ 18 + (n - 2 ^ 18) ≤ 2 ^ 32 by omega)
      (Nat.le_of_eq (congrArg BootState.next hsplit).symm)
    rwa [← hsplit] at h
  have hnext := hhole.next
  have htab : ∀ e ∈ holeEntries, tables (pagingInit frames ram n).2.ram (frames e.1) e.2 =
      tables (idMapped frames ram n).ram (frames e.1) e.2 := by
    intro e he
    rw [pagingInit_tables,
      if_neg (hhole.not_entry hs (Nat.le_refl _) (show 1 < _ by omega) (by omega) e he)]
  have hpath : pagePath (2 ^ 18) = [0, 1, 0, 0] := by
    unfold pagePath tableIndex
    rfl
  have hpml4 : (pagingInit frames ram n).1 = frames 1 := rfl
  have h1 := (htab (1, 0) (by simp [holeEntries])).trans hhole.pml4e
  have h2 := (htab (2, 1) (by simp [holeEntries])).trans hhole.pdpte
  have h3 := (htab (516, 0) (by simp [holeEntries])).trans hhole.pdire
  rw [hpath, hpml4, translate_pte h1 (hs.lt 2 (by omega)), translate_pte h2 (hs.lt 516 (by omega)),
    translate_noGpte h3]

theorem pagingInit_next_le (frames : Nat → Nat) (ram : Mem) (n : Nat) :
    (pagingInit frames ram n).2.next ≤ 5 + 3 * n := by
  rw [pagingInit_next]
  exact idMapPages_next_le n

/-- The boot loader maps the pages of RAM to themselves, at their addresses and in the kernel
half, if and only if there are at most `2^18`. -/
theorem identity_map_iff {n : Nat} (hn : n < 2 ^ 32)
    (hs : Supply frames (pagingInit frames ram n).2.next) :
    IdentityMapped (pagingInit frames ram n).2.ram (pagingInit frames ram n).1 n ↔ n ≤ 2 ^ 18 := by
  constructor
  · intro h
    by_contra hlt
    have hnone := not_mapped_of_lt hs (by omega) hn
    have hsome := h.low (2 ^ 18) (by omega) (by omega)
    rw [hnone, if_pos (by omega)] at hsome
    cases hsome
  · intro h
    exact identityMapped_of_le hs h

/-- `alloc_page` returns the frames in order. -/
theorem supply_id {n : Nat} (h : n ≤ 2 ^ 40) : Supply id n :=
  ⟨fun _ hi => Nat.lt_of_lt_of_le hi h, fun _ _ _ _ hij => hij⟩

/-- A machine with 1000 pages. -/
theorem identity_map_iff_small :
    IdentityMapped (pagingInit id (fun _ => 0) 1000).2.ram
      (pagingInit id (fun _ => 0) 1000).1 1000 := by
  have hnext := pagingInit_next_le id (fun _ => 0) 1000
  exact (identity_map_iff (by omega) (supply_id (by omega))).2 (by omega)

/-- A machine with one page more than 1 GiB: the last page is not mapped. -/
theorem page_after_first_gigabyte :
    Supply id (pagingInit id (fun _ => 0) (2 ^ 18 + 1)).2.next ∧
    translate (pagingInit id (fun _ => 0) (2 ^ 18 + 1)).2.ram
      (pagingInit id (fun _ => 0) (2 ^ 18 + 1)).1 (pagePath (2 ^ 18)) = none ∧
    ¬ IdentityMapped (pagingInit id (fun _ => 0) (2 ^ 18 + 1)).2.ram
      (pagingInit id (fun _ => 0) (2 ^ 18 + 1)).1 (2 ^ 18 + 1) := by
  have hnext := pagingInit_next_le id (fun _ => 0) (2 ^ 18 + 1)
  have hs : Supply id (pagingInit id (fun _ => 0) (2 ^ 18 + 1)).2.next := supply_id (by omega)
  have hnone := not_mapped_of_lt hs (by omega) (by omega)
  refine ⟨hs, hnone, ?_⟩
  intro h
  have hsome := h.low (2 ^ 18) (by omega) (by omega)
  rw [hnone, if_pos (by omega)] at hsome
  cases hsome

end

end UlmerOS.Boot
