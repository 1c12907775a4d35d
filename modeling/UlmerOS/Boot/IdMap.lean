import UlmerOS.Boot.Paging

/-!
# How far the identity map is right

The indices of `id_map` are the digits of the number of pages mapped (`Digits`), the last one
in base 512 and the others in base 511.  The source moves on to the next directory as soon as
the last entry of the present one is set, when `pdiri` is 511.  The first page table of the
new directory is then entered at index 1, and index 0 stays empty.

Up to the first `2^18` pages this does not show.  `Shape` says what the tables hold, and
`Shape.translate` that the pages are mapped to themselves.  Page `2^18` is the first one of
the second directory, and it is never mapped (`Hole`).
-/

namespace UlmerOS.Boot

open ByteMem

/-! ## Entries -/

/-- A present and writable entry. -/
def pte (ppn : Nat) : Gpte where
  present := true
  write := true
  user := false
  low := 0
  ppn := Fin.ofNat (2 ^ 40) ppn
  available2 := 0
  noExec := false

theorem pagEntry_eq (p : Nat) : pagEntry (p <<< pageShift) = 4096 * p + 3 := by
  unfold pagEntry pageShift
  rw [Nat.or_assoc, ← Nat.shiftLeft_add_eq_or_of_lt (by decide), Nat.shiftLeft_eq]
  have h3 : pagPresent ||| pagRdwr = 3 := by decide
  rw [h3]
  omega

theorem pagEntry_lt {p : Nat} (h : p < 2 ^ 40) : pagEntry (p <<< pageShift) < 256 ^ 8 := by
  rw [pagEntry_eq]
  omega

theorem decode_pagEntry {p : Nat} (h : p < 2 ^ 40) :
    Gpte.decode (pagEntry (p <<< pageShift)) = pte p := by
  rw [pagEntry_eq]
  simp only [Gpte.decode, pte, Gpte.mk.injEq, Fin.ext_iff, Fin.val_ofNat]
  refine ⟨?_, ?_, ?_, ?_, ?_, ?_, ?_⟩
  · simp
    omega
  · simp
    omega
  · simp
    omega
  · show (4096 * p + 3) / 8 % 512 = 0
    omega
  · omega
  · show (4096 * p + 3) / 2 ^ 52 % 2048 = 0
    omega
  · simp
    omega

theorem tables_set (st : BootState) (f : Nat) {j p : Nat} (hj : j < 512) (hp : p < 2 ^ 40)
    (g : Nat) (i : Fin 512) :
    tables (st.set f j (pagEntry (p <<< pageShift))).ram g i =
      if g = f ∧ i.val = j then pte p else tables st.ram g i := by
  have h := tables_store st.ram f ⟨j, hj⟩ (pagEntry_lt hp) g i
  rw [decode_pagEntry hp] at h
  simp only [Fin.ext_iff] at h
  exact h

/-- The frames that `alloc_page` returned in the first `n` calls are distinct. -/
structure Supply (frames : Nat → Nat) (n : Nat) : Prop where
  lt : ∀ i < n, frames i < 2 ^ 40
  inj : ∀ i < n, ∀ j < n, frames i = frames j → i = j

theorem Supply.eq_iff {frames : Nat → Nat} {n i j : Nat} (h : Supply frames n) (hi : i < n)
    (hj : j < n) : frames i = frames j ↔ i = j :=
  ⟨h.inj i hi j hj, congrArg frames⟩

theorem Supply.mono {frames : Nat → Nat} {n m : Nat} (h : Supply frames n) (hm : m ≤ n) :
    Supply frames m :=
  ⟨fun i hi => h.lt i (by omega), fun i hi j hj => h.inj i (by omega) j (by omega)⟩

/-! ## Rounds -/

section

variable {frames : Nat → Nat} {pml4 : Nat} {st : BootState}

theorem mapPage_tables (h : st.ptbli < 512) (g : Nat) (i : Fin 512) :
    tables (mapPage st).ram g i =
      if g = st.ptbl ∧ i.val = st.ptbli then
        Gpte.decode (pagEntry (wrap32 (st.phys <<< pageShift)))
      else tables st.ram g i := by
  have hlt : pagEntry (wrap32 (st.phys <<< pageShift)) < 256 ^ 8 := by
    have h32 : wrap32 (st.phys <<< pageShift) < 2 ^ 32 := Nat.mod_lt _ (by decide)
    have h64 : 256 ^ 8 = 2 ^ 64 := by decide
    rw [h64]
    refine Nat.or_lt_two_pow (Nat.or_lt_two_pow ?_ (by decide)) (by decide)
    omega
  have hs := tables_store st.ram st.ptbl ⟨st.ptbli, h⟩ hlt g i
  simp only [Fin.ext_iff] at hs
  exact hs

/-- A new table: its frame is cleared and entered in the table above. -/
theorem tables_grow (hlt : frames st.next < 2 ^ 40) (f : Nat) {j : Nat} (hj : j < 512) (g : Nat)
    (i : Fin 512) :
    tables ((st.allocPage frames).set f j (pagEntry (frames st.next <<< pageShift))).ram g i =
      if g = f ∧ i.val = j then pte (frames st.next)
      else if g = frames st.next then noGpte else tables st.ram g i := by
  rw [tables_set _ f hj hlt]
  congr 1
  exact tables_fill st.ram _ g i

theorem nextPtbl_tables (hlt : frames st.next < 2 ^ 40) (hj : st.pdiri + 1 < 512) (g : Nat)
    (i : Fin 512) :
    tables (nextPtbl frames st).ram g i =
      if g = st.pdir ∧ i.val = st.pdiri + 1 then pte (frames st.next)
      else if g = frames st.next then noGpte else tables st.ram g i :=
  tables_grow hlt st.pdir hj g i

theorem nextPdir_tables (hlt : frames st.next < 2 ^ 40) (hj : st.pdpti + 1 < 512) (g : Nat)
    (i : Fin 512) :
    tables (nextPdir frames st).ram g i =
      if g = st.pdpt ∧ i.val = st.pdpti + 1 then pte (frames st.next)
      else if g = frames st.next then noGpte else tables st.ram g i :=
  tables_grow hlt st.pdpt hj g i

theorem nextPdpt_tables (pml4 : Nat) (hlt : frames st.next < 2 ^ 40) (hj : st.pml4i + 1 < 512)
    (g : Nat) (i : Fin 512) :
    tables (nextPdpt frames pml4 st).ram g i =
      if g = pml4 ∧ i.val = st.pml4i + 1 then pte (frames st.next)
      else if g = frames st.next then noGpte else tables st.ram g i :=
  tables_grow hlt pml4 hj g i

/-! ## Counters -/

@[simp] theorem mapPage_next : (mapPage st).next = st.next := rfl
@[simp] theorem mapPage_ptbli : (mapPage st).ptbli = st.ptbli + 1 := rfl
@[simp] theorem mapPage_pdiri : (mapPage st).pdiri = st.pdiri := rfl
@[simp] theorem mapPage_pdpti : (mapPage st).pdpti = st.pdpti := rfl
@[simp] theorem mapPage_pml4i : (mapPage st).pml4i = st.pml4i := rfl

@[simp] theorem nextPtbl_next : (nextPtbl frames st).next = st.next + 1 := rfl
@[simp] theorem nextPtbl_ptbli : (nextPtbl frames st).ptbli = 0 := rfl
@[simp] theorem nextPtbl_pdiri : (nextPtbl frames st).pdiri = st.pdiri + 1 := rfl
@[simp] theorem nextPtbl_pdpti : (nextPtbl frames st).pdpti = st.pdpti := rfl
@[simp] theorem nextPtbl_pml4i : (nextPtbl frames st).pml4i = st.pml4i := rfl

@[simp] theorem nextPdir_next : (nextPdir frames st).next = st.next + 1 := rfl
@[simp] theorem nextPdir_ptbli : (nextPdir frames st).ptbli = st.ptbli := rfl
@[simp] theorem nextPdir_pdiri : (nextPdir frames st).pdiri = 0 := rfl
@[simp] theorem nextPdir_pdpti : (nextPdir frames st).pdpti = st.pdpti + 1 := rfl
@[simp] theorem nextPdir_pml4i : (nextPdir frames st).pml4i = st.pml4i := rfl

@[simp] theorem nextPdpt_next : (nextPdpt frames pml4 st).next = st.next + 1 := rfl
@[simp] theorem nextPdpt_ptbli : (nextPdpt frames pml4 st).ptbli = st.ptbli := rfl
@[simp] theorem nextPdpt_pdiri : (nextPdpt frames pml4 st).pdiri = st.pdiri := rfl
@[simp] theorem nextPdpt_pdpti : (nextPdpt frames pml4 st).pdpti = 0 := rfl
@[simp] theorem nextPdpt_pml4i : (nextPdpt frames pml4 st).pml4i = st.pml4i + 1 := rfl

/-! ## Digits -/

/-- The counters after `k` pages.  A directory is left after 512 · 511 pages, and a directory
pointer table after 512 · 511² of them. -/
structure Digits (k : Nat) (st : BootState) : Prop where
  ptbli : st.ptbli = k % 512
  pdiri : st.pdiri = k / 512 % 511
  pdpti : st.pdpti = k / 261632 % 511
  pml4i : st.pml4i = k / 133693952
  phys : st.phys = wrap32 k

section

variable {k : Nat} (h : Digits k st)
include h

/-- Inside a page table. -/
theorem idMapPage_within (hk : k % 512 < 511) : idMapPage frames pml4 st = mapPage st := by
  have h1 : ¬ 512 ≤ st.ptbli + 1 := by
    rw [h.ptbli]
    omega
  have h2 : ¬ 511 ≤ st.pdiri := by
    rw [h.pdiri]
    omega
  have h3 : ¬ 511 ≤ st.pdpti := by
    rw [h.pdpti]
    omega
  simp [idMapPage, h1, h2, h3]

/-- The last page of a page table that is not the last one of its directory. -/
theorem idMapPage_ptbl (hk : k % 512 = 511) (hd : k / 512 % 511 < 510) :
    idMapPage frames pml4 st = nextPtbl frames (mapPage st) := by
  have h1 : 512 ≤ st.ptbli + 1 := by
    rw [h.ptbli]
    omega
  have h2 : ¬ 511 ≤ st.pdiri + 1 := by
    rw [h.pdiri]
    omega
  have h3 : ¬ 511 ≤ st.pdpti := by
    rw [h.pdpti]
    omega
  simp [idMapPage, h1, h2, h3]

/-- The last page of a page table after which the directory is full. -/
theorem idMapPage_pdir (hk : k % 512 = 511) (hd : k / 512 % 511 = 510)
    (hp : k / 261632 % 511 < 510) :
    idMapPage frames pml4 st = nextPdir frames (nextPtbl frames (mapPage st)) := by
  have h1 : 512 ≤ st.ptbli + 1 := by
    rw [h.ptbli]
    omega
  have h2 : 511 ≤ st.pdiri + 1 := by
    rw [h.pdiri]
    omega
  have h3 : ¬ 511 ≤ st.pdpti + 1 := by
    rw [h.pdpti]
    omega
  simp [idMapPage, h1, h2, h3]

/-- The last page before the directory pointer table is full too. -/
theorem idMapPage_pdpt (hk : k % 512 = 511) (hd : k / 512 % 511 = 510)
    (hp : k / 261632 % 511 = 510) :
    idMapPage frames pml4 st =
      nextPdpt frames pml4 (nextPdir frames (nextPtbl frames (mapPage st))) := by
  have h1 : 512 ≤ st.ptbli + 1 := by
    rw [h.ptbli]
    omega
  have h2 : 511 ≤ st.pdiri + 1 := by
    rw [h.pdiri]
    omega
  have h3 : 511 ≤ st.pdpti + 1 := by
    rw [h.pdpti]
    omega
  simp [idMapPage, h1, h2, h3]

/-- What a round can do. -/
theorem idMapPage_cases (frames : Nat → Nat) (pml4 : Nat) :
    (k % 512 < 511 ∧ idMapPage frames pml4 st = mapPage st) ∨
    (k % 512 = 511 ∧ k / 512 % 511 < 510 ∧
      idMapPage frames pml4 st = nextPtbl frames (mapPage st)) ∨
    (k % 512 = 511 ∧ k / 512 % 511 = 510 ∧ k / 261632 % 511 < 510 ∧
      idMapPage frames pml4 st = nextPdir frames (nextPtbl frames (mapPage st))) ∨
    (k % 512 = 511 ∧ k / 512 % 511 = 510 ∧ k / 261632 % 511 = 510 ∧
      idMapPage frames pml4 st =
        nextPdpt frames pml4 (nextPdir frames (nextPtbl frames (mapPage st)))) := by
  by_cases hk : k % 512 < 511
  · exact .inl ⟨hk, idMapPage_within h hk⟩
  have hk : k % 512 = 511 := by omega
  by_cases hd : k / 512 % 511 < 510
  · exact .inr (.inl ⟨hk, hd, idMapPage_ptbl h hk hd⟩)
  have hd : k / 512 % 511 = 510 := by omega
  by_cases hp : k / 261632 % 511 < 510
  · exact .inr (.inr (.inl ⟨hk, hd, hp, idMapPage_pdir h hk hd hp⟩))
  have hp : k / 261632 % 511 = 510 := by omega
  exact .inr (.inr (.inr ⟨hk, hd, hp, idMapPage_pdpt h hk hd hp⟩))

/-- A round counts one page. -/
theorem Digits.step : Digits (k + 1) (idMapPage frames pml4 st) := by
  have hphys : wrap32 (st.phys + 1) = wrap32 (k + 1) := by
    rw [h.phys]
    unfold wrap32
    omega
  have hcases := idMapPage_cases h frames pml4
  obtain ⟨ptbli, pdiri, pdpti, pml4i, -⟩ := h
  rcases hcases with ⟨hk, he⟩ | ⟨hk, hd, he⟩ | ⟨hk, hd, hp, he⟩ | ⟨hk, hd, hp, he⟩
  · rw [he]
    refine ⟨?_, ?_, ?_, ?_, hphys⟩ <;> simp <;> omega
  · rw [he]
    refine ⟨?_, ?_, ?_, ?_, hphys⟩ <;> simp <;> omega
  · rw [he]
    refine ⟨?_, ?_, ?_, ?_, hphys⟩ <;> simp <;> omega
  · rw [he]
    refine ⟨?_, ?_, ?_, ?_, hphys⟩ <;> simp <;> omega

end

/-! ## The first directory -/

/-- The frame of a page table among those of `alloc_page`.  The second directory comes after
the page table 511. -/
def ptblFrame (j : Nat) : Nat := if j < 512 then 4 + j else 5 + j

theorem ptblFrame_inj {i j : Nat} (h : ptblFrame i = ptblFrame j) : i = j := by
  unfold ptblFrame at h
  split at h <;> split at h <;> omega

/-- The tables above the page tables have other frames. -/
theorem ne_ptblFrame {a : Nat} (ha : a < 4 ∨ a = 516) (j : Nat) : a ≠ ptblFrame j := by
  unfold ptblFrame
  split <;> omega

/-- The memory after `k` pages, up to `2^18` of them. -/
structure Shape (frames : Nat → Nat) (k : Nat) (st : BootState) : Prop where
  digits : Digits k st
  next : st.next = 5 + k / 512 + k / 261632
  pdpt : st.pdpt = frames 2
  pdir : st.pdir = frames (if k < 261632 then 3 else 516)
  ptbl : st.ptbl = frames (ptblFrame (k / 512))
  pml4e : ∀ i : Fin 512, tables st.ram (frames 1) i =
    if i.val = 0 then pte (frames 2) else noGpte
  pdpte : ∀ i : Fin 512, tables st.ram (frames 2) i =
    if i.val = 0 then pte (frames 3)
    else if i.val = 1 ∧ 261632 ≤ k then pte (frames 516) else noGpte
  pdire : ∀ i : Fin 512, tables st.ram (frames 3) i =
    if 512 * i.val ≤ k then pte (frames (ptblFrame i)) else noGpte
  second : 261632 ≤ k → ∀ i : Fin 512, tables st.ram (frames 516) i =
    if i.val = 1 ∧ 2 ^ 18 ≤ k then pte (frames (ptblFrame 512)) else noGpte
  ptble : ∀ j, 512 * j ≤ k → ∀ i : Fin 512, tables st.ram (frames (ptblFrame j)) i =
    if 512 * j + i < k then pte (512 * j + i) else noGpte

/-- The frames of the page tables were allocated. -/
theorem Shape.ptblFrame_lt {k j : Nat} (h : Shape frames k st) (hk : k ≤ 2 ^ 18)
    (hj : 512 * j ≤ k) : ptblFrame j < st.next := by
  have := h.next
  unfold ptblFrame
  split <;> omega

/-- The frame that the next page table will have. -/
theorem Shape.next_eq {k : Nat} (h : Shape frames k st) (hk : k < 2 ^ 18) (hw : k % 512 = 511) :
    st.next = ptblFrame (k / 512 + 1) := by
  have := h.next
  unfold ptblFrame
  split <;> omega

section

variable {k n : Nat} (h : Shape frames k st) (hs : Supply frames n) (hk : k < 2 ^ 18)
include h hs hk

/-- The entry of the next page. -/
theorem Shape.mapPage_tables (hn : st.next ≤ n) {a : Nat} (ha : a < n) (i : Fin 512) :
    tables (mapPage st).ram (frames a) i =
      if a = ptblFrame (k / 512) ∧ i.val = k % 512 then pte k
      else tables st.ram (frames a) i := by
  have hphys : wrap32 (st.phys <<< pageShift) = k <<< pageShift := by
    have h1 : wrap32 k = k := Nat.mod_eq_of_lt (by omega)
    have h2 : k <<< 12 = k * 2 ^ 12 := Nat.shiftLeft_eq k 12
    rw [h.digits.phys, h1]
    exact Nat.mod_eq_of_lt (by unfold pageShift; omega)
  have hq : ptblFrame (k / 512) < n :=
    Nat.lt_of_lt_of_le (h.ptblFrame_lt (Nat.le_of_lt hk) (Nat.mul_div_le k 512)) hn
  rw [Boot.mapPage_tables (by rw [h.digits.ptbli]; omega), hphys, decode_pagEntry (by omega),
    h.ptbl, h.digits.ptbli]
  simp only [hs.eq_iff ha hq]

/-- The page table after the next page. -/
theorem Shape.mapPage_ptble (hn : st.next ≤ n) {j : Nat} (hj : 512 * j ≤ k) (i : Fin 512) :
    tables (mapPage st).ram (frames (ptblFrame j)) i =
      if 512 * j + i < k + 1 then pte (512 * j + i) else noGpte := by
  have hi := i.isLt
  have hjn : ptblFrame j < n :=
    Nat.lt_of_lt_of_le (h.ptblFrame_lt (Nat.le_of_lt hk) hj) hn
  rw [h.mapPage_tables hs hk hn hjn, h.ptble j hj]
  by_cases hq : ptblFrame j = ptblFrame (k / 512) ∧ i.val = k % 512
  · obtain rfl := ptblFrame_inj hq.1
    have he : 512 * (k / 512) + i.val = k := by omega
    rw [if_pos hq, he, if_pos (Nat.lt_succ_self k)]
  · rw [if_neg hq]
    have hne : 512 * j + i.val ≠ k := by
      intro he
      obtain rfl : j = k / 512 := by omega
      exact hq ⟨rfl, by omega⟩
    by_cases hlt : 512 * j + i.val < k
    · rw [if_pos hlt, if_pos (by omega)]
    · rw [if_neg hlt, if_neg (by omega)]

/-- Inside a page table. -/
theorem Shape.within (hn : st.next ≤ n) (hw : k % 512 < 511)
    (hd : Digits (k + 1) (mapPage st)) : Shape frames (k + 1) (mapPage st) := by
  have hdiv : (k + 1) / 512 = k / 512 := by omega
  have hdiv' : (k + 1) / 261632 = k / 261632 := by omega
  have hge : 261632 ≤ k + 1 ↔ 261632 ≤ k := by omega
  have hother : ∀ a < n, a < 4 ∨ a = 516 → ∀ i : Fin 512,
      tables (mapPage st).ram (frames a) i = tables st.ram (frames a) i := by
    intro a ha hup i
    rw [h.mapPage_tables hs hk hn ha, if_neg (fun hc => ne_ptblFrame hup _ hc.1)]
  have hnext := h.next
  refine ⟨hd, ?_, h.pdpt, ?_, ?_, ?_, ?_, ?_, ?_, ?_⟩
  · rw [hdiv, hdiv']
    exact hnext
  · have hlt : (k + 1 < 261632) ↔ (k < 261632) := by omega
    simp only [hlt]
    exact h.pdir
  · rw [hdiv]
    exact h.ptbl
  · intro i
    rw [hother 1 (by omega) (by omega), h.pml4e]
  · intro i
    rw [hother 2 (by omega) (by omega), h.pdpte]
    simp only [hge]
  · intro i
    rw [hother 3 (by omega) (by omega), h.pdire]
    have hle : 512 * i.val ≤ k + 1 ↔ 512 * i.val ≤ k := by omega
    simp only [hle]
  · intro hk' i
    rw [hother 516 (by omega) (by omega), h.second (hge.1 hk')]
    have hle : 2 ^ 18 ≤ k + 1 ↔ 2 ^ 18 ≤ k := by omega
    simp only [hle]
  · intro j hj i
    exact h.mapPage_ptble hs hk hn (by omega) i

/-- The next page table. -/
theorem Shape.nextPtbl_tables (hn : st.next + 1 ≤ n) (hw : k % 512 = 511) {a : Nat} (ha : a < n)
    (i : Fin 512) :
    tables (nextPtbl frames (mapPage st)).ram (frames a) i =
      if a = (if k < 261632 then 3 else 516) ∧ i.val = k / 512 % 511 + 1 then
        pte (frames (ptblFrame (k / 512 + 1)))
      else if a = ptblFrame (k / 512 + 1) then noGpte
      else tables (mapPage st).ram (frames a) i := by
  have hnext : (mapPage st).next = ptblFrame (k / 512 + 1) := h.next_eq hk hw
  have hn' : ptblFrame (k / 512 + 1) < n := by
    rw [← hnext]
    exact hn
  have hpdir : (mapPage st).pdir = frames (if k < 261632 then 3 else 516) := h.pdir
  have hpdiri : (mapPage st).pdiri = k / 512 % 511 := h.digits.pdiri
  have hdir : (if k < 261632 then 3 else 516) < n := by
    have := h.next
    split <;> omega
  rw [Boot.nextPtbl_tables (by rw [hnext]; exact hs.lt _ hn') (by rw [hpdiri]; omega), hnext,
    hpdir, hpdiri]
  simp only [hs.eq_iff ha hn', hs.eq_iff ha hdir]

/-- The tables above the page tables, but for the entry of the next page table. -/
theorem Shape.nextPtbl_above (hn : st.next + 1 ≤ n) (hw : k % 512 = 511) {a : Nat} (ha : a < n)
    (hup : a < 4 ∨ a = 516) {i : Fin 512}
    (hne : ¬ (a = (if k < 261632 then 3 else 516) ∧ i.val = k / 512 % 511 + 1)) :
    tables (nextPtbl frames (mapPage st)).ram (frames a) i = tables st.ram (frames a) i := by
  rw [h.nextPtbl_tables hs hk hn hw ha, if_neg hne, if_neg (ne_ptblFrame hup _),
    h.mapPage_tables hs hk (by omega) ha, if_neg (fun hc => ne_ptblFrame hup _ hc.1)]

/-- The page tables: the next one is empty. -/
theorem Shape.nextPtbl_ptble (hn : st.next + 1 ≤ n) (hw : k % 512 = 511) {j : Nat}
    (hj : 512 * j ≤ k + 1) (i : Fin 512) :
    tables (nextPtbl frames (mapPage st)).ram (frames (ptblFrame j)) i =
      if 512 * j + i < k + 1 then pte (512 * j + i) else noGpte := by
  have hjn : ptblFrame j < n := by
    have : ptblFrame j ≤ st.next := by
      rw [h.next_eq hk hw]
      unfold ptblFrame
      split <;> split <;> omega
    omega
  have hup : ¬ (ptblFrame j = (if k < 261632 then 3 else 516) ∧
      i.val = k / 512 % 511 + 1) := by
    rintro ⟨hc, -⟩
    exact ne_ptblFrame (by split <;> omega) j hc.symm
  rw [h.nextPtbl_tables hs hk hn hw hjn, if_neg hup]
  by_cases hjq : j = k / 512 + 1
  · subst hjq
    rw [if_pos rfl, if_neg (by omega)]
  · rw [if_neg (fun hc => hjq (ptblFrame_inj hc))]
    exact h.mapPage_ptble hs hk (by omega) (by omega) i

/-- The last page of a page table, if its directory goes on. -/
theorem Shape.full_ptbl (hn : st.next + 1 ≤ n) (hw : k % 512 = 511) (hq : k / 512 ≠ 510)
    (hd : Digits (k + 1) (nextPtbl frames (mapPage st))) :
    Shape frames (k + 1) (nextPtbl frames (mapPage st)) := by
  have hnext := h.next
  have hdiv : (k + 1) / 512 = k / 512 + 1 := by omega
  have hdir : k + 1 < 261632 ↔ k < 261632 := by omega
  have hge : 261632 ≤ k + 1 ↔ 261632 ≤ k := by omega
  refine ⟨hd, ?_, h.pdpt, ?_, ?_, ?_, ?_, ?_, ?_,
    fun j hj i => h.nextPtbl_ptble hs hk hn hw hj i⟩
  · show st.next + 1 = _
    omega
  · simp only [hdir]
    exact h.pdir
  · show frames st.next = _
    rw [hdiv, h.next_eq hk hw]
  · intro i
    rw [h.nextPtbl_above hs hk hn hw (by omega) (by omega) (by split <;> omega), h.pml4e]
  · intro i
    rw [h.nextPtbl_above hs hk hn hw (by omega) (by omega) (by split <;> omega), h.pdpte]
    simp only [hge]
  · intro i
    have hi := i.isLt
    by_cases hnew : 3 = (if k < 261632 then 3 else 516) ∧ i.val = k / 512 % 511 + 1
    · have hlt : k < 261632 := by
        by_contra hc
        rw [if_neg hc] at hnew
        omega
      have hi' : i.val = k / 512 + 1 := by omega
      rw [h.nextPtbl_tables hs hk hn hw (by omega), if_pos hnew, if_pos (by omega), hi']
    · rw [h.nextPtbl_above hs hk hn hw (by omega) (by omega) hnew, h.pdire]
      have hle : 512 * i.val ≤ k + 1 ↔ 512 * i.val ≤ k := by
        by_cases hlt : k < 261632
        · rw [if_pos hlt] at hnew
          omega
        · omega
      simp only [hle]
  · intro hk' i
    have hge' := hge.1 hk'
    by_cases hnew : 516 = (if k < 261632 then 3 else 516) ∧ i.val = k / 512 % 511 + 1
    · have hi' : i.val = 1 := by omega
      have hlast : k / 512 + 1 = 512 := by omega
      rw [h.nextPtbl_tables hs hk hn hw (by omega), if_pos hnew, if_pos ⟨hi', by omega⟩, hlast]
    · rw [h.nextPtbl_above hs hk hn hw (by omega) (by omega) hnew, h.second hge']
      rw [if_neg (by omega)] at hnew
      have hno : i.val ≠ 1 := by omega
      rw [if_neg (fun hc => hno hc.1), if_neg (fun hc => hno hc.1)]

/-- The last page of page table 510, after which the first directory is full. -/
theorem Shape.full_pdir (hn : st.next + 2 ≤ n) (hw : k % 512 = 511) (hq : k / 512 = 510)
    (hd : Digits (k + 1) (nextPdir frames (nextPtbl frames (mapPage st)))) :
    Shape frames (k + 1) (nextPdir frames (nextPtbl frames (mapPage st))) := by
  obtain rfl : k = 261631 := by omega
  have hnext := h.next
  have hnext' : (nextPtbl frames (mapPage st)).next = 516 := by
    show st.next + 1 = 516
    omega
  have hpdpt : (nextPtbl frames (mapPage st)).pdpt = frames 2 := h.pdpt
  have hpdpti : (nextPtbl frames (mapPage st)).pdpti = 0 := h.digits.pdpti
  have hn' : st.next + 1 ≤ n := by omega
  have htab : ∀ a < n, ∀ i : Fin 512,
      tables (nextPdir frames (nextPtbl frames (mapPage st))).ram (frames a) i =
        if a = 2 ∧ i.val = 1 then pte (frames 516)
        else if a = 516 then noGpte
        else tables (nextPtbl frames (mapPage st)).ram (frames a) i := by
    intro a ha i
    rw [nextPdir_tables (by rw [hnext']; exact hs.lt _ (by omega)) (by rw [hpdpti]; omega),
      hnext', hpdpt, hpdpti]
    simp only [hs.eq_iff ha (show 2 < n by omega), hs.eq_iff ha (show 516 < n by omega),
      Nat.zero_add]
  have hother : ∀ a < n, a ≠ 516 → ∀ i : Fin 512, ¬ (a = 2 ∧ i.val = 1) →
      tables (nextPdir frames (nextPtbl frames (mapPage st))).ram (frames a) i =
        tables (nextPtbl frames (mapPage st)).ram (frames a) i := by
    intro a ha h516 i hne
    rw [htab a ha, if_neg hne, if_neg h516]
  refine ⟨hd, ?_, h.pdpt, ?_, ?_, ?_, ?_, ?_, ?_, ?_⟩
  · show st.next + 2 = _
    omega
  · show frames (nextPtbl frames (mapPage st)).next = _
    rw [hnext']
    rfl
  · show frames st.next = _
    rw [h.next_eq hk hw]
  · intro i
    rw [hother 1 (by omega) (by omega) i (by omega),
      h.nextPtbl_above hs hk hn' hw (by omega) (by omega) (by split <;> omega), h.pml4e]
  · intro i
    by_cases hi : i.val = 1
    · rw [htab 2 (by omega), if_pos ⟨rfl, hi⟩, if_neg (by omega), if_pos ⟨hi, Nat.le_refl _⟩]
    · rw [hother 2 (by omega) (by omega) i (by omega),
        h.nextPtbl_above hs hk hn' hw (by omega) (by omega) (by split <;> omega), h.pdpte]
      simp only [hi, false_and]
  · intro i
    have hi := i.isLt
    rw [hother 3 (by omega) (by omega) i (by omega)]
    by_cases h511 : i.val = 511
    · rw [h.nextPtbl_tables hs hk hn' hw (by omega), if_pos ⟨rfl, h511⟩, if_pos (by omega),
        h511]
    · rw [h.nextPtbl_above hs hk hn' hw (by omega) (by omega) (by split <;> omega), h.pdire,
        if_pos (by omega), if_pos (by omega)]
  · intro _ i
    rw [htab 516 (by omega), if_neg (by omega), if_pos rfl, if_neg (by omega)]
  · intro j hj i
    have hjf : ptblFrame j = 4 + j := if_pos (by omega)
    rw [hjf, hother (4 + j) (by omega) (by omega) i (by omega), ← hjf]
    exact h.nextPtbl_ptble hs hk hn' hw hj i

end

/-- A round keeps the shape. -/
theorem Shape.step {k n : Nat} (h : Shape frames k st) (hs : Supply frames n) (hk : k < 2 ^ 18)
    (hn : (idMapPage frames pml4 st).next ≤ n) :
    Shape frames (k + 1) (idMapPage frames pml4 st) := by
  have hd : Digits (k + 1) (idMapPage frames pml4 st) := h.digits.step
  rcases idMapPage_cases h.digits frames pml4 with
    ⟨hw, he⟩ | ⟨hw, hq, he⟩ | ⟨hw, hq, -, he⟩ | ⟨-, -, hp, -⟩
  · rw [he] at hd hn ⊢
    exact h.within hs hk hn hw hd
  · rw [he] at hd hn ⊢
    exact h.full_ptbl hs hk hn hw (by omega) hd
  · rw [he] at hd hn ⊢
    exact h.full_pdir hs hk hn hw (by omega) hd
  · omega

/-- A round takes three frames at most. -/
theorem idMapPage_next : st.next ≤ (idMapPage frames pml4 st).next ∧
    (idMapPage frames pml4 st).next ≤ st.next + 3 := by
  unfold idMapPage
  dsimp only
  split <;> split <;> split <;> simp <;> omega

theorem next_le_idMapPage : st.next ≤ (idMapPage frames pml4 st).next := idMapPage_next.1

theorem idMapPages_next_le (m : Nat) : (idMapPages frames pml4 m st).next ≤ st.next + 3 * m := by
  induction m generalizing st with
  | zero => exact Nat.le_refl _
  | succ m ih =>
      have h1 : (idMapPage frames pml4 st).next ≤ st.next + 3 := idMapPage_next.2
      have h2 : (idMapPages frames pml4 m (idMapPage frames pml4 st)).next ≤
          (idMapPage frames pml4 st).next + 3 * m := ih
      rw [idMapPages]
      omega

theorem next_le_idMapPages (m : Nat) : st.next ≤ (idMapPages frames pml4 m st).next := by
  induction m generalizing st with
  | zero => exact Nat.le_refl _
  | succ m ih => exact Nat.le_trans next_le_idMapPage ih

theorem idMapPages_add (m m' : Nat) :
    idMapPages frames pml4 (m + m') st =
      idMapPages frames pml4 m' (idMapPages frames pml4 m st) := by
  induction m generalizing st with
  | zero => rw [Nat.zero_add, idMapPages]
  | succ m ih => rw [Nat.succ_add, idMapPages, ih, idMapPages]

/-- The loop keeps the shape, up to `2^18` pages. -/
theorem Shape.run {k m n : Nat} (h : Shape frames k st) (hs : Supply frames n)
    (hk : k + m ≤ 2 ^ 18) (hn : (idMapPages frames pml4 m st).next ≤ n) :
    Shape frames (k + m) (idMapPages frames pml4 m st) := by
  induction m generalizing k st with
  | zero => exact h
  | succ m ih =>
      have hstep : (idMapPage frames pml4 st).next ≤ n :=
        Nat.le_trans (next_le_idMapPages m) hn
      have h' := ih (h.step hs (by omega) hstep) (by omega) hn
      rw [show k + (m + 1) = k + 1 + m by omega]
      exact h'

/-! ## The second directory -/

/-- Entry 0 of the second directory is empty.  The tables written to are others than those
that lead there, or are written to at other indices. -/
structure Hole (frames : Nat → Nat) (st : BootState) : Prop where
  next : 517 < st.next
  ptbl : ∃ a, 516 < a ∧ a < st.next ∧ st.ptbl = frames a
  pdir : ∃ a, 516 ≤ a ∧ a < st.next ∧ st.pdir = frames a
  pdpt : ∃ a, (a = 2 ∧ 1 ≤ st.pdpti ∨ 516 < a) ∧ a < st.next ∧ st.pdpt = frames a
  pml4e : tables st.ram (frames 1) 0 = pte (frames 2)
  pdpte : tables st.ram (frames 2) 1 = pte (frames 516)
  pdire : tables st.ram (frames 516) 0 = noGpte

/-- The three entries that lead to the hole. -/
def holeEntries : List (Nat × Fin 512) := [(1, 0), (2, 1), (516, 0)]

/-- Memory that agrees on these entries. -/
def SameHole (frames : Nat → Nat) (ram ram' : Mem) : Prop :=
  ∀ e ∈ holeEntries, tables ram' (frames e.1) e.2 = tables ram (frames e.1) e.2

theorem Hole.of_same {st' : BootState} (h : Hole frames st)
    (hsame : SameHole frames st.ram st'.ram) (next : 517 < st'.next)
    (ptbl : ∃ a, 516 < a ∧ a < st'.next ∧ st'.ptbl = frames a)
    (pdir : ∃ a, 516 ≤ a ∧ a < st'.next ∧ st'.pdir = frames a)
    (pdpt : ∃ a, (a = 2 ∧ 1 ≤ st'.pdpti ∨ 516 < a) ∧ a < st'.next ∧ st'.pdpt = frames a) :
    Hole frames st' := by
  refine ⟨next, ptbl, pdir, pdpt, ?_, ?_, ?_⟩
  · exact (hsame (1, 0) (by simp [holeEntries])).trans h.pml4e
  · exact (hsame (2, 1) (by simp [holeEntries])).trans h.pdpte
  · exact (hsame (516, 0) (by simp [holeEntries])).trans h.pdire

section

variable {n : Nat} (hs : Supply frames n) (h : Hole frames st)
include hs h

/-- An entry written is not one of these, if its table or its index is another. -/
theorem Hole.not_entry (hn : st.next ≤ n) {a j : Nat} (ha : a < n)
    (hne : a ≠ 1 ∧ a ≠ 2 ∧ a ≠ 516 ∨ a = 1 ∧ j ≠ 0 ∨ a = 2 ∧ j ≠ 1 ∨ a = 516 ∧ j ≠ 0) :
    ∀ e ∈ holeEntries, ¬ (frames e.1 = frames a ∧ e.2.val = j) := by
  have hnext := h.next
  intro e he
  simp only [holeEntries, List.mem_cons, List.not_mem_nil, or_false] at he
  rcases he with rfl | rfl | rfl
  · rw [hs.eq_iff (show 1 < n by omega) ha]
    rintro ⟨h1, h2⟩
    simp only [Fin.val_zero] at h2
    omega
  · rw [hs.eq_iff (show 2 < n by omega) ha]
    rintro ⟨h1, h2⟩
    simp only [Fin.val_one] at h2
    omega
  · rw [hs.eq_iff (show 516 < n by omega) ha]
    rintro ⟨h1, h2⟩
    simp only [Fin.val_zero] at h2
    omega

/-- A new table has a frame of its own. -/
theorem Hole.same_of_grow {ram' : Mem} {a j : Nat} (hn : st.next < n) (ha : a < n)
    (ht : ∀ g (i : Fin 512), tables ram' g i =
      if g = frames a ∧ i.val = j then pte (frames st.next)
      else if g = frames st.next then noGpte else tables st.ram g i)
    (hne : a ≠ 1 ∧ a ≠ 2 ∧ a ≠ 516 ∨ a = 1 ∧ j ≠ 0 ∨ a = 2 ∧ j ≠ 1 ∨ a = 516 ∧ j ≠ 0) :
    SameHole frames st.ram ram' := by
  have hnext := h.next
  intro e he
  have hnew : frames e.1 ≠ frames st.next := by
    intro hc
    exact h.not_entry hs (by omega) hn (.inl (by omega)) e he ⟨hc, rfl⟩
  rw [ht, if_neg (h.not_entry hs (by omega) ha hne e he), if_neg hnew]

theorem Hole.mapPage (hn : st.next ≤ n) (hi : st.ptbli < 512) : Hole frames (mapPage st) := by
  obtain ⟨a, h516, ha, hptbl⟩ := h.ptbl
  refine h.of_same ?_ h.next h.ptbl h.pdir h.pdpt
  intro e he
  rw [mapPage_tables hi, hptbl,
    if_neg (h.not_entry hs hn (by omega) (.inl (by omega)) e he)]

theorem Hole.nextPtbl (hn : st.next < n) (hj : st.pdiri + 1 < 512) :
    Hole frames (nextPtbl frames st) := by
  have hnext := h.next
  obtain ⟨a, hge, ha, hpdir⟩ := h.pdir
  obtain ⟨b, hb, hbn, hpdpt⟩ := h.pdpt
  have ht := nextPtbl_tables (hs.lt _ hn) hj
  rw [hpdir] at ht
  exact h.of_same (h.same_of_grow hs hn (by omega) ht (by omega)) (Nat.lt_succ_of_lt hnext)
    ⟨st.next, by omega, Nat.lt_succ_self _, rfl⟩ ⟨a, hge, Nat.lt_succ_of_lt ha, hpdir⟩
    ⟨b, hb, Nat.lt_succ_of_lt hbn, hpdpt⟩

theorem Hole.nextPdir (hn : st.next < n) (hj : st.pdpti + 1 < 512) :
    Hole frames (nextPdir frames st) := by
  have hnext := h.next
  obtain ⟨a, h516, ha, hptbl⟩ := h.ptbl
  obtain ⟨b, hb, hbn, hpdpt⟩ := h.pdpt
  have ht := nextPdir_tables (hs.lt _ hn) hj
  rw [hpdpt] at ht
  have hb' : b = 2 ∧ 1 ≤ st.pdpti + 1 ∨ 516 < b := by omega
  exact h.of_same (h.same_of_grow hs hn (by omega) ht (by omega)) (Nat.lt_succ_of_lt hnext)
    ⟨a, h516, Nat.lt_succ_of_lt ha, hptbl⟩ ⟨st.next, by omega, Nat.lt_succ_self _, rfl⟩
    ⟨b, hb', Nat.lt_succ_of_lt hbn, hpdpt⟩

theorem Hole.nextPdpt (hn : st.next < n) (hj : st.pml4i + 1 < 512) :
    Hole frames (nextPdpt frames (frames 1) st) := by
  have hnext := h.next
  obtain ⟨a, h516, ha, hptbl⟩ := h.ptbl
  obtain ⟨b, hb, hbn, hpdir⟩ := h.pdir
  have ht := nextPdpt_tables (frames 1) (hs.lt _ hn) hj
  exact h.of_same (h.same_of_grow hs hn (by omega) ht (by omega)) (Nat.lt_succ_of_lt hnext)
    ⟨a, h516, Nat.lt_succ_of_lt ha, hptbl⟩ ⟨b, hb, Nat.lt_succ_of_lt hbn, hpdir⟩
    ⟨st.next, .inr (by omega), Nat.lt_succ_self _, rfl⟩

end

/-- A round keeps the hole. -/
theorem Hole.step {k n : Nat} (h : Hole frames st) (hd : Digits k st) (hs : Supply frames n)
    (hk : k < 2 ^ 32) (hn : (idMapPage frames (frames 1) st).next ≤ n) :
    Hole frames (idMapPage frames (frames 1) st) := by
  have h0 : Hole frames (Boot.mapPage st) :=
    h.mapPage hs (Nat.le_trans next_le_idMapPage hn) (by rw [hd.ptbli]; omega)
  have hpdiri : (Boot.mapPage st).pdiri = k / 512 % 511 := hd.pdiri
  have hpdpti : (Boot.nextPtbl frames (Boot.mapPage st)).pdpti = k / 261632 % 511 := hd.pdpti
  have hpml4i : (Boot.nextPdir frames (Boot.nextPtbl frames (Boot.mapPage st))).pml4i =
      k / 133693952 := hd.pml4i
  rcases idMapPage_cases hd frames (frames 1) with
    ⟨-, he⟩ | ⟨-, -, he⟩ | ⟨-, -, -, he⟩ | ⟨-, -, -, he⟩
  · rw [he]
    exact h0
  · rw [he] at hn ⊢
    exact h0.nextPtbl hs hn (by omega)
  · rw [he] at hn ⊢
    have hn' : st.next + 2 ≤ n := hn
    have h1 := h0.nextPtbl hs (show st.next < n by omega) (by omega)
    exact h1.nextPdir hs hn (by omega)
  · rw [he] at hn ⊢
    have hn' : st.next + 3 ≤ n := hn
    have h1 := h0.nextPtbl hs (show st.next < n by omega) (by omega)
    have h2 := h1.nextPdir hs (show st.next + 1 < n by omega) (by omega)
    exact h2.nextPdpt hs hn (by omega)

theorem Hole.run {k m n : Nat} (h : Hole frames st) (hd : Digits k st) (hs : Supply frames n)
    (hk : k + m ≤ 2 ^ 32) (hn : (idMapPages frames (frames 1) m st).next ≤ n) :
    Hole frames (idMapPages frames (frames 1) m st) := by
  induction m generalizing k st with
  | zero => exact h
  | succ m ih =>
      have hstep : (idMapPage frames (frames 1) st).next ≤ n :=
        Nat.le_trans (next_le_idMapPages m) hn
      exact ih (h.step hd hs (by omega) hstep) hd.step (by omega) hn

/-- After `2^18` pages the hole is there. -/
theorem Shape.hole (h : Shape frames (2 ^ 18) st) : Hole frames st := by
  have hnext : st.next = 518 := h.next
  refine ⟨by omega, ⟨517, by omega, by omega, h.ptbl⟩, ⟨516, by omega, by omega, h.pdir⟩,
    ⟨2, .inl ⟨rfl, ?_⟩, by omega, h.pdpt⟩, h.pml4e 0, h.pdpte 1, h.second (by omega) 0⟩
  rw [h.digits.pdpti]
  omega

end

end UlmerOS.Boot
