import UlmerOS.Proc.Image
import UlmerOS.Proc.LockDiscipline

/-!
# The pages of the segments

`loader_load` compares the first byte of a page with the bounds of each segment.  A
page that a segment has bytes in is found if it begins in a segment, and it is not if
the segment begins behind its first byte (`loader_coverage`).

`load_heap_brk` puts the heap behind the segments.  It compares the end of each with a
maximum that is already rounded to a page.  What is skipped ends at the maximum or
before it, so that the order of the segments does not matter for the bounds
(`heap_above_segments`).
-/

namespace UlmerOS

open ByteMem

/-! ## The table -/

/-- The address is in the segment, which does not wrap around. -/
def Phte.Holds (phte : Phte) (a : Nat) : Prop :=
  phte.pVaddr + phte.pMemsz < word ∧ phte.pVaddr ≤ a ∧ a < phte.pVaddr + phte.pMemsz

instance (phte : Phte) (a : Nat) : Decidable (phte.Holds a) :=
  inferInstanceAs (Decidable (_ ∧ _ ∧ _))

/-- The segments to load are those of the table that is read. -/
theorem Loader.loads_of_ready {ldr : Loader} {pht : Mem}
    (h : ldr.ready = (0, { ldr with pht := some pht })) :
    ldr.loads = (ldr.phtes pht).filter Phte.isLoad := by
  rw [loads, h]
  rfl

/-! ## What is found for a page -/

/-- A page is found for a segment that holds its first byte. -/
theorem Phte.covers_iff {phte : Phte} {virtPage : Nat} (hb : phte.Bounded)
    (hpage : virtPage < 2 ^ 52) :
    phte.covers virtPage = true ↔ phte.Holds (pageSize * virtPage) := by
  have haddr : wrap64 (virtPage <<< pageShift) = pageSize * virtPage := by
    rw [pageShift, pageSize, Nat.shiftLeft_eq, wrap64_of_lt (by unfold word; omega)]
    omega
  have hv := hb.vaddr
  have hm := hb.memsz
  rw [covers, decide_eq_true_iff, haddr, endAddr, Holds, wrap64]
  rw [word] at *
  rw [pageSize]
  omega

/-- The search takes the first segment that holds the first byte of the page. -/
theorem Loader.segment_none_iff {ldr : Loader} {pht : Mem} {virtPage : Nat}
    (h : ldr.ready = (0, { ldr with pht := some pht })) (hpage : virtPage < 2 ^ 52) :
    ldr.segment pht virtPage = none ↔
      ∀ phte ∈ ldr.loads, ¬ phte.Holds (pageSize * virtPage) := by
  rw [segment, List.find?_eq_none, Loader.loads_of_ready h]
  simp only [Bool.and_eq_true, not_and, List.mem_filter, and_imp]
  refine forall₃_congr fun phte hphte hload => ?_
  have hb : phte.Bounded := by
    obtain ⟨i, -, rfl⟩ := List.mem_map.mp hphte
    exact Phte.ofBuf_bounded pht i
  rw [Phte.covers_iff hb hpage]

/-- What `loader_map_page` returns is not `-ENOENT`. -/
theorem loaderMapPage_ne_enoent {m m' : PhysMem} {file : File} {phte : Phte} {virtPage : Nat}
    {vspace : Vspace} {status : Int}
    (h : loaderMapPage m file phte virtPage vspace = .ret (status, m')) : status ≠ -enoent := by
  rw [loaderMapPage_eq] at h
  obtain ⟨⟨ok, m1⟩, -, hret⟩ := Outcome.bind_eq_ret.mp h
  cases hret
  cases ok with
  | true => decide
  | false => decide

/-- With a table, `loader_load` returns `-ENOENT` exactly if no segment holds the first byte
of the page, and then it changes nothing. -/
theorem loaderLoad_enoent (m : PhysMem) (vspace : Vspace) {ldr : Loader} {virtPage : Nat}
    (hlock : ldr.locked = false) (htable : ldr.HasTable) (hpage : virtPage < 2 ^ 52) :
    ((∀ phte ∈ ldr.loads, ¬ phte.Holds (pageSize * virtPage)) →
      ∃ ldr', loaderLoad m ldr virtPage vspace = .ret (-enoent, ldr', m)) ∧
    ((∃ phte ∈ ldr.loads, phte.Holds (pageSize * virtPage)) →
      ∀ ldr' m', loaderLoad m ldr virtPage vspace ≠ .ret (-enoent, ldr', m')) := by
  obtain ⟨pht, hready⟩ := Loader.ready_of_hasTable htable
  have hseg := Loader.segment_none_iff hready hpage
  have hload : loaderLoad m ldr virtPage vspace =
      (ldr.segment pht virtPage).elim (.ret (-enoent, { ldr with pht := some pht }, m))
        fun phte => (do
          let mapped ← loaderMapPage m ldr.file phte virtPage vspace
          .ret (mapped.1, { ldr with pht := some pht }, mapped.2)) := by
    rw [loaderLoad, hready, if_neg (by rw [hlock]; exact Bool.false_ne_true)]
    simp only [Int.lt_irrefl, if_false]
    have hsame : Loader.segment { ldr with pht := some pht } pht virtPage =
        ldr.segment pht virtPage := rfl
    rw [hsame]
    cases ldr.segment pht virtPage <;> rfl
  constructor
  · intro hnone
    rw [hseg.mpr hnone] at hload
    exact ⟨_, hload⟩
  · rintro ⟨phte, hphte, hholds⟩ ldr' m' hret
    cases hfound : ldr.segment pht virtPage with
    | none => exact hseg.mp hfound phte hphte hholds
    | some found =>
        rw [hfound, hret] at hload
        obtain ⟨⟨status, m1⟩, hmap, hst⟩ := Outcome.bind_eq_ret.mp hload.symm
        cases hst
        exact loaderMapPage_ne_enoent hmap rfl

/-- **The loader covers the segments** as far as pages begin in them.  A page that a segment
has a byte in is not refused exactly if some segment holds its first byte.  A page that no
segment has a byte in is refused, and nothing changes. -/
theorem loader_coverage {m : PhysMem} {ldr : Loader} {virtPage : Nat} {vspace : Vspace}
    (hlock : ldr.locked = false) (htable : ldr.HasTable) (hpage : virtPage < 2 ^ 52) :
    ((∀ phte ∈ ldr.loads, ∀ a, phte.Holds a → a >>> pageShift = virtPage →
        ∀ ldr' m', loaderLoad m ldr virtPage vspace ≠ .ret (-enoent, ldr', m')) ↔
      ((∃ phte ∈ ldr.loads, ∃ a, phte.Holds a ∧ a >>> pageShift = virtPage) →
        ∃ phte ∈ ldr.loads, phte.Holds (pageSize * virtPage))) ∧
    ((∀ phte ∈ ldr.loads, ∀ a, phte.Holds a → a >>> pageShift ≠ virtPage) →
      ∃ ldr', loaderLoad m ldr virtPage vspace = .ret (-enoent, ldr', m)) := by
  obtain ⟨hrefused, hfound⟩ := loaderLoad_enoent m vspace hlock htable hpage
  refine ⟨⟨fun hclaim => ?_, fun hcond => ?_⟩, fun hnone => hrefused fun phte hphte hholds => ?_⟩
  · rintro ⟨phte, hphte, a, ha, rfl⟩
    by_contra hno
    obtain ⟨ldr', hret⟩ := hrefused fun p hp hholds => hno ⟨p, hp, hholds⟩
    exact hclaim phte hphte a ha rfl ldr' m hret
  · rintro phte hphte a ha rfl
    exact hfound (hcond ⟨phte, hphte, a, ha, rfl⟩)
  · refine hnone phte hphte _ hholds ?_
    rw [pageShift, pageSize, Nat.shiftRight_eq_div_pow]
    omega

/-- The page of the text is loaded, and the one behind it is refused. -/
theorem loader_coverage_text : ∃ ldr,
    loaderCreate (fun _ => 0) (fun _ => 0) (File.ofBytes textElf) = some ldr ∧
      (∀ ldr' m', loaderLoad emptyMachine ldr 0x400 ⟨0⟩ ≠ .ret (-enoent, ldr', m')) ∧
      ∃ ldr', loaderLoad emptyMachine ldr 0x401 ⟨0⟩ = .ret (-enoent, ldr', emptyMachine) := by
  have hcompute : (loaderCreate (fun _ => 0) (fun _ => 0) (File.ofBytes textElf)).map
      (fun ldr => (ldr.locked, ldr.pht.isSome, ldr.loads)) =
        some (false, true, [⟨1, 5, 120, 0x400000, 4, 4⟩]) := by decide +kernel
  obtain ⟨ldr, hldr, hvals⟩ := Option.map_eq_some_iff.mp hcompute
  obtain ⟨hlock, htable, hloads⟩ := by simpa only [Prod.mk.injEq] using hvals
  have htext : (⟨1, 5, 120, 0x400000, 4, 4⟩ : Phte).Holds 0x400000 := by decide
  refine ⟨ldr, hldr, ?_, ?_⟩
  · refine (loader_coverage hlock (.inl htable) (by decide)).1.mpr
      (fun _ => ⟨_, hloads ▸ List.mem_singleton_self _, htext⟩) _
      (hloads ▸ List.mem_singleton_self _) 0x400000 htext (by decide)
  · refine (loader_coverage hlock (.inl htable) (by decide)).2 fun phte hphte a ha hpage => ?_
    rw [hloads, List.mem_singleton] at hphte
    subst hphte
    obtain ⟨-, hle, hlt⟩ := ha
    rw [pageShift, Nat.shiftRight_eq_div_pow] at hpage
    dsimp only at hle hlt
    omega

/-- A program whose text starts in the middle of a page. -/
def midPageElf : List UInt8 := elfImage [⟨1, 5, 120, 0x400800, 4, 4⟩] [0x90, 0x90, 0x90, 0xc3]

/-- Its text is not found. -/
theorem mid_page_text_refused : ∃ ldr ldr' phte,
    loaderCreate (fun _ => 0) (fun _ => 0) (File.ofBytes midPageElf) = some ldr ∧
      phte ∈ ldr.loads ∧ phte.Holds 0x400800 ∧
      loaderLoad emptyMachine ldr (0x400800 >>> pageShift) ⟨0⟩ =
        .ret (-enoent, ldr', emptyMachine) := by
  have hcompute : (loaderCreate (fun _ => 0) (fun _ => 0) (File.ofBytes midPageElf)).map
      (fun ldr => (ldr.locked, ldr.pht.isSome, ldr.loads)) =
        some (false, true, [⟨1, 5, 120, 0x400800, 4, 4⟩]) := by decide +kernel
  obtain ⟨ldr, hldr, hvals⟩ := Option.map_eq_some_iff.mp hcompute
  obtain ⟨hlock, htable, hloads⟩ := by simpa only [Prod.mk.injEq] using hvals
  obtain ⟨ldr', hret⟩ := (loaderLoad_enoent emptyMachine ⟨0⟩ hlock (.inl htable)
    (show 0x400800 >>> pageShift < 2 ^ 52 by decide)).1 (by
      rw [hloads]
      decide)
  exact ⟨ldr, ldr', _, hldr, hloads ▸ List.mem_singleton_self _, by decide, hret⟩

/-! ## The start of the heap -/

/-- A round of the loop of `load_heap_brk`. -/
def raiseBreak (minHeapBreak : Nat) (phte : Phte) : Nat :=
  if phte.isLoad ∧ phte.endAddr > minHeapBreak then
    wrap64 ((phte.endAddr >>> pageShift + 1) <<< pageShift)
  else minHeapBreak

theorem heapBreakAfter_eq (phtes : List Phte) : heapBreakAfter phtes = phtes.foldl raiseBreak 0 :=
  rfl

theorem raiseBreak_dvd {b : Nat} (hb : pageSize ∣ b) (phte : Phte) :
    pageSize ∣ raiseBreak b phte := by
  rw [raiseBreak]
  split
  · rw [wrap64, Nat.shiftLeft_eq, pageShift, word, pageSize]
    omega
  · exact hb

/-- The break is at the start of a page, wherever the segments are. -/
theorem heapBreakAfter_dvd (phtes : List Phte) : pageSize ∣ heapBreakAfter phtes := by
  rw [heapBreakAfter_eq]
  refine List.foldlRecOn phtes raiseBreak (Nat.dvd_zero pageSize) ?_
  exact fun b hb phte _ => raiseBreak_dvd hb phte

/-- The heap of a program starts with a page, or there is none. -/
theorem loaderCreate_aligned {hdrBuf phtBuf : Mem} {file : File} {ldr : Loader}
    (h : loaderCreate hdrBuf phtBuf file = some ldr) :
    pageSize ∣ ldr.minHeapBreak ∨ ldr.minHeapBreak = minusOne := by
  simp only [loaderCreate] at h
  split at h
  · cases h
  split at h
  · cases h
  split at h
  · cases h
  generalize hnew : (Loader.mk file (Elf64.ofBuf (write hdrBuf 0 (file.read 0 64).2)) none phtBuf
    false 0) = new at h
  rw [loadHeapBrk] at h
  rcases new.ready_cases with hready | ⟨pht, hready⟩
  · rw [hready] at h
    cases h
    exact .inr rfl
  · rw [hready] at h
    cases h
    simp only [Int.lt_irrefl, if_false]
    split
    · exact .inr rfl
    · exact .inl (heapBreakAfter_dvd _)

/-- What a round does to the maximum. -/
theorem raiseBreak_bounds {b : Nat} {phte : Phte} (hb : pageSize ∣ b)
    (hend : phte.isLoad = true → phte.endAddr ≤ userBreak) :
    pageSize ∣ raiseBreak b phte ∧ b ≤ raiseBreak b phte ∧
      (phte.isLoad = true → phte.endAddr ≤ raiseBreak b phte) ∧
      (raiseBreak b phte = b ∨ phte.isLoad = true ∧
        raiseBreak b phte ≤ phte.endAddr + pageSize) := by
  rw [raiseBreak]
  split
  · rename_i h
    have hend := hend h.1
    have hround : wrap64 ((phte.endAddr >>> pageShift + 1) <<< pageShift) =
        (phte.endAddr / pageSize + 1) * pageSize := by
      rw [pageShift, Nat.shiftLeft_eq, Nat.shiftRight_eq_div_pow]
      rw [userBreak] at hend
      refine wrap64_of_lt ?_
      rw [word]
      omega
    rw [hround]
    rw [pageSize] at *
    exact ⟨Nat.dvd_mul_left _ _, by omega, fun _ => by omega, .inr ⟨h.1, by omega⟩⟩
  · rename_i h
    refine ⟨hb, Nat.le_refl b, fun hload => ?_, .inl rfl⟩
    exact Nat.not_lt.mp fun hlt => h ⟨hload, hlt⟩

/-- What the loop keeps. -/
theorem foldl_raiseBreak_bounds {phtes : List Phte} {b : Nat} (hb : pageSize ∣ b)
    (hends : ∀ phte ∈ phtes, phte.isLoad = true → phte.endAddr ≤ userBreak) :
    pageSize ∣ phtes.foldl raiseBreak b ∧ b ≤ phtes.foldl raiseBreak b ∧
      (∀ phte ∈ phtes, phte.isLoad = true → phte.endAddr ≤ phtes.foldl raiseBreak b) ∧
      (phtes.foldl raiseBreak b = b ∨ ∃ phte ∈ phtes, phte.isLoad = true ∧
        phtes.foldl raiseBreak b ≤ phte.endAddr + pageSize) := by
  induction phtes generalizing b with
  | nil => exact ⟨hb, Nat.le_refl b, by simp, .inl rfl⟩
  | cons phte phtes ih =>
      obtain ⟨hb1, hle1, hend1, hnear1⟩ := raiseBreak_bounds hb (hends phte List.mem_cons_self)
      obtain ⟨hb2, hle2, hend2, hnear2⟩ := ih hb1 fun p hp => hends p (List.mem_cons_of_mem phte hp)
      rw [List.foldl_cons]
      refine ⟨hb2, hle1.trans hle2, fun p hp hload => ?_, ?_⟩
      · rcases List.mem_cons.mp hp with rfl | hp
        · exact (hend1 hload).trans hle2
        · exact hend2 p hp hload
      · rcases hnear2 with hsame | ⟨p, hp, hload, hnear⟩
        · rw [hsame]
          exact hnear1.imp_right fun h => ⟨phte, List.mem_cons_self, h⟩
        · exact .inr ⟨p, List.mem_cons_of_mem phte hp, hload, hnear⟩

/-- A segment that ends in user space ends where the code says. -/
theorem Phte.endAddr_of_le {phte : Phte} (hend : phte.pVaddr + phte.pMemsz ≤ userBreak) :
    phte.endAddr = phte.pVaddr + phte.pMemsz := by
  rw [userBreak] at hend
  exact wrap64_of_lt (by rw [word]; omega)

/-- **The heap starts above the image.**  The segments to load end in user space and not at
zero, and there is one.  Then `load_heap_brk` sets `min_heap_break` to the start of a page,
not before the end of any segment and at most a page behind the end of some, and no page
has a byte of a segment and one of the heap. -/
theorem heap_above_segments {ldr : Loader} (htable : ldr.HasTable) (hsome : ldr.loads ≠ [])
    (hends : ∀ phte ∈ ldr.loads, 0 < phte.pVaddr + phte.pMemsz ∧
      phte.pVaddr + phte.pMemsz ≤ userBreak) :
    ∃ ldr', loadHeapBrk ldr = (0, ldr') ∧ pageSize ∣ ldr'.minHeapBreak ∧
      (∀ phte ∈ ldr.loads, phte.pVaddr + phte.pMemsz ≤ ldr'.minHeapBreak) ∧
      (∃ phte ∈ ldr.loads, ldr'.minHeapBreak ≤ phte.pVaddr + phte.pMemsz + pageSize) ∧
      ∀ phte ∈ ldr.loads, ∀ a b, phte.Holds a → ldr'.minHeapBreak ≤ b →
        a >>> pageShift ≠ b >>> pageShift := by
  obtain ⟨pht, hready⟩ := Loader.ready_of_hasTable htable
  have hloads := Loader.loads_of_ready hready
  have hmem : ∀ phte, phte ∈ ldr.loads ↔ phte ∈ ldr.phtes pht ∧ phte.isLoad = true := by
    intro phte
    rw [hloads, List.mem_filter]
  obtain ⟨hdvd, -, hge, hnear⟩ := foldl_raiseBreak_bounds
    (Nat.dvd_zero pageSize) fun phte (hphte : phte ∈ ldr.phtes pht) hload => by
      obtain ⟨-, hend⟩ := hends phte ((hmem phte).mpr ⟨hphte, hload⟩)
      rw [Phte.endAddr_of_le hend]
      exact hend
  rw [← heapBreakAfter_eq] at hdvd hge hnear
  have habove : ∀ phte ∈ ldr.loads, phte.pVaddr + phte.pMemsz ≤
      heapBreakAfter (ldr.phtes pht) := by
    intro phte hphte
    rw [← Phte.endAddr_of_le (hends phte hphte).2]
    exact hge phte ((hmem phte).mp hphte).1 ((hmem phte).mp hphte).2
  obtain ⟨first, hfirst⟩ := List.exists_mem_of_ne_nil _ hsome
  have hpos : heapBreakAfter (ldr.phtes pht) ≠ 0 := by
    have hend := (hends first hfirst).1
    have hle := habove first hfirst
    omega
  have hret : loadHeapBrk ldr = (0, { ldr with
      pht := some pht, minHeapBreak := heapBreakAfter (ldr.phtes pht) }) := by
    rw [loadHeapBrk, hready]
    have hsame : Loader.phtes { ldr with pht := some pht } pht = ldr.phtes pht := rfl
    simp only [Int.lt_irrefl, if_false, hsame, if_neg hpos]
  refine ⟨_, hret, hdvd, habove, ?_, fun phte hphte a b ha hb hpage => ?_⟩
  · obtain ⟨phte, hphte, hload, hnear⟩ := hnear.resolve_left hpos
    have hin := (hmem phte).mpr ⟨hphte, hload⟩
    refine ⟨phte, hin, ?_⟩
    rw [← Phte.endAddr_of_le (hends phte hin).2]
    exact hnear
  · obtain ⟨k, hk⟩ := hdvd
    have hle := habove phte hphte
    obtain ⟨-, -, hlt⟩ := ha
    rw [pageShift, Nat.shiftRight_eq_div_pow, Nat.shiftRight_eq_div_pow] at hpage
    rw [pageSize] at hk
    dsimp only at hb
    omega

/-- Two segments, the second of which ends at the end of a page. -/
theorem heap_above_segments_two : ∃ ldr ldr',
    loaderCreate (fun _ => 0) (fun _ => 0) (File.ofBytes (elfImage
      [⟨1, 6, 0, 0x402000, 0, 0x1000⟩, ⟨1, 5, 0, 0x400000, 4, 0x1234⟩] [])) = some ldr ∧
      loadHeapBrk ldr = (0, ldr') ∧ 0x403000 ≤ ldr'.minHeapBreak := by
  have hcompute : (loaderCreate (fun _ => 0) (fun _ => 0) (File.ofBytes (elfImage
      [⟨1, 6, 0, 0x402000, 0, 0x1000⟩, ⟨1, 5, 0, 0x400000, 4, 0x1234⟩] []))).map
      (fun ldr => (ldr.pht.isSome, ldr.loads)) =
        some (true, [⟨1, 6, 0, 0x402000, 0, 0x1000⟩, ⟨1, 5, 0, 0x400000, 4, 0x1234⟩]) := by
    decide +kernel
  obtain ⟨ldr, hldr, hvals⟩ := Option.map_eq_some_iff.mp hcompute
  obtain ⟨htable, hloads⟩ := by simpa only [Prod.mk.injEq] using hvals
  have hready : ldr.HasTable := .inl htable
  obtain ⟨ldr', hret, -, habove, -⟩ := heap_above_segments hready (by rw [hloads]; nofun)
    (by rw [hloads]; decide)
  refine ⟨ldr, ldr', hldr, hret, ?_⟩
  exact habove _ (hloads ▸ List.mem_cons_self)

end UlmerOS
