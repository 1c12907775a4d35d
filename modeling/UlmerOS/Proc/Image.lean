import UlmerOS.Proc.Demand

/-!
# The image of a program

What an ELF file says about a byte of memory (`Phte.image`): in the file part of a
segment to load it is a byte of the file, and in the rest of the segment it is zero.

`loader_load` takes the first segment that the page starts in and reads up to
`p_memsz` bytes for it, whatever `p_filesz` says.  `ImageOk` is when the page is
right all the same, and `loader_load_image` says that it is right exactly then.
-/

namespace UlmerOS

open ByteMem

/-- What the segment says about the byte at an address, if it is in the segment. -/
def Phte.image (phte : Phte) (content : List UInt8) (a : Nat) : Option UInt8 :=
  if a < phte.pVaddr then none
  else if a < phte.pVaddr + phte.pFilesz then
    some (content.getD (phte.pOffset + (a - phte.pVaddr)) 0)
  else if a < phte.pVaddr + phte.pMemsz then some 0
  else none

/-- The byte at an address is what the segments say, and zero if none does. -/
def ImageByte (loads : List Phte) (content : List UInt8) (a : Nat) (b : UInt8) : Prop :=
  (∀ phte ∈ loads, ∀ v, phte.image content a = some v → b = v) ∧
    ((∀ phte ∈ loads, phte.image content a = none) → b = 0)

/-- The segments to load of a program. -/
def Loader.loads (ldr : Loader) : List Phte :=
  match ldr.ready.2.pht with
  | none => []
  | some pht => (ldr.ready.2.phtes pht).filter Phte.isLoad

/-- The address of a page. -/
def pageAddr (virtPage : Nat) : Nat := wrap64 (virtPage <<< pageShift)

/-- The byte of the file that belongs to an address of the page, where the file is
read for the segment. -/
def Phte.fileByte (phte : Phte) (content : List UInt8) (virtPage a : Nat) : UInt8 :=
  content.getD (phte.readOffset (pageAddr virtPage) + (a - pageAddr virtPage)) 0

/-- What is in the page behind the end of the segment.  In the last page of memory
the end of the page is the address zero, and the whole page is read. -/
def Phte.behind (phte : Phte) (content : List UInt8) (virtPage a : Nat) : UInt8 :=
  if pageAddr virtPage + pageSize = word then phte.fileByte content virtPage a else 0

/-- When the page that is read for the segment `phte` is right. -/
structure ImageOk (loads : List Phte) (content : List UInt8) (phte : Phte) (virtPage : Nat) :
    Prop where
  /-- What the file has behind `p_filesz` is read, and it is zero. -/
  bss : ∀ a, pageAddr virtPage ≤ a → a < pageAddr virtPage + pageSize →
    phte.pVaddr + phte.pFilesz ≤ a → a < phte.pVaddr + phte.pMemsz →
    phte.fileByte content virtPage a = 0
  /-- The offset that is read from does not wrap, or it does not matter. -/
  offset : ∀ a, pageAddr virtPage ≤ a → a < pageAddr virtPage + pageSize →
    a < phte.pVaddr + phte.pFilesz → a < phte.pVaddr + phte.pMemsz →
    phte.fileByte content virtPage a = content.getD (phte.pOffset + (a - phte.pVaddr)) 0
  /-- `p_filesz` is no more than `p_memsz`, or it does not matter. -/
  cut : ∀ a, pageAddr virtPage ≤ a → a < pageAddr virtPage + pageSize →
    phte.pVaddr + phte.pMemsz ≤ a → a < phte.pVaddr + phte.pFilesz →
    content.getD (phte.pOffset + (a - phte.pVaddr)) 0 = phte.behind content virtPage a
  /-- Other segments say the same where they are in this one. -/
  shared : ∀ a, pageAddr virtPage ≤ a → a < pageAddr virtPage + pageSize →
    ∀ other ∈ loads, ∀ v w, other.image content a = some v → phte.image content a = some w → v = w
  /-- No other segment has anything else in the rest of the page. -/
  rest : ∀ a, pageAddr virtPage ≤ a → a < pageAddr virtPage + pageSize →
    phte.image content a = none → ImageByte loads content a (phte.behind content virtPage a)

/-! ## What is read for a page -/

/-- The fields of a segment are `size_t`. -/
structure Phte.Bounded (phte : Phte) : Prop where
  vaddr : phte.pVaddr < word
  memsz : phte.pMemsz < word

theorem Phte.ofBuf_bounded (buf : Mem) (i : Nat) : (Phte.ofBuf buf i).Bounded :=
  ⟨load_lt _ _ _, load_lt _ _ _⟩

theorem pageAddr_aligned (virtPage : Nat) : ∃ k, pageAddr virtPage = 4096 * k ∧ k < 2 ^ 52 := by
  rw [pageAddr, wrap64, word, pageShift, Nat.shiftLeft_eq]
  refine ⟨virtPage % 2 ^ 52, by omega, by omega⟩

/-- A segment that the page starts in does not wrap around the end of memory. -/
theorem Phte.endAddr_of_covers {phte : Phte} {virtPage : Nat} (hb : phte.Bounded)
    (h : phte.covers virtPage = true) :
    phte.pVaddr ≤ pageAddr virtPage ∧ pageAddr virtPage < phte.endAddr ∧
      phte.endAddr = phte.pVaddr + phte.pMemsz := by
  rw [covers, decide_eq_true_iff] at h
  have h1 : phte.pVaddr ≤ pageAddr virtPage := h.1
  have h2 : pageAddr virtPage < wrap64 (phte.pVaddr + phte.pMemsz) := h.2
  refine ⟨h1, h2, ?_⟩
  have hv := hb.vaddr
  have hm := hb.memsz
  rw [endAddr]
  rw [wrap64, word] at *
  omega

/-- The bytes that are read are those of the segment, and in the last page all. -/
theorem Phte.lt_readSize_iff {phte : Phte} {virtPage i : Nat} (hb : phte.Bounded)
    (h : phte.covers virtPage = true) (hi : i < pageSize) :
    i < phte.readSize (pageAddr virtPage) ↔
      pageAddr virtPage + i < phte.pVaddr + phte.pMemsz ∨ pageAddr virtPage + pageSize = word := by
  obtain ⟨h1, h2, h3⟩ := Phte.endAddr_of_covers hb h
  have hend := wrap64_lt (phte.pVaddr + phte.pMemsz)
  obtain ⟨k, hk, hlt⟩ := pageAddr_aligned virtPage
  rw [← endAddr, word] at hend
  rw [readSize, ← h3, hk, wrap64, wrap64, pageSize, word]
  rw [hk] at h1 h2
  rw [pageSize] at hi
  split
  · omega
  · omega

/-- What the page has for a byte. -/
theorem Phte.contents_getD {phte : Phte} {file : File} {content : List UInt8} {virtPage i : Nat}
    (hb : phte.Bounded) (h : phte.covers virtPage = true)
    (hfile : ∀ offset length, (file.read offset length).2 = (content.drop offset).take length)
    (hi : i < pageSize) :
    (phte.contents file virtPage).2.getD i 0 =
      if pageAddr virtPage + i < phte.pVaddr + phte.pMemsz then
        phte.fileByte content virtPage (pageAddr virtPage + i)
      else phte.behind content virtPage (pageAddr virtPage + i) := by
  obtain ⟨-, hend, -⟩ := Phte.endAddr_of_covers hb h
  have hread := Phte.lt_readSize_iff hb h hi
  have hcontents : (phte.contents file virtPage).2 =
      (content.drop (phte.readOffset (pageAddr virtPage))).take
        (phte.readSize (pageAddr virtPage)) := by
    rw [contents, ← pageAddr, if_pos hend]
    exact hfile _ _
  have hget : (phte.contents file virtPage).2.getD i 0 =
      if i < phte.readSize (pageAddr virtPage) then
        phte.fileByte content virtPage (pageAddr virtPage + i) else 0 := by
    rw [hcontents, fileByte, Nat.add_sub_cancel_left, List.getD_eq_getElem?_getD,
      List.getElem?_take, List.getElem?_drop, List.getD_eq_getElem?_getD]
    split <;> rfl
  rw [hget, behind]
  by_cases hin : pageAddr virtPage + i < phte.pVaddr + phte.pMemsz
  · rw [if_pos hin, if_pos (hread.mpr (.inl hin))]
  · rw [if_neg hin]
    by_cases hlast : pageAddr virtPage + pageSize = word
    · rw [if_pos hlast, if_pos (hread.mpr (.inr hlast))]
    · rw [if_neg hlast, if_neg fun hr => (hread.mp hr).elim hin hlast]

/-! ## When a page is right -/

section

variable {phte : Phte} {content : List UInt8} {a : Nat}

theorem Phte.image_file (h1 : phte.pVaddr ≤ a) (h2 : a < phte.pVaddr + phte.pFilesz) :
    phte.image content a = some (content.getD (phte.pOffset + (a - phte.pVaddr)) 0) := by
  rw [image, if_neg (by omega), if_pos h2]

theorem Phte.image_bss (h1 : phte.pVaddr + phte.pFilesz ≤ a) (h2 : a < phte.pVaddr + phte.pMemsz) :
    phte.image content a = some 0 := by
  rw [image, if_neg (by omega), if_neg (by omega), if_pos h2]

theorem Phte.image_none (h1 : phte.pVaddr + phte.pFilesz ≤ a) (h2 : phte.pVaddr + phte.pMemsz ≤ a) :
    phte.image content a = none := by
  rw [image, if_neg (by omega), if_neg (by omega), if_neg (by omega)]

end

/-- A page with the file's bytes up to the end of a segment and with what is left
behind it is right exactly if the segment is one for which that does. -/
theorem imageOk_iff {loads : List Phte} {content : List UInt8} {phte : Phte} {virtPage : Nat}
    {got : Nat → UInt8} (hmem : phte ∈ loads) (hstart : phte.pVaddr ≤ pageAddr virtPage)
    (hgot : ∀ a, pageAddr virtPage ≤ a → a < pageAddr virtPage + pageSize →
      got a = if a < phte.pVaddr + phte.pMemsz then phte.fileByte content virtPage a
        else phte.behind content virtPage a) :
    (∀ a, pageAddr virtPage ≤ a → a < pageAddr virtPage + pageSize →
      ImageByte loads content a (got a)) ↔ ImageOk loads content phte virtPage := by
  constructor
  · intro h
    refine ⟨?_, ?_, ?_, ?_, ?_⟩
    · intro a ha1 ha2 hfile hmemsz
      have hbyte := (h a ha1 ha2).1 phte hmem 0 (Phte.image_bss hfile hmemsz)
      rw [hgot a ha1 ha2, if_pos hmemsz] at hbyte
      exact hbyte
    · intro a ha1 ha2 hfile hmemsz
      have hbyte := (h a ha1 ha2).1 phte hmem _ (Phte.image_file (by omega) hfile)
      rw [hgot a ha1 ha2, if_pos hmemsz] at hbyte
      exact hbyte
    · intro a ha1 ha2 hmemsz hfile
      have hbyte := (h a ha1 ha2).1 phte hmem _ (Phte.image_file (by omega) hfile)
      rw [hgot a ha1 ha2, if_neg (by omega)] at hbyte
      exact hbyte.symm
    · intro a ha1 ha2 other hother v w hv hw
      exact ((h a ha1 ha2).1 other hother v hv).symm.trans ((h a ha1 ha2).1 phte hmem w hw)
    · intro a ha1 ha2 hnone
      have hbyte := h a ha1 ha2
      rw [hgot a ha1 ha2, if_neg] at hbyte
      · exact hbyte
      · -- inside of it the segment would say something
        intro hmemsz
        by_cases hfile : a < phte.pVaddr + phte.pFilesz
        · rw [Phte.image_file (by omega) hfile] at hnone
          cases hnone
        · rw [Phte.image_bss (by omega) hmemsz] at hnone
          cases hnone
  · intro h a ha1 ha2
    have hsaid : ∀ w, phte.image content a = some w → got a = w →
        ImageByte loads content a (got a) := by
      intro w hw hgw
      refine ⟨fun other hother v hv => ?_, fun hnone => ?_⟩
      · rw [hgw, h.shared a ha1 ha2 other hother v w hv hw]
      · rw [hnone phte hmem] at hw
        cases hw
    by_cases hfile : a < phte.pVaddr + phte.pFilesz
    · refine hsaid _ (Phte.image_file (by omega) hfile) ?_
      rw [hgot a ha1 ha2]
      split
      · rename_i hmemsz
        exact h.offset a ha1 ha2 hfile hmemsz
      · exact (h.cut a ha1 ha2 (by omega) hfile).symm
    · by_cases hmemsz : a < phte.pVaddr + phte.pMemsz
      · refine hsaid _ (Phte.image_bss (by omega) hmemsz) ?_
        rw [hgot a ha1 ha2, if_pos hmemsz]
        exact h.bss a ha1 ha2 (by omega) hmemsz
      · rw [hgot a ha1 ha2, if_neg hmemsz]
        exact h.rest a ha1 ha2 (Phte.image_none (by omega) (by omega))

/-! ## The page that is loaded -/

/-- A page is loaded from the first segment to load that it starts in. -/
theorem Loader.demand_page {ldr : Loader} {virtPage : Nat} {ret : Int} {bytes : List UInt8}
    {flags : Nat} (h : ldr.demand virtPage = .page ret bytes flags) :
    ∃ phte, ldr.loads.find? (fun phte => phte.covers virtPage) = some phte ∧ phte.Bounded ∧
      bytes = (phte.contents ldr.file virtPage).2 := by
  rw [demand, ready_file] at h
  split at h
  · cases h
  split at h
  · cases h
  split at h
  · cases h
  · rename_i phte hphte
    cases h
    obtain ⟨pht, hpht, hseg⟩ := Option.bind_eq_some_iff.mp hphte
    refine ⟨phte, ?_, ?_, rfl⟩
    · rw [loads, hpht]
      simp only [List.find?_filter, Bool.decide_and, Bool.decide_eq_true]
      exact hseg
    · obtain ⟨i, -, rfl⟩ := List.mem_map.mp (List.mem_of_find?_eq_some hseg)
      exact Phte.ofBuf_bounded pht i

/-- `loader_load` returns success only for a page that it asked a frame for. -/
theorem loaderLoad_success {m m' : PhysMem} {vs : Vspace} {ldr ldr' : Loader} {virtPage : Nat}
    {status : Int} (hfile : ldr.file.Bounded) (hsep : Separated m vs) (hused : TablesUsed m vs)
    (h : loaderLoad m ldr virtPage vs = .ret (status, ldr', m')) (hok : 0 ≤ status) :
    ∃ phte ret flags, ldr.loads.find? (fun phte => phte.covers virtPage) = some phte ∧
      phte.Bounded ∧
      MapFresh vs m virtPage ret (phte.contents ldr.file virtPage).2 flags true m' := by
  obtain ⟨statusOf, hstatus, hload⟩ := loaderLoad_eq m ldr virtPage vs
  rw [hload] at h
  obtain ⟨⟨ok, m1⟩, hserve, hret⟩ := Outcome.bind_eq_ret.mp h
  cases hret
  obtain rfl := (hstatus ok).mp hok
  cases hd : ldr.demand virtPage with
  | nothing => rw [hd] at hserve; cases hserve
  | stuck => rw [hd] at hserve; cases hserve
  | page ret bytes flags =>
      obtain ⟨phte, hfind, hb, rfl⟩ := Loader.demand_page hd
      rw [hd, Demand.serve] at hserve
      rcases mapFresh_cases virtPage ret flags (phte.contents_length hfile virtPage) hsep hused
        with hm | ⟨ok, m1, hm, hmap⟩
      · rw [hm] at hserve
        cases hserve
      · rw [hm] at hserve
        cases hserve
        exact ⟨phte, ret, flags, hfind, hb, hmap⟩

/-- **Demand-loaded memory is the image of the program** exactly for the pages for which
what the file has behind `p_filesz` does no harm, and no other segment has anything else
in the page. -/
theorem loader_load_image {m m' : PhysMem} {vs : Vspace} {ldr ldr' : Loader} {virtPage : Nat}
    {status : Int} {content : List UInt8} (hsep : Separated m vs) (hused : TablesUsed m vs)
    (hfile : ∀ offset length, (ldr.file.read offset length).2 = (content.drop offset).take length)
    (hnone : translation m vs virtPage = none)
    (hload : loaderLoad m ldr virtPage vs = .ret (status, ldr', m')) (hok : 0 ≤ status) :
    ∃ mp phte, translation m' vs virtPage = some mp ∧
      ldr.loads.find? (fun phte => phte.covers virtPage) = some phte ∧
      ((∀ a, pageAddr virtPage ≤ a → a < pageAddr virtPage + pageSize →
        ImageByte ldr.loads content a (m'.ram (pageSize * mp.ppn + (a - pageAddr virtPage)))) ↔
        ImageOk ldr.loads content phte virtPage) := by
  have hbounded : ldr.file.Bounded := by
    intro offset length
    rw [hfile]
    exact List.length_take_le _ _
  obtain ⟨phte, ret, flags, hfind, hb, hmap⟩ :=
    loaderLoad_success hbounded hsep hused hload hok
  obtain ⟨p, htrans, hram⟩ := hmap.frame hused hnone
  have hcovers := List.find?_some hfind
  refine ⟨_, phte, htrans, hfind, imageOk_iff (List.mem_of_find?_eq_some hfind)
    (Phte.endAddr_of_covers hb hcovers).1 fun a ha1 ha2 => ?_⟩
  obtain ⟨i, rfl⟩ := Nat.exists_eq_add_of_le ha1
  have hi : i < pageSize := by omega
  rw [Nat.add_sub_cancel_left]
  exact (hram i hi).trans (Phte.contents_getD hb hcovers hfile hi)

/-- A segment without anything behind its file part, alone in its page. -/
theorem imageOk_text : ImageOk [⟨1, 5, 120, 0x400000, 4, 4⟩] textElf
    ⟨1, 5, 120, 0x400000, 4, 4⟩ 0x400 := by
  have haddr : pageAddr 0x400 = 0x400000 := by decide
  have hoffset : (⟨1, 5, 120, 0x400000, 4, 4⟩ : Phte).readOffset 0x400000 = 120 := by decide
  refine ⟨?_, ?_, ?_, ?_, ?_⟩
  · intro a _ _ h1 h2
    simp only at h1 h2
    omega
  · intro a _ _ _ _
    rw [Phte.fileByte, haddr, hoffset]
  · intro a _ _ h1 h2
    simp only at h1 h2
    omega
  · intro a _ _ other hother v w hv hw
    obtain rfl := List.mem_singleton.mp hother
    exact Option.some.inj (hv.symm.trans hw)
  · intro a _ _ hnone
    refine ⟨fun other hother v hv => ?_, fun _ => ?_⟩
    · obtain rfl := List.mem_singleton.mp hother
      rw [hnone] at hv
      cases hv
    · rw [Phte.behind, haddr, if_neg (by decide)]

/-- The page of a program that is all text is its image. -/
theorem loader_load_image_text : ∃ proc m ldr' m', ∃ mp : Mapping,
    boot textElf = .ret (proc, m) ∧
      loaderLoad m proc.loader 0x400 proc.vspace = .ret (0, ldr', m') ∧
      translation m' proc.vspace 0x400 = some mp ∧
      ∀ a, pageAddr 0x400 ≤ a → a < pageAddr 0x400 + pageSize →
        ImageByte proc.loader.loads textElf a
          (m'.ram (pageSize * mp.ppn + (a - pageAddr 0x400))) := by
  have hcompute : (do
      let booted ← boot textElf
      let loaded ← loaderLoad booted.2 booted.1.loader 0x400 booted.1.vspace
      .ret (loaded.1, (translation booted.2 booted.1.vspace 0x400).map Mapping.ppn,
        booted.1.loader.loads)) =
      .ret (0, none, [⟨1, 5, 120, 0x400000, 4, 4⟩]) := by decide +kernel
  obtain ⟨⟨proc, m⟩, hboot, hrest⟩ := Outcome.bind_eq_ret.mp hcompute
  obtain ⟨⟨status, ldr', m'⟩, hload, hvals⟩ := Outcome.bind_eq_ret.mp hrest
  simp only [Outcome.ret.injEq, Prod.mk.injEq, Option.map_eq_none_iff] at hvals
  obtain ⟨rfl, hnone, hloads⟩ := hvals
  obtain ⟨ldr, -, hstart⟩ := boot_ret hboot
  have hc := (procStart_ret emptyMachine_kernel.used hstart).1
  obtain ⟨mp, phte, htrans, hfind, hiff⟩ := loader_load_image (hc.separated emptyMachine_kernel)
    (hc.tablesUsed emptyMachine_kernel.used) (fun _ _ => by rw [boot_file hboot]; rfl) hnone hload
    (Int.le_refl 0)
  refine ⟨proc, m, ldr', m', mp, hboot, hload, htrans, hiff.mpr ?_⟩
  rw [hloads] at hfind ⊢
  rw [List.find?_cons_of_pos (by decide)] at hfind
  rw [← Option.some.inj hfind]
  exact imageOk_text

/-- A program with four bytes of data and four that should be zero, in a file that goes on. -/
def bssElf : List UInt8 := elfImage [⟨1, 6, 120, 0x400000, 4, 8⟩] [1, 2, 3, 4, 5, 6, 7, 8]

/-- What stands in the file behind the data is found where zeroes should be. -/
theorem bss_reads_file : ∃ proc m ldr' m', ∃ mp : Mapping,
    boot bssElf = .ret (proc, m) ∧ Separated m proc.vspace ∧ TablesUsed m proc.vspace ∧
      (∀ offset length,
        (proc.loader.file.read offset length).2 = (bssElf.drop offset).take length) ∧
      translation m proc.vspace 0x400 = none ∧
      loaderLoad m proc.loader 0x400 proc.vspace = .ret (0, ldr', m') ∧
      translation m' proc.vspace 0x400 = some mp ∧
      ¬ ImageByte proc.loader.loads bssElf (pageAddr 0x400 + 4)
        (m'.ram (pageSize * mp.ppn + 4)) := by
  have hcompute : (do
      let booted ← boot bssElf
      let loaded ← loaderLoad booted.2 booted.1.loader 0x400 booted.1.vspace
      .ret (loaded.1, (translation booted.2 booted.1.vspace 0x400).map Mapping.ppn,
        booted.1.loader.loads,
        (translation loaded.2.2 booted.1.vspace 0x400).map fun mp : Mapping =>
          loaded.2.2.ram (pageSize * mp.ppn + 4))) =
      .ret (0, none, [⟨1, 6, 120, 0x400000, 4, 8⟩], some 5) := by decide +kernel
  obtain ⟨⟨proc, m⟩, hboot, hrest⟩ := Outcome.bind_eq_ret.mp hcompute
  obtain ⟨⟨status, ldr', m'⟩, hload, hvals⟩ := Outcome.bind_eq_ret.mp hrest
  simp only [Outcome.ret.injEq, Prod.mk.injEq, Option.map_eq_none_iff,
    Option.map_eq_some_iff] at hvals
  obtain ⟨rfl, hnone, hloads, mp, hmp, hbyte⟩ := hvals
  obtain ⟨ldr, -, hstart⟩ := boot_ret hboot
  have hc := (procStart_ret emptyMachine_kernel.used hstart).1
  refine ⟨proc, m, ldr', m', mp, hboot, hc.separated emptyMachine_kernel,
    hc.tablesUsed emptyMachine_kernel.used, fun _ _ => by rw [boot_file hboot]; rfl, hnone,
    hload, hmp, fun himage => ?_⟩
  rw [hbyte, hloads] at himage
  have hzero := himage.1 ⟨1, 6, 120, 0x400000, 4, 8⟩ (List.mem_singleton.mpr rfl) 0 (by decide)
  cases hzero

end UlmerOS
