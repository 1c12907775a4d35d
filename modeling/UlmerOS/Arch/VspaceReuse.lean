import UlmerOS.Mm.HeapReuse
import UlmerOS.Sched.MutexMemory

/-!
# Address spaces in the kernel heap

The half of `vspace_create` and `vspace_delete` (`arch/x86_64/x86_64/vspace.c`) that is about
the `vspace_t`: it comes from the kernel heap, its mutex is initialised, and it goes back.
The frames of the tables are not part of it.

`mutex_init` asserts that the magic number is not there yet, in memory that was not written
since it was allocated.  `vspace_delete` does not call `mutex_destroy`, so the magic number
stays in the block.  A `vspace_t` that is placed where another one was meets it.
-/

namespace UlmerOS

open ByteMem Tiling Transition

/-! ## The functions -/

/-- `sizeof(vspace_t)`: a `mutex_t` of 72 bytes, and `pml4_ppn`. -/
def vspaceSize : Nat := 80

namespace VspaceObject

variable (debug : Bool) (kernel : Vspace)

/-- `vspace_create`, with the frame that `alloc_page` gave. -/
def vspaceCreate (h : Heap) (ppn function line : Nat) : Outcome (Nat × Heap) := do
  let (vspace, h) ← h.kmalloc debug kernel vspaceSize function line
  if vspace = 0 then .fault
  else
    let mem ← mutexInit debug (store h.mem (vspace + 72) 8 ppn) vspace
    .ret (vspace, { h with mem := mem })

/-- `vspace_delete`, by the task `current`. -/
def vspaceDelete (h : Heap) (vspace current : Nat) : Outcome Heap := do
  let mem ← mutexLock debug h.mem vspace current
  let pml4Ppn := load mem (vspace + 72) 8
  let mem ← mutexUnlock debug (store mem (vspace + 72) 8 minusOne) vspace current
  if pml4Ppn = minusOne then .ret { h with mem := mem }
  else ({ h with mem := mem } : Heap).kfree debug kernel vspace

/-! ## Histories -/

/-- The heap with its live address spaces.  The memory behind the break up to `high` was in
the heap before, and its page was not unmapped since. -/
structure State extends HeapState where
  high : Nat

/-- No address space was made yet. -/
def State.boot (mem : Mem) (m0 : PhysMem) : State where
  toHeapState := .empty mem m0
  high := kheapStart

/-- What is done with address spaces. -/
inductive Call where
  /-- `vspace_create()` returned `vspace`. -/
  | create (vspace : Nat)
  /-- `vspace_delete(vspace)` returned. -/
  | delete (vspace : Nat)

/-- The calls.  The break does not wrap around, and only live address spaces are deleted. -/
inductive Step : State → Call → State → Prop where
  | create {s : State} {h : Heap} {ppn function line vspace : Nat} :
      vspaceCreate debug kernel s.heap ppn function line = .ret (vspace, h) →
      s.heap.brk ≤ h.brk →
      Step s (.create vspace)
        { heap := h
          live := Function.update s.live vspace (some vspaceSize)
          high := max s.high h.brk }
  | delete {s : State} {h : Heap} {vspace current : Nat} :
      s.live vspace ≠ none → vspaceDelete debug kernel s.heap vspace current = .ret h →
      Step s (.delete vspace)
        { heap := h
          live :=
            if load s.heap.mem (vspace + 72) 8 = minusOne then s.live
            else Function.update s.live vspace none
          high := min s.high (pageSize * firstPage h.brk) }

/-- The size of the block of a `vspace_t`. -/
def slotSize : Nat := headerSize debug + vspaceSize

/-- A `vspace_t` that is made now is placed where none has been: no block is available, and
the magic number of one at the break would not all be in memory that was in the heap. -/
def Untouched (s : State) : Call → Prop
  | .create _ =>
      s.heap.findFit debug (slotSize debug) word s.heap.start = .ret none ∧
        s.high < s.heap.brk + headerSize debug + 12
  | .delete _ => True

/-! ## What the functions write -/

variable {debug kernel}

/-- The byte is not in one of the fields that `vspace_delete` writes to. -/
def OutsideFields (vspace x : Nat) : Prop :=
  x < vspace ∨ (vspace + 8 ≤ x ∧ x < vspace + 16) ∨ vspace + vspaceSize ≤ x

/-- `vspace_delete` writes to fields other than the magic number, and frees the `vspace_t`
unless that was done before. -/
theorem vspaceDelete_ret {h h' : Heap} {vspace current : Nat}
    (hret : vspaceDelete debug kernel h vspace current = .ret h') :
    ∃ mem, (∀ x, OutsideFields vspace x → mem x = h.mem x) ∧
      (load h.mem (vspace + 72) 8 = minusOne → h' = { h with mem := mem }) ∧
      (load h.mem (vspace + 72) 8 ≠ minusOne →
        ({ h with mem := mem } : Heap).kfree debug kernel vspace = .ret h') := by
  obtain ⟨mem1, hlock, hret⟩ := Outcome.bind_eq_ret.mp hret
  obtain ⟨mem2, hunlock, hret⟩ := Outcome.bind_eq_ret.mp hret
  have hload : load mem1 (vspace + 72) 8 = load h.mem (vspace + 72) 8 :=
    load_congr fun x h1 h2 => mutexLock_ret hlock x (by omega)
  simp only [hload] at hret
  refine ⟨mem2, fun x hx => ?_, fun hgone => ?_, fun hgone => ?_⟩
  · rw [OutsideFields, vspaceSize] at hx
    rw [mutexUnlock_ret hunlock x (by omega), store_of_not_mem (by omega),
      mutexLock_ret hlock x (by omega)]
  · rw [if_pos hgone] at hret
    exact (Outcome.ret.inj hret).symm
  · rw [if_neg hgone] at hret
    exact hret

/-! ## Slots -/

/-- The magic number of the `i`th `vspace_t` from the start of the heap. -/
def magicAt (debug : Bool) (i : Nat) : Nat :=
  kheapStart + slotSize debug * i + headerSize debug + 8

/-- Blocks whose sizes are multiples of that of a slot begin where a slot does. -/
theorem slot_of_at {bs : List Block} (hslots : ∀ b ∈ bs, slotSize debug ∣ b.size) {a : Nat}
    {b : Block} (hb : At Block.size kheapStart bs a b) :
    ∃ i, a = kheapStart + slotSize debug * i := by
  obtain ⟨xs, ys, rfl, rfl⟩ := hb
  obtain ⟨i, hi⟩ := dvd_total fun c hc => hslots c (List.mem_append_left _ hc)
  exact ⟨i, by rw [hi]⟩

/-- A byte of a slot is in no other one. -/
theorem slot_unique (debug : Bool) {i k x y : Nat} (hx : x < slotSize debug)
    (hy : y < slotSize debug) (h : slotSize debug * i + x = slotSize debug * k + y) : i = k := by
  have hik : slotSize debug * i < slotSize debug * (k + 1) := by
    rw [Nat.mul_succ]
    omega
  have hki : slotSize debug * k < slotSize debug * (i + 1) := by
    rw [Nat.mul_succ]
    omega
  have h1 := Nat.lt_of_mul_lt_mul_left hik
  have h2 := Nat.lt_of_mul_lt_mul_left hki
  omega

/-- A magic number is in no header. -/
theorem not_inHeader_magicAt {bs : List Block} (hslots : ∀ b ∈ bs, slotSize debug ∣ b.size)
    (i : Nat) {j : Nat} (hj : j < 8) : ¬ InHeader debug bs (magicAt debug i + j) := by
  rintro ⟨a, b, hb, h1, h2⟩
  obtain ⟨k, rfl⟩ := slot_of_at hslots hb
  rw [magicAt] at h1 h2
  obtain ⟨d, hd⟩ := Nat.exists_eq_add_of_le h1
  have hsize : slotSize debug = headerSize debug + 80 := rfl
  have heq : i = k := slot_unique debug (x := headerSize debug + 8 + j) (y := d)
    (by omega) (by omega) (by omega)
  subst heq
  omega

/-- The upper half of the magic number is zero. -/
theorem mutexMagic_high : ∀ j, 4 ≤ j → j < 8 → UInt8.ofNat (mutexMagic / 256 ^ j) = 0 := by
  decide

/-! ## The invariant -/

variable {m0 : PhysMem} {s s' : State} {bs : List Block} {top : Nat}

theorem vspaceSize_fits (debug : Bool) : headerSize debug + vspaceSize < word := by
  cases debug <;> decide

/-- The heap is one of slots, and every slot that was in the heap since its pages were mapped
has the magic number. -/
structure Inv (debug : Bool) (kernel : Vspace) (m0 : PhysMem) (s : State) (bs : List Block)
    (top : Nat) : Prop where
  heap : HeapInv debug s.toHeapState bs
  sizes : ∀ p r, s.live p = some r → r = vspaceSize
  backed : HeapBacked m0 kernel s.heap top
  low : s.heap.brk ≤ s.high
  page : s.high ≤ pageSize * firstPage s.heap.brk
  zero : ZeroFrom kernel s.heap s.high
  slots : ∀ b ∈ bs, slotSize debug ∣ b.size
  magic : ∀ i j, j < 8 → magicAt debug i + j < s.high →
    s.heap.mem (magicAt debug i + j) = UInt8.ofNat (mutexMagic / 256 ^ j)

namespace Inv

/-- The break is where a slot begins. -/
theorem brk_slot (h : Inv debug kernel m0 s bs top) :
    ∃ n, s.heap.brk = kheapStart + slotSize debug * n := by
  obtain ⟨n, hn⟩ := dvd_total h.slots
  exact ⟨n, by rw [h.heap.rep.brk_eq, hn]⟩

theorem boot {mem : Mem} (hk : KernelTables m0 kernel)
    (hempty : ∀ page, HeapPage page → translation m0 kernel page = none) :
    ∃ top, Inv debug kernel m0 (State.boot mem m0) [] top := by
  obtain ⟨-, top, -, hm⟩ : PagesInv debug m0 kernel (.empty mem m0) := pagesInv_empty mem hk hempty
  refine ⟨top, .empty mem m0, nofun, hm.backed, Nat.le_refl _, (firstPage_bounds kheapStart).1,
    fun x _ hw hne => absurd (hempty _ hw) hne, nofun, fun i j _ hlt => ?_⟩
  have hhigh : (State.boot mem m0).high = kheapStart := rfl
  rw [hhigh, magicAt] at hlt
  omega

/-- A `vspace_t` that is made where none was. -/
theorem create (h : Inv debug kernel m0 s bs top) {h' : Heap} {ppn function line vspace : Nat}
    (hret : vspaceCreate debug kernel s.heap ppn function line = .ret (vspace, h'))
    (hbrk : s.heap.brk ≤ h'.brk) (hok : Untouched debug s (.create vspace)) :
    ∃ bs' top', Inv debug kernel m0
      { heap := h'
        live := Function.update s.live vspace (some vspaceSize)
        high := max s.high h'.brk } bs' top' := by
  obtain ⟨⟨p, h1⟩, hmalloc, hret⟩ := Outcome.bind_eq_ret.mp hret
  simp only at hret
  split at hret
  · cases hret
  obtain ⟨mem, hinit, hret⟩ := Outcome.bind_eq_ret.mp hret
  cases hret
  simp only at hbrk
  have hsize : slotSize debug = headerSize debug + 80 := rfl
  have hH := headerSize_bounds debug
  obtain ⟨hptr, hbrk1, hal, hk, hkbrk, hphys, hkb, hmem1⟩ :=
    kmalloc_append h.heap.rep (vspaceSize_fits debug) hmalloc hbrk hok.1
  obtain ⟨hfields, hmagic⟩ := mutexInit_ret hinit
  obtain ⟨hzero, hbelow⟩ := h.zero.raise h.backed hkbrk (hkb ▸ hbrk)
  obtain ⟨n, hn⟩ := h.brk_slot
  rw [vspaceSize] at hbrk1
  have hlow := h.low
  have hpage := h.page
  -- outside its payload nothing is written but headers
  have hout : ∀ x, x < vspace ∨ vspace + vspaceSize ≤ x → mem x = h1.mem x := by
    intro x hx
    rw [vspaceSize] at hx
    rw [hfields x (by omega), store_of_not_mem (by omega)]
  have hrest : ∀ x, ¬ InHeader debug bs x → x < s.heap.brk ∨ h1.brk ≤ x → mem x = hk.mem x := by
    intro x hx hlt
    rw [hout x (by rw [vspaceSize]; omega), hmem1 x hx (by omega)]
  have hinv : HeapInv debug
      ⟨{ h1 with mem := mem, phys := h1.phys }, Function.update s.live vspace (some vspaceSize)⟩
      (bs ++ [⟨headerSize debug + vspaceSize, some vspaceSize⟩]) := by
    refine (h.heap.kmalloc hal).use fun x hx => hout x ?_
    by_contra hc
    exact hx ⟨vspace, vspaceSize, Function.update_self .., by omega, by omega⟩
  refine ⟨_, _, hinv, fun q r hq => ?_, (h.backed.raise hkbrk (hkb ▸ hbrk)).congr hphys hkb, ?_, ?_,
    fun x hx hw hne => ?_, fun b hb => ?_, fun i j hj hlt => ?_⟩
  · by_cases hqp : q = vspace
    · subst hqp
      simp only [Function.update_self] at hq
      exact (Option.some.inj hq).symm
    · simp only [Function.update_of_ne hqp] at hq
      exact h.sizes q r hq
  · exact Nat.le_max_right _ _
  · have hmono := Nat.mul_le_mul_left pageSize (firstPage_mono hbrk)
    have hend := (firstPage_bounds h1.brk).1
    exact Nat.max_le.mpr ⟨hpage.trans hmono, hend⟩
  · simp only at hx hne ⊢
    rw [hrest x (h.heap.rep.not_inHeader_behind (by omega)) (by omega)]
    exact hzero x (by omega) hw (by rw [← hphys]; exact hne)
  · rcases List.mem_append.mp hb with hb | hb
    · exact h.slots b hb
    · rw [List.mem_singleton.mp hb]
      exact Nat.dvd_refl _
  · simp only at hlt ⊢
    have hnot := not_inHeader_magicAt h.slots i hj
    have hfirst := (firstPage_bounds s.heap.brk).1
    have hat : magicAt debug i + j =
        kheapStart + slotSize debug * i + (headerSize debug + 8 + j) := by
      rw [magicAt]
      omega
    rcases Nat.lt_trichotomy i n with hi | rfl | hi
    · have hmul := Nat.mul_le_mul_left (slotSize debug) (Nat.succ_le_of_lt hi)
      rw [Nat.mul_succ] at hmul
      rw [hrest _ hnot (.inl (by omega)), hbelow _ (by omega)]
      exact h.magic i j hj (by omega)
    · rw [hat, show kheapStart + slotSize debug * i + (headerSize debug + 8 + j) =
        vspace + 8 + j by omega]
      exact hmagic j hj
    · have hmul := Nat.mul_le_mul_left (slotSize debug) (Nat.succ_le_of_lt hi)
      rw [Nat.mul_succ] at hmul
      have hhigh : magicAt debug i + j < s.high := by omega
      rw [hrest _ hnot (.inr (by omega)), hbelow _ (by omega)]
      exact h.magic i j hj hhigh

/-- Other fields of a live `vspace_t` are written to. -/
theorem touch (h : Inv debug kernel m0 s bs top) {mem : Mem} {vspace : Nat}
    (hlive : s.live vspace ≠ none) (hmem : ∀ x, OutsideFields vspace x → mem x = s.heap.mem x) :
    Inv debug kernel m0 { s with heap := { s.heap with mem := mem } } bs top := by
  obtain ⟨r, hr⟩ := Option.ne_none_iff_exists'.mp hlive
  obtain rfl := h.sizes vspace r hr
  obtain ⟨a, b, hl, hlr, ha⟩ := (h.heap.live_iff vspace vspaceSize).mp hr
  have hfit := h.heap.fits a b vspaceSize hl hlr
  have hend := h.heap.rep.le_brk hl.1
  have hlow := h.low
  obtain ⟨k, hk⟩ := slot_of_at h.slots hl.1
  have hsize : slotSize debug = headerSize debug + 80 := rfl
  rw [vspaceSize] at hfit
  have hheap : HeapInv debug ⟨{ s.heap with mem := mem, phys := s.heap.phys }, s.live⟩ bs := by
    refine h.heap.use fun x hx => hmem x ?_
    rw [OutsideFields]
    by_contra hc
    exact hx ⟨vspace, vspaceSize, hr, by omega, by omega⟩
  refine ⟨hheap, h.sizes, h.backed.congr rfl rfl, h.low, h.page, fun x hx hw hne => ?_, h.slots,
    fun i j hj hlt => ?_⟩
  · simp only at hx
    exact (hmem x (.inr (.inr (by rw [vspaceSize]; omega)))).trans (h.zero x hx hw hne)
  · refine (hmem _ ?_).trans (h.magic i j hj hlt)
    rw [OutsideFields, vspaceSize, magicAt]
    by_cases hi : i = k
    · subst hi
      exact .inr (.inl (by omega))
    · -- a byte in the block would be in two slots
      by_contra hc
      refine hi (slot_unique debug (x := headerSize debug + 8 + j)
        (y := kheapStart + slotSize debug * i + headerSize debug + 8 + j - a) ?_ ?_ ?_)
      · omega
      · omega
      · omega

/-- A `vspace_t` is deleted. -/
theorem delete (h : Inv debug kernel m0 s bs top) {h' : Heap} {vspace current : Nat}
    (hlive : s.live vspace ≠ none)
    (hret : vspaceDelete debug kernel s.heap vspace current = .ret h') :
    ∃ bs' top', Inv debug kernel m0
      { heap := h'
        live :=
          if load s.heap.mem (vspace + 72) 8 = minusOne then s.live
          else Function.update s.live vspace none
        high := min s.high (pageSize * firstPage h'.brk) } bs' top' := by
  obtain ⟨mem, hmem, hkept, hfreed⟩ := vspaceDelete_ret hret
  have h1 := h.touch hlive hmem
  by_cases hgone : load s.heap.mem (vspace + 72) 8 = minusOne
  · obtain rfl := hkept hgone
    simp only [if_pos hgone]
    refine ⟨bs, top, ?_⟩
    rw [Nat.min_eq_left h1.page]
    exact h1
  · have hres := hfreed hgone
    simp only [if_neg hgone]
    obtain ⟨a, b, rfl, hl⟩ := h1.heap.liveAt hlive
    obtain ⟨h2, bs', hfree, hfrees, htrims, -⟩ := kfree_ret kernel h1.heap.rep hl
    rw [hfree] at hres
    cases hres
    obtain ⟨top', hbacked, hle, hlower⟩ := h1.backed.kfree h1.heap.rep hl hfree
    have hbrk := htrims.brk_le
    have hfirst := (firstPage_bounds h'.brk).1
    have hlow := h1.low
    refine ⟨bs', top', h1.heap.kfree hfrees.toReleases, fun q r hq => ?_, hbacked, ?_,
      Nat.min_le_right _ _, ?_, htrims.dvd _ h1.slots, fun i j hj hlt => ?_⟩
    · by_cases hqp : q = a + headerSize debug
      · subst hqp
        simp only [Function.update_self] at hq
        cases hq
      · simp only [Function.update_of_ne hqp] at hq
        exact h.sizes q r hq
    · exact Nat.le_min.mpr ⟨hbrk.trans hlow, hfirst⟩
    · exact h1.zero.kfree h1.backed h1.heap.rep htrims hlow h1.page hbacked hle hlower
    · simp only at hlt ⊢
      rw [htrims.keeps _ (by omega) (not_inHeader_magicAt h1.slots i hj)]
      exact h1.magic i j hj (Nat.lt_of_lt_of_le hlt (Nat.min_le_left _ _))

/-! ## What `mutex_init` finds -/

/-- Between the break and the one that `kbrk` raises it to, what was not in the heap since its
page was mapped is zero. -/
theorem raise_zero (h : Inv debug kernel m0 s bs top) {increment o x : Nat} {hk : Heap}
    (hkbrk : s.heap.kbrk kernel increment = .ret (o, hk)) (hbrk : s.heap.brk ≤ hk.brk)
    (hhigh : s.high ≤ x) (hx : x < hk.brk) : hk.mem x = 0 := by
  obtain ⟨hzero, -⟩ := h.zero.raise h.backed hkbrk hbrk
  have hback := h.backed.raise hkbrk hbrk
  have hge := h.backed.ge
  have hlt := hback.lt
  have hlow := h.low
  have hpage := heapPage_of_brk (n := x) (by omega) (by omega)
  refine hzero x hhigh hpage ((hback.mapped_iff _ hpage).mpr ?_)
  exact Nat.lt_succ_of_le (Nat.div_le_div_right hx.le)

/-- In memory that was not in the heap since its page was mapped there is a zero in the place
of the last byte of a magic number. -/
theorem fresh (h : Inv debug kernel m0 s bs top) {function line vspace : Nat} {h1 : Heap}
    (hmalloc : s.heap.kmalloc debug kernel vspaceSize function line = .ret (vspace, h1))
    (hbrk : s.heap.brk ≤ h1.brk) (hok : Untouched debug s (.create vspace)) :
    vspace ≠ 0 ∧ h1.mem (vspace + 8 + 3) = 0 ∧ h1.mem (vspace + 56 + 3) = 0 := by
  obtain ⟨hnone, hhigh⟩ := hok
  obtain ⟨hptr, hbrk1, -, hk, hkbrk, -, hkb, hmem⟩ :=
    kmalloc_append h.heap.rep (vspaceSize_fits debug) hmalloc hbrk hnone
  have hge := h.backed.ge
  have hpos : 0 < kheapStart := by decide
  rw [vspaceSize] at hbrk1
  have zero : ∀ x, s.high ≤ x → s.heap.brk + headerSize debug ≤ x → x < h1.brk →
      h1.mem x = 0 := by
    intro x h2 h3 h4
    rw [hmem x (h.heap.rep.not_inHeader_behind (by omega)) (.inr h3)]
    exact h.raise_zero hkbrk (hkb ▸ hbrk) h2 (by omega)
  exact ⟨by omega, zero _ (by omega) (by omega) (by omega),
    zero _ (by omega) (by omega) (by omega)⟩

/-- Where a `vspace_t` has been there is the magic number. -/
theorem stale (h : Inv debug kernel m0 s bs top) {function line vspace : Nat} {h1 : Heap}
    (hmalloc : s.heap.kmalloc debug kernel vspaceSize function line = .ret (vspace, h1))
    (hbrk : s.heap.brk ≤ h1.brk) (hno : ¬ Untouched debug s (.create vspace)) :
    vspace ≠ 0 ∧ ∀ j < 8, h1.mem (vspace + 8 + j) = UInt8.ofNat (mutexMagic / 256 ^ j) := by
  have hpos : 0 < kheapStart := by decide
  have hlow := h.low
  have hsize : slotSize debug = headerSize debug + 80 := rfl
  obtain ⟨r, hfind, -⟩ := findFit_ret (slotSize debug) h.heap.rep.chain
    (by decide) h.heap.rep.length_lt
  rw [← h.heap.rep.start_eq] at hfind
  cases r with
  | some entry =>
      obtain ⟨hptr, ⟨b, hb, -, hfit⟩, hmem⟩ :=
        kmalloc_reuse h.heap.rep (vspaceSize_fits debug) hmalloc hfind
      obtain ⟨i, hi⟩ := slot_of_at h.slots hb
      have hend := h.heap.rep.le_brk hb
      rw [vspaceSize] at hmem hfit
      refine ⟨by omega, fun j hj => ?_⟩
      have hat : vspace + 8 + j = magicAt debug i + j := by
        rw [magicAt]
        omega
      rw [hmem _ (by omega) (by omega), hat]
      exact h.magic i j hj (by omega)
  | none =>
      have hhigh : s.heap.brk + headerSize debug + 12 ≤ s.high := by
        by_contra hc
        exact hno ⟨hfind, by omega⟩
      obtain ⟨hptr, hbrk1, -, hk, hkbrk, -, hkb, hmem⟩ :=
        kmalloc_append h.heap.rep (vspaceSize_fits debug) hmalloc hbrk hfind
      obtain ⟨-, hbelow⟩ := h.zero.raise h.backed hkbrk (hkb ▸ hbrk)
      have hge := h.backed.ge
      have hpage := h.page
      obtain ⟨n, hn⟩ := h.brk_slot
      rw [vspaceSize] at hbrk1
      refine ⟨by omega, fun j hj => ?_⟩
      have hat : vspace + 8 + j = magicAt debug n + j := by
        rw [magicAt]
        omega
      rw [hmem _ (h.heap.rep.not_inHeader_behind (by omega)) (.inr (by omega))]
      by_cases hold : vspace + 8 + j < s.high
      · rw [hbelow _ (by omega), hat]
        exact h.magic n j hj (hat ▸ hold)
      · -- the page ends in the magic number, behind the bytes that are not zero
        rw [h.raise_zero hkbrk (hkb ▸ hbrk) (by omega) (by omega)]
        exact (mutexMagic_high j (by omega) hj).symm

end Inv

theorem Inv.step {call : Call} (h : Inv debug kernel m0 s bs top)
    (hstep : Guarded (Step debug kernel) (Untouched debug) s call s') :
    ∃ bs' top', Inv debug kernel m0 s' bs' top' := by
  obtain ⟨hstep, hok⟩ := hstep
  cases hstep with
  | create hret hbrk => exact h.create hret hbrk hok
  | delete hlive hret => exact h.delete hlive hret

/-- In every history in which no `vspace_t` so far was placed where another one has been,
`mutex_init` met no magic number; and in the next call of `vspace_create` it meets none, and
the assertion does not fail, if and only if that one is not placed so either. -/
theorem create_meets_no_magic_iff {mem : Mem} {calls : List Call} (hk : KernelTables m0 kernel)
    (hempty : ∀ page, HeapPage page → translation m0 kernel page = none)
    (hrun : Run (Guarded (Step debug kernel) (Untouched debug)) (State.boot mem m0) calls s)
    {ppn function line vspace : Nat} {h : Heap}
    (hmalloc : s.heap.kmalloc debug kernel vspaceSize function line = .ret (vspace, h))
    (hbrk : s.heap.brk ≤ h.brk) :
    (¬ MutexInitialized (store h.mem (vspace + 72) 8 ppn) vspace ↔
      Untouched debug s (.create vspace)) ∧
    (vspaceCreate debug kernel s.heap ppn function line = .panic alreadyInitialized ↔
      debug = true ∧ ¬ Untouched debug s (.create vspace)) := by
  obtain ⟨bs, top, hinv⟩ : ∃ bs top, Inv debug kernel m0 s bs top :=
    Run.invariant (P := fun s => ∃ bs top, Inv debug kernel m0 s bs top)
      (fun _ _ _ ⟨_, _, hi⟩ hst => hi.step hst) ⟨[], Inv.boot hk hempty⟩ hrun
  have hother : ∀ n, n + 8 ≤ 72 → load (store h.mem (vspace + 72) 8 ppn) (vspace + n) 8 =
      load h.mem (vspace + n) 8 := fun n hn => load_store_of_disjoint (by omega)
  rw [vspaceCreate, hmalloc, Outcome.ret_bind]
  by_cases hok : Untouched debug s (.create vspace)
  · obtain ⟨hpos, hmagic, hspin⟩ := hinv.fresh hmalloc hbrk hok
    have hno : ¬ MutexInitialized (store h.mem (vspace + 72) 8 ppn) vspace := by
      rintro (hz | hc)
      · exact hpos hz
      · rw [hother 8 (by omega)] at hc
        exact load_ne_mutexMagic hmagic hc
    obtain ⟨mem', hinit⟩ : ∃ mem',
        mutexInit debug (store h.mem (vspace + 72) 8 ppn) vspace = .ret mem' := by
      refine mutexInit_returns hno ?_
      rw [hother 56 (by omega)]
      exact load_ne_mutexMagic hspin
    simp only [if_neg hpos, hinit, Outcome.ret_bind]
    exact ⟨iff_of_true hno hok, iff_of_false nofun fun hc => hc.2 hok⟩
  · obtain ⟨hpos, hbytes⟩ := hinv.stale hmalloc hbrk hok
    have hyes : MutexInitialized (store h.mem (vspace + 72) 8 ppn) vspace := by
      refine .inr ?_
      rw [hother 8 (by omega), load_of_bytes hbytes]
      rfl
    refine ⟨iff_of_false (not_not_intro hyes) hok, ?_⟩
    simp only [if_neg hpos]
    cases debug with
    | true =>
        rw [mutexInit, if_pos ⟨rfl, hyes⟩]
        exact iff_of_true rfl ⟨rfl, hok⟩
    | false =>
        obtain ⟨mem', hinit⟩ := mutexInit_release (store h.mem (vspace + 72) 8 ppn) vspace
        rw [hinit, Outcome.ret_bind]
        exact iff_of_false nofun fun hc => absurd hc.1 Bool.false_ne_true

/-- A `vspace_t` is made and deleted, which leaves no page of the heap.  Two more are made in
pages that are mapped anew, and neither meets the magic number of the first. -/
theorem create_meets_no_magic_iff_page_anew : ∃ s h,
    Run (Guarded (Step true ⟨0⟩) (Untouched true)) (State.boot (fun _ => 0xab) emptyMachine)
      [.create (kheapStart + 44), .delete (kheapStart + 44), .create (kheapStart + 44)] s ∧
    s.heap.kmalloc true ⟨0⟩ vspaceSize 1 3 = .ret (kheapStart + 168, h) ∧
    ¬ MutexInitialized (store h.mem (kheapStart + 168 + 72) 8 7) (kheapStart + 168) ∧
    vspaceCreate true ⟨0⟩ s.heap 7 1 3 ≠ .panic alreadyInitialized := by
  obtain ⟨s0, hs0⟩ : ∃ s0, s0 = State.boot (fun _ => 0xab) emptyMachine := ⟨_, rfl⟩
  have hcompute : (do
      let created1 ← vspaceCreate true ⟨0⟩ s0.heap 5 1 1
      let h2 ← vspaceDelete true ⟨0⟩ created1.2 created1.1 1
      let fit2 ← h2.findFit true (slotSize true) word h2.start
      let created3 ← vspaceCreate true ⟨0⟩ h2 6 1 2
      let fit3 ← created3.2.findFit true (slotSize true) word created3.2.start
      let placed ← created3.2.kmalloc true ⟨0⟩ vspaceSize 1 3
      .ret ((created1.1, created3.1, placed.1),
        (created1.2.brk, h2.brk, created3.2.brk, placed.2.brk), fit2.isNone, fit3.isNone)) =
        Outcome.ret ((kheapStart + 44, kheapStart + 44, kheapStart + 168),
          (kheapStart + 124, kheapStart, kheapStart + 124, kheapStart + 248), true, true) := by
    rw [hs0]
    decide +kernel
  obtain ⟨⟨p, h1⟩, hc1, hrest⟩ := Outcome.bind_eq_ret.mp hcompute
  obtain ⟨h2, hd, hrest⟩ := Outcome.bind_eq_ret.mp hrest
  obtain ⟨fit2, hf2, hrest⟩ := Outcome.bind_eq_ret.mp hrest
  obtain ⟨⟨q, h3⟩, hc3, hrest⟩ := Outcome.bind_eq_ret.mp hrest
  obtain ⟨fit3, hf3, hrest⟩ := Outcome.bind_eq_ret.mp hrest
  obtain ⟨⟨r, h4⟩, hmalloc, hrest⟩ := Outcome.bind_eq_ret.mp hrest
  simp only [Outcome.ret.injEq, Prod.mk.injEq, Option.isNone_iff_eq_none] at hrest
  obtain ⟨⟨rfl, rfl, rfl⟩, ⟨hb1, hb2, hb3, hb4⟩, rfl, rfl⟩ := hrest
  have hok1 : Untouched true s0 (.create (kheapStart + 44)) := by
    rw [hs0]
    exact ⟨by decide +kernel, by decide⟩
  have hle1 : s0.heap.brk ≤ h1.brk := by
    rw [hs0, hb1]
    decide
  obtain ⟨s, hrun, hheap, hhigh⟩ : ∃ s, Run (Guarded (Step true ⟨0⟩) (Untouched true)) s0
      [.create (kheapStart + 44), .delete (kheapStart + 44), .create (kheapStart + 44)] s ∧
      s.heap = h3 ∧ s.high ≤ kheapStart + 124 := by
    refine ⟨_, .cons ⟨.create hc1 hle1, hok1⟩ (.cons ⟨.delete ?_ hd, trivial⟩
      (.cons ⟨.create hc3 ?_, hf2, ?_⟩ .nil)), rfl, ?_⟩
    · simp only
      rw [Function.update_self]
      exact Option.some_ne_none _
    · simp only [hb2, hb3]
      decide
    · simp only [hs0, hb1, hb2]
      decide
    · simp only [hs0, hb1, hb2, hb3]
      decide
  rw [hs0] at hrun
  subst hheap
  have hok4 : Untouched true s (.create (kheapStart + 168)) := by
    refine ⟨hf3, ?_⟩
    rw [hb3]
    exact Nat.lt_of_le_of_lt hhigh (by decide)
  obtain ⟨hmagic, hpanic⟩ : _ ∧ (_ = Outcome.panic alreadyInitialized ↔ _) :=
    create_meets_no_magic_iff emptyMachine_kernel (fun page _ => emptyMachine_heapPage page) hrun
      hmalloc (by rw [hb3, hb4]; decide)
  exact ⟨s, h4, hrun, hmalloc, hmagic.mpr hok4, fun hp => (hpanic.mp hp).2 hok4⟩

/-- A `vspace_t` is made in the block of another one that was deleted. -/
theorem recreated_vspace_panics : ∃ s,
    Run (Step true ⟨0⟩) (State.boot (fun _ => 0) emptyMachine)
      [.create (kheapStart + 44), .create (kheapStart + 168), .delete (kheapStart + 44)] s ∧
    vspaceCreate true ⟨0⟩ s.heap 7 1 3 = .panic alreadyInitialized := by
  obtain ⟨s0, hs0⟩ : ∃ s0, s0 = State.boot (fun _ => 0) emptyMachine := ⟨_, rfl⟩
  rw [← hs0]
  have hcompute : (do
      let created1 ← vspaceCreate true ⟨0⟩ s0.heap 5 1 1
      let created2 ← vspaceCreate true ⟨0⟩ created1.2 6 1 2
      let h3 ← vspaceDelete true ⟨0⟩ created2.2 created1.1 1
      .ret (created1.1, created2.1, created1.2.brk, created2.2.brk,
        (vspaceCreate true ⟨0⟩ h3 7 1 3).panicText)) =
        Outcome.ret (kheapStart + 44, kheapStart + 168, kheapStart + 124, kheapStart + 248,
          some alreadyInitialized) := by
    rw [hs0]
    decide +kernel
  obtain ⟨⟨p, h1⟩, hc1, hrest⟩ := Outcome.bind_eq_ret.mp hcompute
  obtain ⟨⟨q, h2⟩, hc2, hrest⟩ := Outcome.bind_eq_ret.mp hrest
  obtain ⟨h3, hd, hrest⟩ := Outcome.bind_eq_ret.mp hrest
  simp only [Outcome.ret.injEq, Prod.mk.injEq] at hrest
  obtain ⟨rfl, rfl, hb1, hb2, hlast⟩ := hrest
  refine ⟨_, .cons (.create hc1 ?_) (.cons (.create hc2 ?_) (.cons (.delete ?_ hd) .nil)),
    Outcome.panicText_eq_some.mp hlast⟩
  · rw [hs0, hb1]
    decide
  · simp only [hb1, hb2]
    decide
  · simp only
    rw [Function.update_of_ne (by decide), Function.update_self]
    exact Option.some_ne_none _

end VspaceObject

end UlmerOS
