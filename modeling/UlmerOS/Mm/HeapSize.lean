import UlmerOS.Mm.HeapPages

/-!
# Sizes that are too large

`_kmalloc` adds `HEADER_SIZE` to the size, and `kbrk` adds the sum to the break, without
a check: both sums wrap around.  The result of `kbrk` is compared with -1, but `kbrk`
returns the old break and never an error.  So a size that does not fit below the end of
the address space is not refused.

`SizeFits` is what would have to be checked.  Between calls that meet it the heap stands
for a list of blocks, and the result of the next call is right exactly if that one meets
it too.
-/

namespace UlmerOS

open ByteMem Tiling Transition

variable {debug : Bool} {kernel : Vspace} {h h' : Heap} {bs : List Block}

/-- `KHEAP_END`. -/
def kheapEnd : Nat := 0xffffffffffffffff

namespace Heap

/-- The blocks that are reached from `heap_start`. -/
inductive Listed (h : Heap) : Nat → Prop where
  | start : h.start ≠ 0 → Listed h h.start
  | next {a : Nat} : Listed h a → h.next a ≠ 0 → Listed h (h.next a)

/-- An available block is large enough. -/
def HasFit (debug : Bool) (h : Heap) (required : Nat) : Prop :=
  ∃ a, h.Listed a ∧ h.available a ≠ 0 ∧ required ≤ h.size debug a

/-- The size with its header is a word, and there is room for it in an available block or
between the break and the end of the address space.

The second case is the one in which `_kmalloc` does return `NULL`: the break is at -1,
and is raised by 0 bytes. -/
def SizeFits (debug : Bool) (h : Heap) (size : Nat) : Prop :=
  (headerSize debug + size < word ∧
    (h.HasFit debug (headerSize debug + size) ∨ h.brk + (headerSize debug + size) < word)) ∨
  (headerSize debug + size = word ∧ h.brk = minusOne ∧ ¬ h.HasFit debug 0)

end Heap

/-- The block list, the break and the mappings are the same. -/
structure Unchanged (debug : Bool) (kernel : Vspace) (h h' : Heap) : Prop where
  start_eq : h'.start = h.start
  last_eq : h'.last = h.last
  headers : ∀ a x, h.Listed a → a ≤ x → x < a + headerSize debug → h'.mem x = h.mem x
  brk_eq : h'.brk = h.brk
  mappings : ∀ page, translation h'.phys kernel page = translation h.phys kernel page

/-- What `_kmalloc(size)` may return: `NULL`, with the heap as it was, or the payload of a
block, which is large enough and lies between `KHEAP_START` and `KHEAP_END`. -/
def SafeResult (debug : Bool) (kernel : Vspace) (h : Heap) (size p : Nat) (h' : Heap) : Prop :=
  (p = 0 ∧ Unchanged debug kernel h h') ∨
  ∃ a, p = a + headerSize debug ∧ h'.Listed a ∧ headerSize debug + size ≤ h'.size debug a ∧
    kheapStart ≤ p ∧ a + h'.size debug a ≤ kheapEnd

/-! ## The list in memory -/

/-- The list has the blocks that the heap stands for. -/
theorem Rep.listed_iff (hr : Rep debug h bs) {a : Nat} :
    h.Listed a ↔ ∃ b, At Block.size kheapStart bs a b := by
  constructor
  · intro hl
    induction hl with
    | start hne =>
        rw [hr.start_eq] at hne ⊢
        cases bs with
        | nil => exact absurd rfl hne
        | cons b bs => exact ⟨b, at_block [] b bs⟩
    | @next a _ hne ih =>
        obtain ⟨b, xs, ys, rfl, rfl⟩ := ih
        have hnext : h.next (kheapStart + total Block.size xs) = _ := hr.chain.header.next_eq
        rw [hnext] at hne ⊢
        cases ys with
        | nil => exact absurd rfl hne
        | cons c ys => exact ⟨c, xs ++ [b], ys, by simp, by simp [Nat.add_assoc]⟩
  · rintro ⟨b, xs, ys, rfl, rfl⟩
    induction xs using List.reverseRecOn generalizing b ys with
    | nil =>
        have hstart : h.start = kheapStart := hr.start_eq
        have hl : h.Listed h.start := .start (by rw [hstart]; decide)
        rw [hstart] at hl
        exact hl
    | append_singleton zs z ih =>
        rw [List.append_assoc] at hr
        have hnext : h.next (kheapStart + total Block.size zs) =
            kheapStart + total Block.size zs + z.size := hr.chain.header.next_eq
        have hl := (ih z (b :: ys) hr).next
          (by rw [hnext, Nat.add_assoc]; exact kheapStart_pos _)
        rw [hnext] at hl
        rw [total_append, total_cons, total_nil, Nat.add_zero, ← Nat.add_assoc]
        exact hl

/-- What the header of a block says. -/
theorem Rep.header (hr : Rep debug h bs) {a : Nat} (hb : At Block.size kheapStart bs a b) :
    h.available a = b.available ∧ h.size debug a = b.size := by
  obtain ⟨xs, ys, rfl, rfl⟩ := hb
  have hd := hr.chain.header
  exact ⟨hd.available, hd.size_eq⟩

theorem Rep.hasFit_iff (hr : Rep debug h bs) {required : Nat} :
    h.HasFit debug required ↔ ∃ b ∈ bs, b.live = none ∧ required ≤ b.size := by
  constructor
  · rintro ⟨a, hl, hav, hfit⟩
    obtain ⟨b, hb⟩ := hr.listed_iff.mp hl
    obtain ⟨h1, h2⟩ := hr.header hb
    rw [h1, Block.available] at hav
    rw [h2] at hfit
    cases hlive : b.live with
    | none => exact ⟨b, hb.mem, hlive, hfit⟩
    | some size => exact absurd (by rw [hlive]; rfl) hav
  · rintro ⟨b, hb, hlive, hfit⟩
    obtain ⟨xs, ys, rfl⟩ := List.mem_iff_append.mp hb
    have hat := at_block xs b ys
    obtain ⟨h1, h2⟩ := hr.header hat
    refine ⟨_, hr.listed_iff.mpr ⟨b, hat⟩, ?_, by rw [h2]; exact hfit⟩
    rw [h1, Block.available, hlive]
    decide

/-! ## The result of `_kmalloc` -/

theorem appendBlock_last (blk requiredSize function line : Nat) :
    (h.appendBlock debug blk requiredSize function line).last = blk := by
  simp only [Heap.appendBlock]
  split <;> split <;> rfl

/-- How a call of `_kmalloc` returns, for any size. -/
inductive Kmalloced (debug : Bool) (kernel : Vspace) (h : Heap) (bs : List Block)
    (required p : Nat) (h' : Heap) : Prop where
  /-- An available block was found. -/
  | reused {a : Nat} {b : Block} (hb : At Block.size kheapStart bs a b) (hfree : b.live = none)
      (hfit : required ≤ b.size) (hp : p = wrap64 (a + headerSize debug)) (hbrk : h'.brk = h.brk)
  /-- The old break is taken for an error. -/
  | refused (hno : ¬ h.HasFit debug required) (herror : h.brk = minusOne) (hp : p = 0)
      (hkbrk : h.kbrk kernel required = .ret (h.brk, h'))
  /-- A block was added at the old break. -/
  | added (hno : ¬ h.HasFit debug required) (hne : h.brk ≠ minusOne)
      (hp : p = wrap64 (h.brk + headerSize debug)) (hbrk : h'.brk = wrap64 (h.brk + required))
      (hlast : h'.last = h.brk)

theorem Rep.kmalloced (hr : Rep debug h bs) {size function line p : Nat}
    (hret : h.kmalloc debug kernel size function line = .ret (p, h')) :
    Kmalloced debug kernel h bs (wrap64 (headerSize debug + size)) p h' := by
  obtain ⟨r, hfind, hfound, hnone⟩ := findFit_ret (wrap64 (headerSize debug + size)) hr.chain
    (by decide) hr.length_lt
  rw [← hr.start_eq] at hfind
  rw [Heap.kmalloc, hfind, Outcome.ret_bind] at hret
  cases r with
  | some entry =>
      obtain ⟨xs, b, ys, rfl, hfree, hfit, rfl⟩ := hfound entry rfl
      cases hret
      refine .reused (at_block xs b ys) hfree hfit rfl ?_
      exact (crop_phys debug _ _ _).2.trans (setOrigin_eq debug _ _ function line).2.2
  | none =>
      have hno : ¬ h.HasFit debug (wrap64 (headerSize debug + size)) := by
        rw [hr.hasFit_iff]
        rintro ⟨b, hb, hfree, hfit⟩
        exact absurd hfit (Nat.not_le_of_lt (hnone rfl b hb hfree))
      obtain ⟨⟨blk, h1⟩, hkbrk, hret⟩ := Outcome.bind_eq_ret.mp hret
      obtain ⟨rfl, hbroken⟩ := kbrk_ret hkbrk
      simp only at hret
      split at hret
      · rename_i herror
        cases hret
        exact .refused hno herror rfl hkbrk
      · rename_i hne
        cases hret
        exact .added hno hne rfl ((appendBlock_brk _ _ _ _).trans hbroken.brk_eq)
          (appendBlock_last _ _ _ _)

/-- Raising the break by nothing does nothing, if it is not at the start of a page. -/
theorem kbrk_zero (hlt : h.brk < word) (hpage : h.brk % pageSize ≠ 0) :
    h.kbrk kernel 0 = .ret (h.brk, h) := by
  have hcount : h.brk / pageSize + 1 - (h.brk / pageSize + 1) = 0 := Nat.sub_self _
  simp only [Heap.kbrk, Nat.add_zero, wrap64_of_lt hlt]
  rw [if_neg (by omega), if_pos hpage, hcount]
  rfl

/-- A sum that wraps around once. -/
theorem wrap64_of_ge {n : Nat} (hge : word ≤ n) (hlt : n < 2 * word) : wrap64 n = n - word := by
  rw [wrap64, Nat.mod_eq_sub_mod hge, Nat.mod_eq_of_lt (by omega)]

/-- With room for the block the break does not wrap around. -/
theorem kmalloc_brk_le (hr : Rep debug h bs) {size function line p : Nat}
    (hsize : headerSize debug + size < word)
    (hroom : h.HasFit debug (headerSize debug + size) ∨
      h.brk + (headerSize debug + size) < word)
    (hret : h.kmalloc debug kernel size function line = .ret (p, h')) : h.brk ≤ h'.brk := by
  have hk := hr.kmalloced hret
  rw [wrap64_of_lt hsize] at hk
  cases hk with
  | reused _ _ _ _ hbrk => exact hbrk.ge
  | refused hno _ _ hkbrk =>
      rw [(kbrk_ret hkbrk).2.brk_eq, wrap64_of_lt (hroom.resolve_left hno)]
      exact Nat.le_add_right _ _
  | added hno _ _ hbrk _ =>
      rw [hbrk, wrap64_of_lt (hroom.resolve_left hno)]
      exact Nat.le_add_right _ _

/-- In the corner `_kmalloc` returns `NULL` and does nothing. -/
theorem kmalloc_corner (hr : Rep debug h bs) {size function line p : Nat}
    (hsize : headerSize debug + size = word) (herror : h.brk = minusOne)
    (hno : ¬ h.HasFit debug 0)
    (hret : h.kmalloc debug kernel size function line = .ret (p, h')) : p = 0 ∧ h' = h := by
  have hk := hr.kmalloced hret
  rw [hsize, show wrap64 word = 0 from rfl] at hk
  cases hk with
  | reused hb hfree hfit _ _ => exact absurd (hr.hasFit_iff.mpr ⟨_, hb.mem, hfree, hfit⟩) hno
  | refused _ _ hp hkbrk =>
      rw [kbrk_zero hr.brk_lt (by rw [herror]; decide)] at hkbrk
      cases hkbrk
      exact ⟨hp, rfl⟩
  | added _ hne _ _ _ => exact absurd herror hne

/-- The block of a call that allocates is where it should be. -/
theorem Allocates.safe {size p : Nat} {bs' : List Block}
    (hal : Allocates debug h bs size p h' bs') : SafeResult debug kernel h size p h' := by
  obtain ⟨a, b, rfl, -, hfit, -, hiff⟩ := hal.block
  have hat := ((hiff a b).mpr (.inr ⟨rfl, rfl⟩)).1
  have hsize := (hal.rep.header hat).2
  have haddr := hal.rep.addr_lt hat
  have hlow := hat.bounds.1
  refine .inr ⟨a, rfl, hal.rep.listed_iff.mpr ⟨b, hat⟩, ?_, by omega, ?_⟩
  · rw [hsize]
    omega
  · rw [hsize, kheapEnd]
    simp only [word] at haddr
    omega

/-- A size that fits is one for which the call is right. -/
theorem Heap.SizeFits.safe (hr : Rep debug h bs) {size function line p : Nat}
    (hret : h.kmalloc debug kernel size function line = .ret (p, h'))
    (hfits : h.SizeFits debug size) : SafeResult debug kernel h size p h' := by
  rcases hfits with ⟨hsize, hroom⟩ | ⟨hsize, herror, hno⟩
  · obtain ⟨bs', hal, -⟩ := kmalloc_ret hr hsize hret (kmalloc_brk_le hr hsize hroom hret)
    exact hal.safe
  · obtain ⟨rfl, rfl⟩ := kmalloc_corner hr hsize herror hno hret
    exact .inl ⟨rfl, ⟨rfl, rfl, fun _ _ _ _ _ => rfl, rfl, fun _ => rfl⟩⟩

/-- With a sum that is a word, but no room, the break wraps around. -/
theorem safe_room (hr : Rep debug h bs) {size function line p : Nat}
    (hsize : headerSize debug + size < word)
    (hret : h.kmalloc debug kernel size function line = .ret (p, h'))
    (hsafe : SafeResult debug kernel h size p h')
    (hno : ¬ h.HasFit debug (headerSize debug + size)) :
    h.brk + (headerSize debug + size) < word := by
  have hH := headerSize_bounds debug
  have hbrk := hr.brk_lt
  have hk := hr.kmalloced hret
  rw [wrap64_of_lt hsize] at hk
  by_contra hge
  have hwrap : wrap64 (h.brk + (headerSize debug + size)) < h.brk := by
    rw [wrap64_of_ge (by omega) (by omega)]
    omega
  cases hk with
  | reused hb hfree hfit _ _ => exact hno (hr.hasFit_iff.mpr ⟨_, hb.mem, hfree, hfit⟩)
  | refused _ _ hp hkbrk =>
      rcases hsafe with ⟨-, hsame⟩ | ⟨a, ha, -⟩
      · have := (kbrk_ret hkbrk).2.brk_eq
        have := hsame.brk_eq
        omega
      · omega
  | added _ _ hp hbrk' _ =>
      rcases hsafe with ⟨-, hsame⟩ | ⟨a, ha, -, hfit, hlow, hend⟩
      · have := hsame.brk_eq
        omega
      · by_cases hhead : h.brk + headerSize debug < word
        · rw [wrap64_of_lt hhead] at hp
          simp only [kheapEnd, word] at hend hge
          omega
        · rw [wrap64_of_ge (by omega) (by omega)] at hp
          simp only [kheapStart, word] at hlow hp hbrk
          omega

/-- With a sum that is no word the call is right only in the corner. -/
theorem safe_corner (hr : Rep debug h bs) {size function line p : Nat} (hlt : size < word)
    (hsize : word ≤ headerSize debug + size)
    (hret : h.kmalloc debug kernel size function line = .ret (p, h'))
    (hsafe : SafeResult debug kernel h size p h') :
    headerSize debug + size = word ∧ h.brk = minusOne ∧ ¬ h.HasFit debug 0 := by
  have hH := headerSize_bounds debug
  have hword : 44 < word := by decide
  have hk := hr.kmalloced hret
  rw [wrap64_of_ge hsize (by omega)] at hk
  rcases hsafe with ⟨hzero, hsame⟩ | ⟨a, -, -, hfit, -⟩
  · cases hk with
    | @reused a b hb _ _ hp _ =>
        have haddr := hr.addr_lt hb
        have hge := hr.chain.size_ge b hb.mem
        rw [wrap64_of_lt (by omega)] at hp
        omega
    | refused hno herror _ hkbrk =>
        have hbrk := (kbrk_ret hkbrk).2.brk_eq
        rw [hsame.brk_eq, herror] at hbrk
        have hexact : headerSize debug + size - word = 0 := by
          by_contra hne
          rw [wrap64_of_ge (by rw [minusOne]; omega) (by rw [minusOne]; omega), minusOne] at hbrk
          omega
        rw [hexact] at hno
        exact ⟨by omega, herror, hno⟩
    | added _ _ _ _ hlast =>
        -- the new block would be the last one
        have hsame' := hsame.last_eq
        rw [hlast, hr.last_eq] at hsame'
        have hbrk := hr.brk_eq
        rcases List.eq_nil_or_concat' bs with rfl | ⟨zs, z, rfl⟩
        · exact absurd (hbrk.symm.trans hsame') (kheapStart_pos _)
        · have hge := hr.chain.size_ge z (by simp)
          rw [lastAddr_concat] at hsame'
          rw [total_append, total_cons, total_nil] at hbrk
          omega
  · exact absurd hfit (Nat.not_le_of_lt (Nat.lt_of_lt_of_le (load_lt _ _ _) hsize))

/-- The call is right exactly for the sizes that fit. -/
theorem safeResult_iff (hr : Rep debug h bs) {size function line p : Nat} (hlt : size < word)
    (hret : h.kmalloc debug kernel size function line = .ret (p, h')) :
    SafeResult debug kernel h size p h' ↔ h.SizeFits debug size := by
  refine ⟨fun hsafe => ?_, fun hfits => hfits.safe hr hret⟩
  by_cases hsize : headerSize debug + size < word
  · refine .inl ⟨hsize, ?_⟩
    by_cases hfit : h.HasFit debug (headerSize debug + size)
    · exact .inl hfit
    · exact .inr (safe_room hr hsize hret hsafe hfit)
  · exact .inr (safe_corner hr hlt (by omega) hret hsafe)

/-! ## Runs -/

/-- The calls, whatever the sizes are.  A pointer that is `NULL` is not live. -/
inductive KheapStep (debug : Bool) (kernel : Vspace) : HeapState → HeapCall → HeapState → Prop where
  | kmalloc {s : HeapState} {h : Heap} {size function line ptr : Nat} :
      size < word → s.heap.kmalloc debug kernel size function line = .ret (ptr, h) →
      KheapStep debug kernel s (.kmalloc size ptr)
        ⟨h, if ptr = 0 then s.live else Function.update s.live ptr (some size)⟩
  | other {s s' : HeapState} {call : HeapCall} :
      (∀ size ptr, call ≠ .kmalloc size ptr) → HeapStep debug kernel s call s' →
      KheapStep debug kernel s call s'

/-- The sizes that are asked for fit. -/
def SizesFit (debug : Bool) (s : HeapState) : HeapCall → Prop
  | .kmalloc size _ => s.heap.SizeFits debug size
  | _ => True

/-- Calls whose sizes fit keep the invariant of the heap. -/
theorem kheapStep_inv {s s' : HeapState} {call : HeapCall} (hinv : HeapInv debug s bs)
    (hst : Guarded (KheapStep debug kernel) (SizesFit debug) s call s') :
    ∃ bs', HeapInv debug s' bs' := by
  obtain ⟨hstep, hfits⟩ := hst
  cases hstep with
  | @kmalloc h size function line ptr _ hret =>
      rcases hfits with ⟨hsize, hroom⟩ | ⟨hsize, herror, hno⟩
      · obtain ⟨bs', hal, -⟩ := kmalloc_ret hinv.rep hsize hret
          (kmalloc_brk_le hinv.rep hsize hroom hret)
        have hne : ptr ≠ 0 := by
          obtain ⟨a, -, hp, -⟩ := hal.block
          have hH := headerSize_bounds debug
          omega
        refine ⟨bs', ?_⟩
        rw [if_neg hne]
        exact hinv.kmalloc hal
      · obtain ⟨rfl, rfl⟩ := kmalloc_corner hinv.rep hsize herror hno hret
        exact ⟨bs, hinv⟩
  | other _ hst => exact (heapStep_inv hinv hst).imp fun _ h => h.1

/-- **When `_kmalloc` is right about sizes.**  After every run whose sizes fit, the next
call, for any size that is a word, returns either `NULL` with the heap unchanged or a
block that is large enough and lies in the heap's range, exactly if its size fits too.
Such a call returns unless `kbrk` gets no frames. -/
theorem kmalloc_size_safe {mem : Mem} {phys : PhysMem} {calls : List HeapCall} {s : HeapState}
    (hrun : Run (Guarded (KheapStep debug kernel) (SizesFit debug)) (HeapState.empty mem phys)
      calls s) {size : Nat} (hsize : size < word) (function line : Nat) :
    (∀ p h, s.heap.kmalloc debug kernel size function line = .ret (p, h) →
      (SafeResult debug kernel s.heap size p h ↔ s.heap.SizeFits debug size)) ∧
    (s.heap.SizeFits debug size →
      (∃ r, s.heap.kmalloc debug kernel size function line = .ret r) ∨
        ∀ r, s.heap.kbrk kernel (wrap64 (headerSize debug + size)) ≠ .ret r) := by
  obtain ⟨bs, hinv⟩ : ∃ bs, HeapInv debug s bs :=
    Run.invariant (P := fun s => ∃ bs, HeapInv debug s bs)
      (fun _ _ _ ⟨_, hinv⟩ hst => kheapStep_inv hinv hst) ⟨[], .empty mem phys⟩ hrun
  exact ⟨fun p h hret => safeResult_iff hinv.rep hsize hret,
    fun _ => kmalloc_ret_or_kbrk hinv.rep size function line⟩

/-- The second block of the debug build. -/
theorem kmalloc_size_safe_second_block : ∃ (s : HeapState) (h : Heap),
    s.live (kheapStart + 44) = some 72 ∧
      s.heap.kmalloc true ⟨0⟩ 100 1 2 = .ret (kheapStart + 160, h) ∧
      SafeResult true ⟨0⟩ s.heap 100 (kheapStart + 160) h := by
  obtain ⟨h0, hh0⟩ : ∃ h0, h0 = HeapState.empty (fun _ => 0) emptyMachine := ⟨_, rfl⟩
  have hcompute : (do
      let placed1 ← h0.heap.kmalloc true ⟨0⟩ 72 1 1
      let placed2 ← placed1.2.kmalloc true ⟨0⟩ 100 1 2
      .ret (placed1.1, placed2.1, placed1.2.brk)) =
        Outcome.ret (kheapStart + 44, kheapStart + 160, kheapStart + 116) := by
    rw [hh0]
    decide +kernel
  obtain ⟨⟨p, h1⟩, hm1, hrest⟩ := Outcome.bind_eq_ret.mp hcompute
  obtain ⟨⟨q, h2⟩, hm2, hrest⟩ := Outcome.bind_eq_ret.mp hrest
  simp only [Outcome.ret.injEq, Prod.mk.injEq] at hrest
  obtain ⟨rfl, rfl, hb1⟩ := hrest
  have hrun : Run (Guarded (KheapStep true ⟨0⟩) (SizesFit true))
      (HeapState.empty (fun _ => 0) emptyMachine) [.kmalloc 72 (kheapStart + 44)]
      ⟨h1, Function.update h0.live (kheapStart + 44) (some 72)⟩ := by
    rw [← hh0]
    have hstep := KheapStep.kmalloc (show 72 < word by decide) hm1
    rw [if_neg (kheapStart_pos 44)] at hstep
    refine .cons ⟨hstep, .inl ⟨by decide, .inr ?_⟩⟩ .nil
    rw [hh0]
    decide
  have hfits : h1.SizeFits true 100 := .inl ⟨by decide, .inr (by rw [hb1]; decide)⟩
  obtain ⟨hsafe, -⟩ := kmalloc_size_safe hrun (show 100 < word by decide) 1 2
  refine ⟨_, h2, ?_, hm2, (hsafe _ _ hm2).mpr hfits⟩
  simp only
  rw [Function.update_self]

/-- The release build asks `kbrk` for 24 bytes and returns a block of 24 bytes, most of
which is its header. -/
theorem kmalloc_size_wraps : ∃ h : Heap,
    (HeapState.empty (fun _ => 0) emptyMachine).heap.kmalloc false ⟨0⟩ (word - 8) 1 1 =
      .ret (kheapStart + 32, h) ∧
    h.size false kheapStart = 24 ∧
    ¬ SafeResult false ⟨0⟩ (HeapState.empty (fun _ => 0) emptyMachine).heap (word - 8)
      (kheapStart + 32) h := by
  obtain ⟨h0, hh0⟩ : ∃ h0, h0 = (HeapState.empty (fun _ => 0) emptyMachine).heap := ⟨_, rfl⟩
  have hcompute : (do
      let placed ← h0.kmalloc false ⟨0⟩ (word - 8) 1 1
      .ret (placed.1, placed.2.size false kheapStart)) = Outcome.ret (kheapStart + 32, 24) := by
    rw [hh0]
    decide +kernel
  rw [← hh0]
  obtain ⟨⟨p, h1⟩, hm1, hrest⟩ := Outcome.bind_eq_ret.mp hcompute
  simp only [Outcome.ret.injEq, Prod.mk.injEq] at hrest
  obtain ⟨rfl, hsize⟩ := hrest
  refine ⟨h1, hm1, hsize, ?_⟩
  rintro (⟨hzero, -⟩ | ⟨a, -, -, hfit, -⟩)
  · exact kheapStart_pos 32 hzero
  · have hlt : h1.size false a < word := load_lt _ _ _
    have hge : 32 + (word - 8) ≤ h1.size false a := hfit
    omega

end UlmerOS
