import UlmerOS.Mm.HeapRep

/-!
# The steps of the heap functions

`_kmalloc` and `kfree` are made of a few steps that each take a heap that stands for
a list of blocks to one that stands for another list: a block is marked, cut in two,
added at the break, merged with its neighbour, or given back at the break.

Each step says which list it leads to, and that it writes to the headers of the two
lists and to no payload that is in use before and after (`Moves`).  A step of `kfree`
also leaves what was freed known as such (`KeepsFreed`): it writes to the old headers,
and to what it gives back (`Rep.settle`).
-/

namespace UlmerOS

open ByteMem Tiling

variable {debug : Bool} {kernel : Vspace} {h h' : Heap} {bs bs' xs ys : List Block} {b : Block}

/-- The first page that does not begin below an address. -/
def firstPage (n : Nat) : Nat := if n % pageSize ≠ 0 then n / pageSize + 1 else n / pageSize

theorem firstPage_bounds (n : Nat) :
    n ≤ pageSize * firstPage n ∧ pageSize * firstPage n < n + pageSize := by
  rw [firstPage, pageSize]
  split <;> omega

/-- The heap stands for `bs'` now, and payloads in use were not written to. -/
structure Moves (debug : Bool) (h : Heap) (bs : List Block) (h' : Heap) (bs' : List Block) :
    Prop where
  rep : Rep debug h' bs'
  keeps : ∀ x, InPayload debug bs x → InPayload debug bs' x → h'.mem x = h.mem x

/-- A step that writes to headers. -/
theorem Moves.of_headers (hr : Rep debug h bs) (hr' : Rep debug h' bs')
    (hmem : ∀ x, ¬ InHeader debug bs x → ¬ InHeader debug bs' x → h'.mem x = h.mem x) :
    Moves debug h bs h' bs' :=
  ⟨hr', fun x hx hx' => hmem x (hr.payload_not_header hx) (hr'.payload_not_header hx')⟩

/-- What was freed is still known to be. -/
def KeepsFreed (debug : Bool) (h : Heap) (bs : List Block) (h' : Heap) (bs' : List Block) : Prop :=
  ∀ a, Freed debug h bs a → Freed debug h' bs' a

theorem firstPage_mono {m n : Nat} (h : m ≤ n) : firstPage m ≤ firstPage n := by
  have hm := firstPage_bounds m
  have hn := firstPage_bounds n
  simp only [pageSize] at *
  omega

/-- A step of `kfree` writes to headers and clears pages behind the new break. -/
structure Trims (debug : Bool) (h : Heap) (bs : List Block) (h' : Heap) (bs' : List Block) :
    Prop where
  brk_le : h'.brk ≤ h.brk
  header : ∀ x, InHeader debug bs' x → InHeader debug bs x
  keeps : ∀ x, x < pageSize * firstPage h'.brk → ¬ InHeader debug bs x → h'.mem x = h.mem x
  clears : ∀ x, ¬ InHeader debug bs x → h'.mem x = h.mem x ∨ h'.mem x = 0
  dvd : ∀ n, (∀ b ∈ bs, n ∣ b.size) → ∀ b ∈ bs', n ∣ b.size

theorem Trims.refl (h : Heap) (bs : List Block) : Trims debug h bs h bs :=
  ⟨Nat.le_refl _, fun _ hx => hx, fun _ _ _ => rfl, fun _ _ => .inl rfl, fun _ hn => hn⟩

theorem Trims.trans {h'' : Heap} {bs'' : List Block} (h1 : Trims debug h bs h' bs')
    (h2 : Trims debug h' bs' h'' bs'') : Trims debug h bs h'' bs'' := by
  refine ⟨h2.brk_le.trans h1.brk_le, fun x hx => h1.header x (h2.header x hx), fun x hx hno => ?_,
    fun x hno => ?_, fun n hn => h2.dvd n (h1.dvd n hn)⟩
  · have hpage := Nat.mul_le_mul_left pageSize (firstPage_mono h2.brk_le)
    rw [h2.keeps x hx fun hin => hno (h1.header x hin), h1.keeps x (by omega) hno]
  · rcases h2.clears x fun hin => hno (h1.header x hin) with h | h
    · rw [h]
      exact h1.clears x hno
    · exact .inr h

/-- A step that writes to the old headers, and to what is behind the new break. -/
theorem Rep.settle (hr : Rep debug h bs) (hr' : Rep debug h' bs') (hbrk : h'.brk ≤ h.brk)
    (hmem : ∀ x, x < h'.brk → ¬ InHeader debug bs x → h'.mem x = h.mem x)
    (hblocks : Absorbs debug bs h' bs') :
    Moves debug h bs h' bs' ∧ KeepsFreed debug h bs h' bs' := by
  refine ⟨⟨hr', fun x hx hx' => ?_⟩, fun a hf => hf.step hr hr' hbrk hmem hblocks⟩
  obtain ⟨a, b, hl, -, hlt⟩ := hx'
  have hend := hr'.le_brk hl.1
  exact hmem x (by omega) (hr.payload_not_header hx)

/-- A byte outside the headers is not in the header of a block. -/
theorem not_inHeader_split (xs : List Block) (b : Block) (ys : List Block) {x : Nat}
    (hx : ¬ InHeader debug (xs ++ b :: ys) x) :
    x < kheapStart + total Block.size xs ∨
      kheapStart + total Block.size xs + headerSize debug ≤ x := by
  by_contra hc
  exact hx ⟨_, b, at_block xs b ys, by omega, by omega⟩

theorem kheapStart_pos (n : Nat) : kheapStart + n ≠ 0 := by
  have : 0 < kheapStart := by decide
  omega

/-! ## Moving the break -/

/-- What `kbrk` may change: the break, and bytes above the old or the new one. -/
structure Broken (h : Heap) (brk : Nat) (h' : Heap) : Prop where
  brk_eq : h'.brk = brk
  start_eq : h'.start = h.start
  last_eq : h'.last = h.last
  mem_eq : ∀ x, x < h.brk → x < brk → h'.mem x = h.mem x

theorem mapPages_ret {page n : Nat} (hret : Heap.mapPages kernel page n h = .ret h') :
    h'.brk = h.brk ∧ h'.start = h.start ∧ h'.last = h.last ∧
      ∀ x, x < pageSize * page → h'.mem x = h.mem x := by
  induction n generalizing page h with
  | zero =>
      cases hret
      exact ⟨rfl, rfl, rfl, fun _ _ => rfl⟩
  | succ n ih =>
      obtain ⟨⟨ppn, phys⟩, -, hret⟩ := Outcome.bind_eq_ret.mp hret
      obtain ⟨phys', -, hret⟩ := Outcome.bind_eq_ret.mp hret
      obtain ⟨h1, h2, h3, h4⟩ := ih hret
      refine ⟨h1, h2, h3, fun x hx => ?_⟩
      rw [h4 x (by rw [pageSize] at *; omega)]
      split
      · exact fill_of_not_mem (.inl hx)
      · rfl

theorem unmapPages_eq (kernel : Vspace) (page n : Nat) (h : Heap) :
    (Heap.unmapPages kernel page n h).brk = h.brk ∧
      (Heap.unmapPages kernel page n h).start = h.start ∧
      (Heap.unmapPages kernel page n h).last = h.last ∧
      ∀ x, x < pageSize * page → (Heap.unmapPages kernel page n h).mem x = h.mem x := by
  induction n generalizing page h with
  | zero => exact ⟨rfl, rfl, rfl, fun _ _ => rfl⟩
  | succ n ih =>
      rw [Heap.unmapPages]
      obtain ⟨h1, h2, h3, h4⟩ := ih (page + 1) { h with
        phys := (vspaceUnmap h.phys kernel page).2
        mem := if (vspaceUnmap h.phys kernel page).1 then fill h.mem (pageSize * page) pageSize 0
          else h.mem }
      refine ⟨h1, h2, h3, fun x hx => ?_⟩
      refine (h4 x (by rw [pageSize] at *; omega)).trans ?_
      simp only
      split
      · exact fill_of_not_mem (.inl hx)
      · rfl

theorem unmapPages_clears (kernel : Vspace) (page n : Nat) (h : Heap) (x : Nat) :
    (Heap.unmapPages kernel page n h).mem x = h.mem x ∨
      (Heap.unmapPages kernel page n h).mem x = 0 := by
  induction n generalizing page h with
  | zero => exact .inl rfl
  | succ n ih =>
      rw [Heap.unmapPages]
      rcases ih (page + 1) { h with
        phys := (vspaceUnmap h.phys kernel page).2
        mem := if (vspaceUnmap h.phys kernel page).1 then fill h.mem (pageSize * page) pageSize 0
          else h.mem } with h1 | h1
      · rw [h1]
        simp only
        split
        · rw [fill]
          split
          · exact .inr rfl
          · exact .inl rfl
        · exact .inl rfl
      · exact .inr h1

theorem kbrk_ret {increment o : Nat} (hret : h.kbrk kernel increment = .ret (o, h')) :
    o = h.brk ∧ Broken h (wrap64 (h.brk + increment)) h' := by
  simp only [Heap.kbrk] at hret
  split at hret
  · cases hret
    obtain ⟨h1, h2, h3, h4⟩ := unmapPages_eq kernel
      (if wrap64 (h.brk + increment) % pageSize ≠ 0 then wrap64 (h.brk + increment) / pageSize + 1
        else wrap64 (h.brk + increment) / pageSize) _
      { h with brk := wrap64 (h.brk + increment) }
    refine ⟨rfl, h1, h2, h3, fun x _ hx => h4 x ?_⟩
    exact Nat.lt_of_lt_of_le hx (firstPage_bounds _).1
  · obtain ⟨h1, hmap, hret⟩ := Outcome.bind_eq_ret.mp hret
    cases hret
    obtain ⟨h2, h3, h4, h5⟩ := mapPages_ret hmap
    refine ⟨rfl, h2, h3, h4, fun x hx _ => h5 x ?_⟩
    exact Nat.lt_of_lt_of_le hx (firstPage_bounds _).1

/-- Lowering the break needs no frame. -/
theorem kbrk_shrink (kernel : Vspace) {increment : Nat} (hlt : wrap64 (h.brk + increment) < h.brk) :
    ∃ h', h.kbrk kernel increment = .ret (h.brk, h') := by
  simp only [Heap.kbrk]
  rw [if_pos hlt]
  exact ⟨_, rfl⟩

/-- `kbrk` on the way down. -/
theorem kbrk_down {h h' : Heap} {increment o : Nat} (hret : h.kbrk kernel increment = .ret (o, h'))
    (hlt : h'.brk < h.brk) :
    h' = Heap.unmapPages kernel (firstPage h'.brk) (h.brk / pageSize + 1 - firstPage h'.brk)
      { h with brk := h'.brk } := by
  have hbrk := (kbrk_ret hret).2.brk_eq
  rw [hbrk] at hlt ⊢
  simp only [Heap.kbrk] at hret
  rw [if_pos hlt] at hret
  cases hret
  rfl

/-- `kbrk` on the way up. -/
theorem kbrk_up {h h' : Heap} {increment o : Nat} (hret : h.kbrk kernel increment = .ret (o, h'))
    (hge : h.brk ≤ h'.brk) :
    h'.brk < word ∧
      Heap.mapPages kernel (firstPage h.brk) (h'.brk / pageSize + 1 - firstPage h.brk)
        { h with brk := h'.brk } = .ret h' := by
  have hbrk := (kbrk_ret hret).2.brk_eq
  rw [hbrk] at hge ⊢
  simp only [Heap.kbrk] at hret
  rw [if_neg (Nat.not_lt.mpr hge)] at hret
  obtain ⟨h1, hmap, hret⟩ := Outcome.bind_eq_ret.mp hret
  cases hret
  exact ⟨wrap64_lt _, hmap⟩

/-! ## Marking a block -/

/-- A header is written over by that of a block of the same size. -/
theorem Rep.replace (hr : Rep debug h (xs ++ b :: ys)) {c : Block}
    (hstart : h'.start = h.start) (hlast : h'.last = h.last) (hbrk : h'.brk = h.brk)
    (hsize : c.size = b.size)
    (hheader : ∀ p n, Header debug h.mem (kheapStart + total Block.size xs) b p n →
      Header debug h'.mem (kheapStart + total Block.size xs) c p n)
    (hmem : ∀ x, x < kheapStart + total Block.size xs ∨
      kheapStart + total Block.size xs + headerSize debug ≤ x → h'.mem x = h.mem x) :
    Moves debug h (xs ++ b :: ys) h' (xs ++ c :: ys) := by
  obtain ⟨hxs, hb, hys⟩ := chain_append.mp hr.chain
  have hge := hb.size_ge
  have htotal : total Block.size (xs ++ c :: ys) = total Block.size (xs ++ b :: ys) := by
    simp [hsize]
  have hrep : Rep debug h' (xs ++ c :: ys) := by
    refine ⟨?_, ?_, ?_, ?_, chain_append.mpr ⟨?_, ?_, ?_⟩⟩
    · rw [hstart, hr.start_eq, headAddr_append, headAddr_append]
      rfl
    · rw [hlast, hr.last_eq, lastAddr_append, lastAddr_append, lastAddr, lastAddr, hsize]
    · rw [hbrk, hr.brk_eq, htotal]
    · rw [hbrk]
      exact hr.brk_lt
    · exact hxs.congr fun x _ hx => hmem x (.inl hx)
    · rw [hsize]
      exact hheader _ _ hb
    · rw [hsize]
      exact hys.congr fun x hx _ => hmem x (.inr (by omega))
  exact .of_headers hr hrep fun x hx _ => hmem x (not_inHeader_split xs b ys hx)

theorem Rep.setAvailable (hr : Rep debug h (xs ++ b :: ys)) (live : Option Nat) {v : Nat}
    (hv : v = Block.available ⟨b.size, live⟩) :
    Moves debug h (xs ++ b :: ys) (h.setAvailable (kheapStart + total Block.size xs) v)
      (xs ++ ⟨b.size, live⟩ :: ys) := by
  subst hv
  have hsize := headerSize_bounds debug
  refine hr.replace rfl rfl rfl rfl (fun p n hd => hd.setAvailable live) fun x hx => ?_
  exact store_of_not_mem (by omega)

/-- The blocks of a heap in which a block was marked. -/
theorem absorbs_mark : Absorbs debug (xs ++ b :: ys) h' (xs ++ ⟨b.size, none⟩ :: ys) := by
  intro a d hd hfree
  rcases at_append.mp hd with hxs | hrest
  · exact .inl ⟨a, d, at_append.mpr (.inl hxs), hfree, Nat.le_refl _, .inl rfl⟩
  rcases at_cons.mp hrest with ⟨rfl, rfl⟩ | hys
  · exact .inl ⟨_, _, at_block xs ⟨d.size, none⟩ ys, rfl, Nat.le_refl _, .inl rfl⟩
  · have hmem : At Block.size kheapStart (xs ++ ⟨b.size, none⟩ :: ys) a d :=
      at_append.mpr (.inr (at_cons.mpr (.inr hys)))
    exact .inl ⟨a, d, hmem, hfree, Nat.le_refl _, .inl rfl⟩

/-- A block that is marked available is freed, and what was freed before still is. -/
theorem Rep.freed_mark (hr : Rep debug h (xs ++ b :: ys))
    (hr' : Rep debug (h.setAvailable (kheapStart + total Block.size xs) 1)
      (xs ++ ⟨b.size, none⟩ :: ys)) :
    Freed debug (h.setAvailable (kheapStart + total Block.size xs) 1) (xs ++ ⟨b.size, none⟩ :: ys)
        (kheapStart + total Block.size xs) ∧
      KeepsFreed debug h (xs ++ b :: ys) (h.setAvailable (kheapStart + total Block.size xs) 1)
        (xs ++ ⟨b.size, none⟩ :: ys) := by
  have hsize := headerSize_bounds debug
  have hframe : ∀ x, ¬ InHeader debug (xs ++ b :: ys) x →
      (h.setAvailable (kheapStart + total Block.size xs) 1).mem x = h.mem x := by
    intro x hx
    have := not_inHeader_split xs b ys hx
    exact store_of_not_mem (by omega)
  have hsettle := hr.settle hr' (Nat.le_refl _) (fun x _ hx => hframe x hx) absorbs_mark
  exact ⟨.available (at_block xs ⟨b.size, none⟩ ys) rfl, hsettle.2⟩

theorem setOrigin_mem {a function line x : Nat} (hx : x < a ∨ a + headerSize debug ≤ x) :
    (h.setOrigin debug a function line).mem x = h.mem x := by
  cases debug with
  | false => rfl
  | true =>
      have hsize : headerSize true = 44 := rfl
      rw [hsize] at hx
      refine (store_of_not_mem (by omega)).trans (store_of_not_mem (by omega))

theorem setOrigin_eq (debug : Bool) (h : Heap) (a function line : Nat) :
    (h.setOrigin debug a function line).start = h.start ∧
      (h.setOrigin debug a function line).last = h.last ∧
      (h.setOrigin debug a function line).brk = h.brk := by
  cases debug <;> exact ⟨rfl, rfl, rfl⟩

theorem Rep.setOrigin (hr : Rep debug h (xs ++ b :: ys)) (function line : Nat) :
    Moves debug h (xs ++ b :: ys)
      (h.setOrigin debug (kheapStart + total Block.size xs) function line) (xs ++ b :: ys) := by
  obtain ⟨h1, h2, h3⟩ := setOrigin_eq debug h (kheapStart + total Block.size xs)
    function line
  exact hr.replace h1 h2 h3 rfl (fun p n hd => hd.setOrigin function line)
    fun x hx => setOrigin_mem hx

/-! ## Linking back -/

/-- What `crop` and `merge_blocks` do last: the block `n` behind them gets the
predecessor `l`, or `l` is the last block if there is none. -/
def relinked (h : Heap) (mem : Mem) (n l : Nat) : Heap :=
  if n ≠ 0 then { h with mem := store mem (n + 8) 8 l } else { h with mem := mem, last := l }

theorem headAddr_lt {a : Nat} (ha : a < word) : headAddr a 0 ys < word := by
  cases ys with
  | nil => exact Nat.lt_of_le_of_lt (Nat.zero_le a) ha
  | cons _ _ => exact ha

/-- The blocks `xs` were written anew in front of the blocks `ys` of a heap. -/
theorem rep_relinked {mem : Mem} {p n l : Nat} (hne : xs ≠ []) (hstart : h.start = kheapStart)
    (hlast : ys ≠ [] → h.last = lastAddr Block.size (kheapStart + total Block.size xs) 0 ys)
    (hbrk : h.brk = kheapStart + total Block.size (xs ++ ys)) (hlt : h.brk < word)
    (hn : n = headAddr (kheapStart + total Block.size xs) 0 ys)
    (hl : l = lastAddr Block.size kheapStart 0 xs)
    (hxs : Chain debug mem 0 kheapStart xs n)
    (hys : Chain debug mem p (kheapStart + total Block.size xs) ys 0) :
    Rep debug (relinked h mem n l) (xs ++ ys) := by
  have hpos := kheapStart_pos (total Block.size xs)
  obtain ⟨zs, z, rfl⟩ : ∃ zs z, xs = zs ++ [z] :=
    ⟨xs.dropLast, xs.getLast hne, (List.dropLast_append_getLast hne).symm⟩
  rw [lastAddr_concat] at hl
  have hllt : l < word := by
    rw [hbrk, total_append, total_append] at hlt
    omega
  have hmem : (relinked h mem n l).mem = if n ≠ 0 then store mem (n + 8) 8 l else mem := by
    rw [relinked]
    split <;> rfl
  have hys' : Chain debug (relinked h mem n l).mem l
      (kheapStart + total Block.size (zs ++ [z])) ys 0 := by
    rw [hmem]
    exact hys.relink hllt hn hpos
  have hxs' : Chain debug (relinked h mem n l).mem 0 kheapStart (zs ++ [z]) n := by
    refine hxs.congr fun x _ hx => ?_
    rw [hmem]
    split
    · rename_i hn0
      cases ys with
      | nil => exact absurd hn hn0
      | cons _ _ =>
          rw [headAddr_cons] at hn
          exact store_of_not_mem (by omega)
    · rfl
  have hsame : (relinked h mem n l).start = h.start ∧ (relinked h mem n l).brk = h.brk := by
    rw [relinked]
    split <;> exact ⟨rfl, rfl⟩
  refine ⟨?_, ?_, by rw [hsame.2, hbrk], by rw [hsame.2]; exact hlt, chain_append.mpr ⟨?_, ?_⟩⟩
  · rw [hsame.1, hstart]
    cases zs <;> rfl
  · rw [lastAddr_append, lastAddr_concat, ← hl, relinked]
    cases ys with
    | nil =>
        rw [if_neg (fun h0 => h0 hn)]
        rfl
    | cons y ys =>
        rw [headAddr_cons] at hn
        rw [if_pos (by rw [hn]; exact hpos)]
        exact hlast (by simp)
  · rw [← hn]
    exact hxs'
  · rw [lastAddr_concat, ← hl]
    exact hys'

/-- The first blocks of a heap were replaced by others of the same total size. -/
theorem Rep.relink {us fs : List Block} {mem : Mem} {n l : Nat} (hr : Rep debug h (us ++ ys))
    (hus : us ≠ []) (hfs : fs ≠ []) (htotal : total Block.size fs = total Block.size us)
    (hn : n = headAddr (kheapStart + total Block.size fs) 0 ys)
    (hl : l = lastAddr Block.size kheapStart 0 fs)
    (hchain : Chain debug mem 0 kheapStart fs n)
    (hmem : ∀ x, kheapStart + total Block.size us ≤ x → mem x = h.mem x) :
    Rep debug (relinked h mem n l) (fs ++ ys) := by
  obtain ⟨-, hys⟩ := chain_append.mp hr.chain
  refine rep_relinked (p := lastAddr Block.size kheapStart 0 us) hfs ?_ ?_ ?_ hr.brk_lt hn hl
    hchain ?_
  · rw [hr.start_eq]
    cases us with
    | nil => exact absurd rfl hus
    | cons _ _ => rfl
  · intro hne
    rw [hr.last_eq, lastAddr_append, htotal]
    exact lastAddr_of_ne_nil hne
  · rw [hr.brk_eq, total_append, total_append, htotal]
  · rw [htotal]
    exact hys.congr fun x hx _ => hmem x hx

/-- Linking back writes to the header behind. -/
theorem relinked_mem {mem : Mem} {n l x : Nat}
    (hn : n = headAddr (kheapStart + total Block.size xs) 0 ys)
    (hx : ¬ InHeader debug (xs ++ ys) x) : (relinked h mem n l).mem x = mem x := by
  have hsize := headerSize_bounds debug
  rw [relinked]
  split
  · rename_i hn0
    cases ys with
    | nil => exact absurd hn hn0
    | cons y ys =>
        rw [headAddr_cons] at hn
        have := not_inHeader_split xs y ys hx
        exact store_of_not_mem (by omega)
  · rfl

/-! ## Cutting a block -/

/-- The five fields of a new header. -/
theorem Header.write (mem : Mem) {a p n : Nat} {c : Block} (hp : p < word) (hn : n < word)
    (hge : headerSize debug ≤ c.size) (hc : c.size < word) :
    Header debug
      (store (store (store (store (store mem a 4 c.available) (a + 4) 4 heapMagic) (a + 8) 8 p)
        (a + 16) 8 n) (a + (headerSize debug - 8)) 8 c.size) a c p n := by
  have hsize := headerSize_bounds debug
  have havail : c.available < 256 ^ 4 := by
    rw [Block.available]
    split <;> decide
  refine ⟨?_, ?_, ?_, ?_, load_store hc, hge⟩
  · rw [load_store_of_disjoint (by omega), load_store_of_disjoint (by omega),
      load_store_of_disjoint (by omega), load_store_of_disjoint (by omega), load_store havail]
  · rw [load_store_of_disjoint (by omega), load_store_of_disjoint (by omega),
      load_store_of_disjoint (by omega), load_store (by decide)]
  · rw [load_store_of_disjoint (by omega), load_store_of_disjoint (by omega), load_store hp]
  · rw [load_store_of_disjoint (by omega), load_store hn]

/-- A difference of two sizes, as `size_t` computes it. -/
theorem wrap64_sub {n k : Nat} (hle : k ≤ n) (hn : n < word) : wrap64 (n + (word - k)) = n - k := by
  rw [wrap64, show n + (word - k) = n - k + word by omega, Nat.add_mod_right,
    Nat.mod_eq_of_lt (by omega)]

/-- `crop` leaves a block alone if what is left over would not hold more than a header. -/
theorem crop_small {a newSize : Nat} (hsmall : h.size debug a - newSize ≤ headerSize debug)
    (hle : newSize ≤ h.size debug a) (hlt : h.size debug a < word) :
    h.crop debug a newSize = h := by
  rw [Heap.crop, wrap64_sub hle hlt, if_pos hsmall]

/-- The new header is behind the old one, so that what `crop` reads again is what it wrote. -/
theorem crop_eq {a newSize n nb excess : Nat} (hge : headerSize debug ≤ newSize)
    (hnb : wrap64 (a + newSize) = nb) (hlt : nb = a + newSize) (hn : h.next a = n) (hnlt : n < word)
    (hexcess : wrap64 (h.size debug a + (word - newSize)) = excess)
    (hlarge : ¬ excess ≤ headerSize debug) :
    ∃ h1 : Heap, h1 = ((((((h.setSize debug a newSize).setNext a nb).setAvailable nb 1).setMagic nb
        heapMagic).setPrev nb a).setNext nb n).setSize debug nb excess ∧
      h.crop debug a newSize = if n ≠ 0 then h1.setPrev n nb else { h1 with last := nb } := by
  have hsize := headerSize_bounds debug
  have hword : nb < word := by
    rw [← hnb]
    exact wrap64_lt _
  obtain ⟨g, hg⟩ : ∃ g, g = (h.setSize debug a newSize).setNext a nb := ⟨_, rfl⟩
  have h1 : g.next a = nb := by
    rw [hg]
    exact load_store hword
  have h2 : (g.setAvailable nb 1).next a = nb :=
    (load_store_of_disjoint (by omega)).trans h1
  have h3 : ((g.setAvailable nb 1).setMagic nb heapMagic).next a = nb :=
    (load_store_of_disjoint (by omega)).trans h2
  have h4 : (((g.setAvailable nb 1).setMagic nb heapMagic).setPrev nb a).next a = nb :=
    (load_store_of_disjoint (by omega)).trans h3
  obtain ⟨k, hk⟩ : ∃ k, k =
    ((((g.setAvailable nb 1).setMagic nb heapMagic).setPrev nb a).setNext nb n) := ⟨_, rfl⟩
  have h5 : k.next a = nb := by
    rw [hk]
    exact (load_store_of_disjoint (by omega)).trans h4
  have h6 : (k.setSize debug nb excess).next a = nb :=
    (load_store_of_disjoint (by omega)).trans h5
  have h7 : (k.setSize debug nb excess).next nb = n := by
    refine (load_store_of_disjoint (by omega)).trans ?_
    rw [hk]
    exact load_store hnlt
  refine ⟨k.setSize debug nb excess, by rw [hk, hg], ?_⟩
  rw [Heap.crop, hexcess, if_neg hlarge]
  simp only [hn, hnb, ← hg, h1, h2, h3, h4, ← hk, h5, h6, h7]

/-- The memory after the two headers of a block that is cut are written. -/
theorem crop_headers {a p n newSize : Nat} {mem : Mem} (hb : Header debug mem a b p n)
    (hge : headerSize debug ≤ newSize) (hlt : newSize + headerSize debug < b.size)
    (ha : a + b.size < word) (hn : n < word) :
    ∃ mem', mem' =
        store (store (store (store (store (store (store mem (a + (headerSize debug - 8)) 8 newSize)
          (a + 16) 8 (a + newSize)) (a + newSize) 4 1) (a + newSize + 4) 4 heapMagic)
          (a + newSize + 8) 8 a) (a + newSize + 16) 8 n)
          (a + newSize + (headerSize debug - 8)) 8 (b.size - newSize) ∧
      Header debug mem' a ⟨newSize, b.live⟩ p (a + newSize) ∧
      Header debug mem' (a + newSize) ⟨b.size - newSize, none⟩ a n ∧
      ∀ x, x < a ∨ a + headerSize debug ≤ x →
        x < a + newSize ∨ a + newSize + headerSize debug ≤ x → mem' x = mem x := by
  have hsize := headerSize_bounds debug
  refine ⟨_, rfl, ?_, ?_, ?_⟩
  · have hd := (hb.setSize hge (by omega)).setNext (v := a + newSize) (by omega)
    refine hd.congr fun x h1 h2 => ?_
    rw [store_of_not_mem (by omega), store_of_not_mem (by omega), store_of_not_mem (by omega),
      store_of_not_mem (by omega), store_of_not_mem (by omega)]
  · exact Header.write _ (c := ⟨b.size - newSize, none⟩) (by omega) hn (by simp only; omega)
      (by simp only; omega)
  · intro x h1 h2
    rw [store_of_not_mem (by omega), store_of_not_mem (by omega), store_of_not_mem (by omega),
      store_of_not_mem (by omega), store_of_not_mem (by omega), store_of_not_mem (by omega),
      store_of_not_mem (by omega)]

/-- `crop` cuts a block in two, and the second half is available. -/
theorem Rep.crop (hr : Rep debug h (xs ++ b :: ys)) (newSize : Nat)
    (hge : headerSize debug ≤ newSize) (hlt : newSize + headerSize debug < b.size) :
    Moves debug h (xs ++ b :: ys) (h.crop debug (kheapStart + total Block.size xs) newSize)
      (xs ++ ⟨newSize, b.live⟩ :: ⟨b.size - newSize, none⟩ :: ys) := by
  obtain ⟨hxs, hb, hys⟩ := chain_append.mp hr.chain
  have haddr := hr.addr_lt (at_block xs b ys)
  have hpos := kheapStart_pos (total Block.size xs)
  obtain ⟨a, ha⟩ : ∃ a, a = kheapStart + total Block.size xs := ⟨_, rfl⟩
  obtain ⟨n, hn⟩ : ∃ n, n = headAddr (a + b.size) 0 ys := ⟨_, rfl⟩
  rw [← ha] at hb hys haddr hpos ⊢
  rw [← hn] at hb
  have hnlt : n < word := by rw [hn]; exact headAddr_lt haddr
  obtain ⟨mem', hmem', hd1, hd2, hkeep⟩ := crop_headers hb hge hlt haddr hnlt
  have hcrop : h.crop debug a newSize = relinked h mem' n (a + newSize) := by
    have hsz : h.size debug a = b.size := hb.size_eq
    have hexcess : wrap64 (h.size debug a + (word - newSize)) = b.size - newSize := by
      rw [hsz, wrap64_sub (by omega) (by omega)]
    obtain ⟨h1, hh1, heq⟩ := crop_eq hge (wrap64_of_lt (by omega)) rfl hb.next_eq hnlt hexcess
      (by omega)
    rw [heq, hh1, hmem']
    rfl
  -- the blocks in front of `ys`, in the memory with the two new headers
  obtain ⟨fs, hfs⟩ : ∃ fs, fs = xs ++ [⟨newSize, b.live⟩, ⟨b.size - newSize, none⟩] := ⟨_, rfl⟩
  have htotal : kheapStart + total Block.size fs = a + b.size := by
    rw [hfs, ha]
    simp
    omega
  have hchain : Chain debug mem' 0 kheapStart fs n := by
    rw [hfs]
    refine chain_append.mpr ⟨?_, ?_, ?_, trivial⟩
    · exact hxs.congr fun x _ hx => hkeep x (by omega) (by omega)
    · rw [← ha]
      exact hd1
    · rw [← ha, headAddr_nil]
      exact hd2
  have hsplit : xs ++ ⟨newSize, b.live⟩ :: ⟨b.size - newSize, none⟩ :: ys = fs ++ ys := by
    rw [hfs]
    simp
  rw [hsplit, hcrop]
  have hold : kheapStart + total Block.size (xs ++ [b]) = a + b.size := by
    rw [total_append, total_cons, total_nil]
    omega
  have hrep : Rep debug (relinked h mem' n (a + newSize)) (fs ++ ys) := by
    rw [List.append_cons] at hr
    refine hr.relink (by simp) (by rw [hfs]; simp) (by omega) (by rw [htotal, hn]) ?_ hchain ?_
    · rw [hfs, lastAddr_append, ← ha]
      rfl
    · rw [hold]
      exact fun x hx => hkeep x (by omega) (by omega)
  refine .of_headers hr hrep fun x hx hx' => ?_
  rw [relinked_mem (by rw [htotal, hn]) hx']
  have hsecond : ¬ InHeader debug
      ((xs ++ [⟨newSize, b.live⟩]) ++ ⟨b.size - newSize, none⟩ :: ys) x := by
    rw [hfs] at hx'
    simpa using hx'
  have h2 := not_inHeader_split _ _ _ hsecond
  simp only [total_append, total_cons, total_nil] at h2
  exact hkeep x (by rw [ha]; exact not_inHeader_split xs b ys hx) (by omega)

/-! ## Adding a block at the break -/

/-- The header that `_kmalloc` writes at the break, before it is linked. -/
theorem appendBlock_header (blk function line req : Nat) {requiredSize : Nat}
    (hlast : h.last < word) (hge : headerSize debug ≤ requiredSize) (hlt : requiredSize < word) :
    ∃ h1 : Heap, h1.start = h.start ∧ h1.last = h.last ∧ h1.brk = h.brk ∧
      Header debug h1.mem blk ⟨requiredSize, some req⟩ h.last 0 ∧
      (∀ x, x < blk ∨ blk + headerSize debug ≤ x → h1.mem x = h.mem x) ∧
      h.appendBlock debug blk requiredSize function line =
        { h1 with
          mem := if h.last ≠ 0 then store h1.mem (h.last + 16) 8 blk else h1.mem
          last := blk
          start := if h.start = 0 then blk else h.start } := by
  have hsize := headerSize_bounds debug
  obtain ⟨h0, hh0⟩ : ∃ h0 : Heap, h0 =
      ((((h.setAvailable blk 0).setMagic blk heapMagic).setNext blk 0).setPrev blk h.last).setSize
        debug blk requiredSize := ⟨_, rfl⟩
  have hmem0 : h0.mem = store (store (store (store (store h.mem blk 4 0) (blk + 4) 4 heapMagic)
      (blk + 8) 8 h.last) (blk + 16) 8 0) (blk + (headerSize debug - 8)) 8 requiredSize := by
    rw [hh0, store_comm (a := blk + 8) (b := blk + 16) (by omega)]
    rfl
  have hd0 : Header debug h0.mem blk ⟨requiredSize, some req⟩ h.last 0 := by
    rw [hmem0]
    exact Header.write h.mem (c := ⟨requiredSize, some req⟩) hlast (by decide) hge hlt
  obtain ⟨hs, hl, hb⟩ := setOrigin_eq debug h0 blk function line
  refine ⟨h0.setOrigin debug blk function line, by rw [hs, hh0]; rfl, by rw [hl, hh0]; rfl,
    by rw [hb, hh0]; rfl, hd0.setOrigin function line, ?_, ?_⟩
  · intro x hx
    rw [setOrigin_mem hx, hmem0, store_of_not_mem (by omega), store_of_not_mem (by omega),
      store_of_not_mem (by omega), store_of_not_mem (by omega), store_of_not_mem (by omega)]
  · have hl0 : (h0.setOrigin debug blk function line).last = h.last := by rw [hl, hh0]; rfl
    have hs0 : (h0.setOrigin debug blk function line).start = h.start := by rw [hs, hh0]; rfl
    rw [Heap.appendBlock, ← hh0]
    simp only [hl0]
    by_cases hz : h.last = 0 <;> by_cases hst : h.start = 0 <;> simp [hz, hst, hs0, Heap.setNext]

/-- A block was added between the old and the new break. -/
theorem Rep.append {h1 : Heap} {requiredSize : Nat} (hr : Rep debug h bs)
    (hbroken : Broken h (h.brk + requiredSize) h1) (hge : headerSize debug ≤ requiredSize)
    (hlt : h.brk + requiredSize < word) (req function line : Nat) :
    Moves debug h bs (h1.appendBlock debug h.brk requiredSize function line)
      (bs ++ [⟨requiredSize, some req⟩]) := by
  have hsize := headerSize_bounds debug
  have hlastlt : h1.last < word := by
    rw [hbroken.last_eq, hr.last_eq]
    rcases List.eq_nil_or_concat' bs with rfl | ⟨zs, z, rfl⟩
    · decide
    · have hbrk := hr.brk_eq
      rw [total_append] at hbrk
      rw [lastAddr_concat]
      omega
  obtain ⟨h2, hs, hl, hb, hd, hkeep, heq⟩ := appendBlock_header h.brk function line req
    hlastlt hge (by omega)
  rw [heq, hbroken.last_eq, hbroken.start_eq]
  rw [hbroken.last_eq] at hl hd
  have hbrk := hr.brk_eq
  have hchain : Chain debug h2.mem 0 kheapStart bs 0 := hr.chain.congr fun x _ hx => by
    rw [hkeep x (.inl (by omega)), hbroken.mem_eq x (by omega) (by omega)]
  rcases List.eq_nil_or_concat' bs with rfl | ⟨zs, z, rfl⟩
  · have hlast : h.last = 0 := hr.last_eq
    have hstart : h.start = 0 := hr.start_eq
    rw [hlast, if_neg (by simp), hstart, if_pos rfl]
    rw [hlast] at hd
    have hbase : h.brk = kheapStart := hbrk
    refine ⟨⟨hbase, hbase, ?_, ?_, ?_, trivial⟩, ?_⟩
    · simp only [hb, hbroken.brk_eq, hbase]
      simp
    · simp only [hb, hbroken.brk_eq]
      exact hlt
    · rw [← hbase]
      exact hd
    · rintro x ⟨a, b, ⟨⟨xs, ys, hnil, -⟩, -⟩, -⟩
      exact absurd hnil (by simp)
  · have hlast : h.last = kheapStart + total Block.size zs := by rw [hr.last_eq, lastAddr_concat]
    have hstart : h.start = kheapStart := by
      rw [hr.start_eq]
      cases zs <;> rfl
    have hz := hr.chain.size_ge z (by simp)
    have hbrk' := hbrk
    rw [total_append, total_cons, total_nil] at hbrk'
    rw [if_pos (by rw [hlast]; exact kheapStart_pos _), hstart,
      if_neg (show kheapStart ≠ 0 by decide)]
    have hrep : Rep debug { h2 with
        mem := store h2.mem (h.last + 16) 8 h.brk, last := h.brk, start := kheapStart }
        (zs ++ [z] ++ [⟨requiredSize, some req⟩]) := by
      refine ⟨?_, ?_, ?_, ?_, chain_append.mpr ⟨?_, ?_, trivial⟩⟩
      · cases zs <;> rfl
      · rw [lastAddr_concat, ← hbrk]
      · simp only [hb, hbroken.brk_eq, hbrk]
        simp
        omega
      · simp only [hb, hbroken.brk_eq]
        exact hlt
      · rw [headAddr_cons, ← hbrk, hlast]
        exact hchain.setLast (by omega)
      · rw [← hbrk, lastAddr_concat, ← hlast]
        exact hd.congr fun x hx _ => store_of_not_mem (by omega)
    refine ⟨hrep, fun x hx hx' => ?_⟩
    have hnot := not_inHeader_split zs z [] (hr.payload_not_header hx)
    have hbelow : x < h.brk := by
      obtain ⟨c, d, hl', -, h3⟩ := hx
      have := hl'.1.bounds.2
      omega
    calc store h2.mem (h.last + 16) 8 h.brk x = h2.mem x := store_of_not_mem (by omega)
      _ = h1.mem x := hkeep x (.inl hbelow)
      _ = h.mem x := hbroken.mem_eq x hbelow (by omega)

/-! ## Merging two blocks -/

/-- A payload that is in use and a block that is available do not overlap. -/
theorem InPayload.not_in_free {x a : Nat} (hx : InPayload debug bs x)
    (hb : At Block.size kheapStart bs a b) (hfree : b.live = none) : x < a ∨ a + b.size ≤ x := by
  obtain ⟨c, d, ⟨hc, hlive⟩, h1, h2⟩ := hx
  rcases hc.disjoint hb with ⟨rfl, rfl⟩ | hd | hd
  · rw [hfree] at hlive
    cases hlive
  · omega
  · omega

/-- A change inside a block, behind its header. -/
theorem Rep.scribble (hr : Rep debug h (xs ++ b :: ys)) {mem : Mem}
    (hmem : ∀ x, x < kheapStart + total Block.size xs + headerSize debug ∨
      kheapStart + total Block.size xs + b.size ≤ x → mem x = h.mem x) :
    Rep debug { h with mem := mem } (xs ++ b :: ys) := by
  obtain ⟨hxs, hb, hys⟩ := chain_append.mp hr.chain
  refine ⟨hr.start_eq, hr.last_eq, hr.brk_eq, hr.brk_lt, chain_append.mpr ⟨?_, ?_, ?_⟩⟩
  · exact hxs.congr fun x _ hx => hmem x (.inl (by omega))
  · exact hb.congr fun x _ hx => hmem x (.inl hx)
  · exact hys.congr fun x hx _ => hmem x (.inr hx)

/-- The header that `merge_blocks` writes, before it links back and clears the magic
number of the second block. -/
theorem mergeBlocks_eq {c : Block} {a p n : Nat} (hb : Header debug h.mem a b p (a + b.size))
    (hc : Header debug h.mem (a + b.size) c a n) (hbfree : b.live = none)
    (haddr : a + b.size + c.size < word) (hn : n < word) :
    ∃ mem, h.mergeBlocks debug a (a + b.size) =
        .ret ((relinked h mem n a).setMagic (a + b.size) 0) ∧
      Header debug mem a ⟨b.size + c.size, none⟩ p n ∧
      ∀ x, x < a ∨ a + headerSize debug ≤ x → mem x = h.mem x := by
  have hsize := headerSize_bounds debug
  have hbge := hb.size_ge
  obtain ⟨mem1, hmem1⟩ : ∃ m, m = store h.mem (a + (headerSize debug - 8)) 8 (b.size + c.size) :=
    ⟨_, rfl⟩
  obtain ⟨mem2, hmem2⟩ : ∃ m, m = store mem1 (a + 16) 8 n := ⟨_, rfl⟩
  refine ⟨mem2, ?_, ?_, ?_⟩
  · have hm1 : h.magic a = heapMagic := hb.magic
    have hm2 : h.magic (a + b.size) = heapMagic := hc.magic
    have hs1 : h.size debug a = b.size := hb.size_eq
    have hs2 : h.size debug (a + b.size) = c.size := hc.size_eq
    have hn1 : load mem1 (a + b.size + 16) 8 = n := by
      rw [hmem1, load_store_of_disjoint (by omega)]
      exact hc.next_eq
    have hn2 : load mem2 (a + b.size + 16) 8 = n := by
      rw [hmem2, load_store_of_disjoint (by omega)]
      exact hn1
    rw [Heap.mergeBlocks, if_neg (by rw [hm1, hm2]; simp), hs1, hs2, wrap64_of_lt (by omega)]
    simp only [Heap.setSize, Heap.next, Heap.setNext, Heap.setPrev, ← hmem1, hn1, ← hmem2, hn2]
    rfl
  · rw [hmem2, hmem1, ← hbfree]
    exact (hb.setSize (by omega) (by omega)).setNext hn
  · intro x hx
    rw [hmem2, hmem1, store_of_not_mem (by omega), store_of_not_mem (by omega)]

/-- The block that is made of two has the header of the first one. -/
theorem InHeader.of_merge {c : Block} {x : Nat}
    (hx : InHeader debug (xs ++ ⟨b.size + c.size, none⟩ :: ys) x) :
    InHeader debug (xs ++ b :: c :: ys) x := by
  obtain ⟨a, d, hd, h1, h2⟩ := hx
  rcases at_append.mp hd with hxs | hrest
  · exact ⟨a, d, at_append.mpr (.inl hxs), h1, h2⟩
  rcases at_cons.mp hrest with ⟨rfl, rfl⟩ | hys
  · exact ⟨_, b, at_block xs b (c :: ys), h1, h2⟩
  · rw [← Nat.add_assoc] at hys
    exact ⟨a, d, at_append.mpr (.inr (at_cons.mpr (.inr (at_cons.mpr (.inr hys))))), h1, h2⟩

/-- The blocks of a heap in which two neighbours were made one. -/
theorem absorbs_merge {c : Block} (hge : headerSize debug ≤ b.size)
    (hmagic : h'.magic (kheapStart + total Block.size xs + b.size) = 0) :
    Absorbs debug (xs ++ b :: c :: ys) h' (xs ++ ⟨b.size + c.size, none⟩ :: ys) := by
  have hnew := at_block xs ⟨b.size + c.size, none⟩ ys
  intro a d hd hfree
  rcases at_append.mp hd with hxs | hrest
  · exact .inl ⟨a, d, at_append.mpr (.inl hxs), hfree, Nat.le_refl _, .inl rfl⟩
  rcases at_cons.mp hrest with ⟨rfl, rfl⟩ | hrest
  · exact .inl ⟨_, _, hnew, rfl, by simp only; omega, .inl rfl⟩
  rcases at_cons.mp hrest with ⟨rfl, rfl⟩ | hys
  · exact .inl ⟨_, _, hnew, rfl, by simp only; omega, .inr ⟨by omega, hmagic⟩⟩
  · rw [Nat.add_assoc _ b.size] at hys
    have hmem : At Block.size kheapStart (xs ++ ⟨b.size + c.size, none⟩ :: ys) a d :=
      at_append.mpr (.inr (at_cons.mpr (.inr hys)))
    exact .inl ⟨a, d, hmem, hfree, Nat.le_refl _, .inl rfl⟩

/-- `merge_blocks` writes to the headers of the two blocks and of the one behind them. -/
theorem Rep.mergeBlocks_ret {c : Block} (hr : Rep debug h (xs ++ b :: c :: ys))
    (hbfree : b.live = none) :
    ∃ h', h.mergeBlocks debug (kheapStart + total Block.size xs)
        (kheapStart + total Block.size xs + b.size) = .ret h' ∧
      Rep debug h' (xs ++ ⟨b.size + c.size, none⟩ :: ys) ∧
      (∀ x, ¬ InHeader debug (xs ++ b :: c :: ys) x → h'.mem x = h.mem x) ∧
      h'.magic (kheapStart + total Block.size xs + b.size) = 0 := by
  have hsize := headerSize_bounds debug
  obtain ⟨hxs, hb, hc, hys⟩ := chain_append.mp hr.chain
  have haddr := hr.addr_lt (a := kheapStart + total Block.size xs + b.size) (b := c)
    ⟨xs ++ [b], ys, by simp, by simp; omega⟩
  obtain ⟨a, ha⟩ : ∃ a, a = kheapStart + total Block.size xs := ⟨_, rfl⟩
  obtain ⟨n, hn⟩ : ∃ n, n = headAddr (a + b.size + c.size) 0 ys := ⟨_, rfl⟩
  rw [← ha] at hb hc hys haddr ⊢
  rw [← hn] at hc
  have hbge := hb.size_ge
  have hcge := hc.size_ge
  obtain ⟨mem2, hmerge, hd, hkeep⟩ := mergeBlocks_eq hb hc hbfree haddr
    (by rw [hn]; exact headAddr_lt haddr)
  obtain ⟨fs, hfs⟩ : ∃ fs, fs = xs ++ [⟨b.size + c.size, none⟩] := ⟨_, rfl⟩
  have htotal : kheapStart + total Block.size fs = a + b.size + c.size := by
    rw [hfs, ha]
    simp
    omega
  have hsplit : xs ++ ⟨b.size + c.size, none⟩ :: ys = fs ++ ys := by
    rw [hfs]
    simp
  have hchain : Chain debug mem2 0 kheapStart fs n := by
    rw [hfs]
    refine chain_append.mpr ⟨hxs.congr fun x _ hx => hkeep x (.inl (by omega)), ?_, trivial⟩
    rw [← ha]
    exact hd
  have hold : kheapStart + total Block.size (xs ++ [b, c]) = a + b.size + c.size := by
    rw [total_append, total_cons, total_cons, total_nil]
    omega
  have hrel : Rep debug (relinked h mem2 n a) (fs ++ ys) := by
    have hr' : Rep debug h (xs ++ [b, c] ++ ys) := by
      rw [List.append_assoc]
      exact hr
    refine hr'.relink (by simp) (by rw [hfs]; simp) (by omega) (by rw [htotal, hn]) ?_ hchain ?_
    · rw [hfs, lastAddr_concat, ha]
    · rw [hold]
      exact fun x hx => hkeep x (.inr (by omega))
  have hrep : Rep debug ((relinked h mem2 n a).setMagic (a + b.size) 0)
      (xs ++ ⟨b.size + c.size, none⟩ :: ys) := by
    rw [← hsplit] at hrel
    refine hrel.scribble fun x hx => store_of_not_mem ?_
    simp only [← ha] at hx
    omega
  refine ⟨_, hmerge, hrep, fun x hx => ?_, load_store (by decide)⟩
  have hfirst := not_inHeader_split xs b (c :: ys) hx
  have hsecond := not_inHeader_split (xs ++ [b]) c ys (by simpa using hx)
  have hnot : ¬ InHeader debug (fs ++ ys) x := by
    rw [← hsplit]
    exact fun hnew => hx hnew.of_merge
  simp only [total_append, total_cons, total_nil] at hsecond
  calc ((relinked h mem2 n a).setMagic (a + b.size) 0).mem x
      = (relinked h mem2 n a).mem x := store_of_not_mem (by omega)
    _ = mem2 x := relinked_mem (by rw [htotal, hn]) hnot
    _ = h.mem x := hkeep x (by omega)

/-- `merge_blocks` makes one available block of two. -/
theorem Rep.merge {c : Block} (hr : Rep debug h (xs ++ b :: c :: ys)) (hbfree : b.live = none) :
    ∃ h', h.mergeBlocks debug (kheapStart + total Block.size xs)
        (kheapStart + total Block.size xs + b.size) = .ret h' ∧
      Moves debug h (xs ++ b :: c :: ys) h' (xs ++ ⟨b.size + c.size, none⟩ :: ys) ∧
      KeepsFreed debug h (xs ++ b :: c :: ys) h' (xs ++ ⟨b.size + c.size, none⟩ :: ys) ∧
      Trims debug h (xs ++ b :: c :: ys) h' (xs ++ ⟨b.size + c.size, none⟩ :: ys) := by
  obtain ⟨h', hret, hrep, hframe, hmagic⟩ := hr.mergeBlocks_ret hbfree
  have hbge := hr.chain.size_ge b (by simp)
  have hbrk : h'.brk = h.brk := by
    rw [hrep.brk_eq, hr.brk_eq]
    simp [Nat.add_assoc]
  obtain ⟨hmoves, hfreed⟩ :=
    hr.settle hrep hbrk.le (fun x _ hx => hframe x hx) (absorbs_merge hbge hmagic)
  refine ⟨h', hret, hmoves, hfreed, hbrk.le, fun x hx => hx.of_merge, fun x _ hx => hframe x hx,
    fun x hx => .inl (hframe x hx), fun n hn d hd => ?_⟩
  rcases List.mem_append.mp hd with hxs | hrest
  · exact hn d (List.mem_append_left _ hxs)
  rcases List.mem_cons.mp hrest with rfl | hys
  · exact Nat.dvd_add (hn b (by simp)) (hn c (by simp))
  · exact hn d (by simp [hys])

/-! ## Giving the last block back -/

/-- A heap without its last block, up to the break. -/
theorem unlinkLast_eq {a : Nat} {mem : Mem} {p : Nat} (hmem : h.mem = mem) (hlast : h.last = a)
    (hstart : h.start = headAddr kheapStart 0 (xs ++ [b]))
    (ha : a = kheapStart + total Block.size xs)
    (hp : p = lastAddr Block.size kheapStart 0 xs) (hprev : load mem (a + 8) 8 = p)
    (hxs : Chain debug mem 0 kheapStart xs a) :
    h.unlinkLast.start = headAddr kheapStart 0 xs ∧
      h.unlinkLast.last = lastAddr Block.size kheapStart 0 xs ∧ h.unlinkLast.brk = h.brk ∧
      Chain debug h.unlinkLast.mem 0 kheapStart xs 0 ∧
      ∀ x, ¬ InHeader debug xs x → h.unlinkLast.mem x = mem x := by
  have hsize := headerSize_bounds debug
  have hprev' : h.prev h.last = p := by rw [Heap.prev, hmem, hlast]; exact hprev
  rcases List.eq_nil_or_concat' xs with rfl | ⟨zs, z, rfl⟩
  · rw [Heap.unlinkLast, if_neg (by rw [hprev', hp]; simp)]
    exact ⟨rfl, rfl, rfl, trivial, fun x _ => by rw [← hmem]⟩
  · rw [lastAddr_concat] at hp ⊢
    have hpos : p ≠ 0 := by rw [hp]; exact kheapStart_pos _
    have hz := hxs.size_ge z (by simp)
    rw [total_append, total_cons, total_nil] at ha
    have hagain : load (store mem (p + 16) 8 0) (a + 8) 8 = p := by
      rw [load_store_of_disjoint (by omega)]
      exact hprev
    have hunlink : h.unlinkLast = { h with mem := store mem (p + 16) 8 0, last := p } := by
      rw [Heap.unlinkLast, if_pos (by rw [hprev']; exact hpos), hprev']
      simp only [Heap.setNext, Heap.prev, hmem, hlast, hagain]
    rw [hunlink]
    refine ⟨?_, hp, rfl, ?_, ?_⟩
    · simp only [hstart]
      cases zs <;> rfl
    · simp only [hp]
      exact hxs.setLast (by decide)
    · intro x hx
      have := not_inHeader_split zs z [] hx
      exact store_of_not_mem (by omega)

theorem unlinkLast_phys (h : Heap) : h.unlinkLast.phys = h.phys := by
  rw [Heap.unlinkLast]
  split <;> rfl

/-- The break was lowered by a call of `kbrk`. -/
def Lowers (kernel : Vspace) (h h' : Heap) : Prop :=
  ∃ (h0 : Heap) (increment : Nat), h0.brk = h.brk ∧ h0.phys = h.phys ∧
    h0.kbrk kernel increment = .ret (h.brk, h') ∧ h'.brk < h.brk

/-- The last block is invalidated and taken off the list, and its size is still there. -/
theorem Rep.unlink (hr : Rep debug h (xs ++ [b])) {a : Nat}
    (ha : a = kheapStart + total Block.size xs) :
    ∃ h0, h0 = (h.setMagic a 0).unlinkLast ∧ (h.setMagic a 0).size debug a = b.size ∧
      h0.start = headAddr kheapStart 0 xs ∧ h0.last = lastAddr Block.size kheapStart 0 xs ∧
      h0.brk = h.brk ∧ h0.phys = h.phys ∧ Chain debug h0.mem 0 kheapStart xs 0 ∧
      ∀ x, ¬ InHeader debug (xs ++ [b]) x → h0.mem x = h.mem x := by
  have hsize := headerSize_bounds debug
  obtain ⟨hxs, hb, -⟩ := chain_append.mp hr.chain
  rw [← ha] at hb
  obtain ⟨h0, hh0⟩ : ∃ h0, h0 = h.setMagic a 0 := ⟨_, rfl⟩
  have hmem0 : h0.mem = store h.mem (a + 4) 4 0 := by rw [hh0]; rfl
  have hprev : load h0.mem (a + 8) 8 = lastAddr Block.size kheapStart 0 xs := by
    rw [hmem0, load_store_of_disjoint (by omega)]
    exact hb.prev_eq
  have hxs0 : Chain debug h0.mem 0 kheapStart xs a := by
    rw [hmem0, ha]
    exact hxs.congr fun x _ hx => store_of_not_mem (by omega)
  have hlast0 : h0.last = a := by
    rw [hh0, ha]
    exact hr.last_eq.trans (lastAddr_concat ..)
  obtain ⟨hs, hl, hbr, hc, hm⟩ := unlinkLast_eq (h := h0) (b := b) rfl hlast0
    (by rw [hh0]; exact hr.start_eq) ha rfl hprev hxs0
  rw [← hh0]
  refine ⟨_, rfl, ?_, hs, hl, ?_, ?_, hc, fun x hnot => ?_⟩
  · rw [Heap.size, hmem0, load_store_of_disjoint (by omega)]
    exact hb.size_eq
  · rw [hbr, hh0]
    rfl
  · rw [unlinkLast_phys, hh0]
    rfl
  · have hnot' : ¬ InHeader debug xs x := fun ⟨c, d, hd, h2, h3⟩ =>
      hnot ⟨c, d, at_append.mpr (.inl hd), h2, h3⟩
    have hlast := not_inHeader_split xs b [] hnot
    rw [hm x hnot', hmem0]
    exact store_of_not_mem (by omega)

/-- The blocks of a heap from which the last block was given back. -/
theorem absorbs_release (hbrk : h'.brk = kheapStart + total Block.size xs) :
    Absorbs debug (xs ++ [b]) h' xs := by
  intro a d hd hfree
  rcases at_append.mp hd with hxs | hlast
  · exact .inl ⟨a, d, hxs, hfree, Nat.le_refl _, .inl rfl⟩
  rcases at_cons.mp hlast with ⟨rfl, -⟩ | hnil
  · exact .inr hbrk.le
  · exact absurd hnil.mem List.not_mem_nil

/-- One round of the loop of `kfree`: the last block is available and is given back. -/
theorem Rep.release (kernel : Vspace) (hr : Rep debug h (xs ++ [b])) (hfree : b.live = none)
    (fuel : Nat) :
    ∃ h', h.releaseTail debug kernel (fuel + 1) = h'.releaseTail debug kernel fuel ∧
      Lowers kernel h h' ∧ Moves debug h (xs ++ [b]) h' xs ∧
      KeepsFreed debug h (xs ++ [b]) h' xs ∧ Trims debug h (xs ++ [b]) h' xs := by
  have hsize := headerSize_bounds debug
  have hge := hr.chain.size_ge b (by simp)
  have hlt := hr.brk_lt
  have hbrk := hr.brk_eq
  rw [total_append, total_cons, total_nil] at hbrk
  have hd := hr.chain.header
  have hpos := kheapStart_pos (total Block.size xs)
  obtain ⟨a, ha⟩ : ∃ a, a = kheapStart + total Block.size xs := ⟨_, rfl⟩
  rw [← ha] at hd hpos
  have hlast : h.last = a := by rw [hr.last_eq, lastAddr_concat, ha]
  have havail : h.available a = 1 := hd.available.trans (by rw [Block.available, hfree]; rfl)
  obtain ⟨h0, hh0, hdec, hs, hl, hbr, hphys, hc, hm⟩ := hr.unlink ha
  have hnew : wrap64 (h0.brk + wrap64 (word - b.size)) = a := by
    rw [hbr, wrap64_of_lt (n := word - b.size) (by omega), wrap64_sub (by omega) hlt]
    omega
  obtain ⟨h1, hkbrk⟩ := kbrk_shrink kernel (h := h0) (by rw [hnew, hbr]; omega)
  obtain ⟨-, hbroken⟩ := kbrk_ret hkbrk
  rw [hnew] at hbroken
  have hkeep : ∀ x, x < a → h1.mem x = h0.mem x := fun x hx =>
    hbroken.mem_eq x (by rw [hbr]; omega) hx
  have hbrk1 : h1.brk = kheapStart + total Block.size xs := hbroken.brk_eq.trans ha
  have hrep : Rep debug h1 xs := by
    refine ⟨by rw [hbroken.start_eq, hs], by rw [hbroken.last_eq, hl], hbrk1, by omega, ?_⟩
    exact hc.congr fun x _ hx => hkeep x (by omega)
  obtain ⟨hmoves, hfreed⟩ := hr.settle hrep (by omega)
    (fun x hx hnot => (hkeep x (by omega)).trans (hm x hnot)) (absorbs_release hbrk1)
  have hdown := kbrk_down hkbrk (by rw [hbr]; omega)
  refine ⟨h1, ?_, ⟨h0, _, hbr, hphys, hbr ▸ hkbrk, by omega⟩, hmoves, hfreed, by omega, ?_, ?_, ?_,
    fun n hn d hd => hn d (List.mem_append_left _ hd)⟩
  · rw [Heap.releaseTail, if_pos ⟨by rw [hlast]; exact hpos, by rw [hlast, havail]; decide⟩]
    have hlast0 : (h.setMagic a 0).last = a := hlast
    simp only [hlast, hlast0, hdec, ← hh0]
    rw [hkbrk]
    rfl
  · rintro x ⟨c, d, hd, h2, h3⟩
    exact ⟨c, d, at_append.mpr (.inl hd), h2, h3⟩
  · intro x hx hnot
    rw [← hm x hnot, hdown]
    exact (unmapPages_eq kernel _ _ _).2.2.2 x hx
  · intro x hnot
    rw [← hm x hnot, hdown]
    exact unmapPages_clears kernel _ _ _ x

end UlmerOS
