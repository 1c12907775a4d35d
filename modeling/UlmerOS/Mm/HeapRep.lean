import UlmerOS.Lib.Tiling
import UlmerOS.Mm.Heap

/-!
# What the bytes of the heap stand for

A heap stands for a list of blocks (`Rep`).  The blocks tile the range from
`KHEAP_START` to the break, and the header of each says so in memory: its size, its
neighbours, the magic number and whether it is available.

The linked list is described from any block on (`Chain`), with the address that the
first block has as its predecessor and the one that the last has as its successor,
so that a list can be cut anywhere (`chain_append`) and a change in one block leaves
the chains on both sides alone (`Chain.congr`).

A block that was freed may become a part of another one or be given back.  `Freed` is
what its header still says then.
-/

namespace UlmerOS

open ByteMem Tiling

/-- A block of the heap.  A live block has the size that was asked for. -/
structure Block where
  size : Nat
  live : Option Nat
deriving DecidableEq, Repr

variable {debug : Bool}

theorem headerSize_bounds (debug : Bool) : 32 ≤ headerSize debug ∧ headerSize debug ≤ 44 := by
  cases debug <;> decide

/-! ## Headers -/

/-- The value of `available` in the header of a block. -/
def Block.available (b : Block) : Nat := if b.live.isSome then 0 else 1

/-- The header of the block `b` at the address `a`. -/
structure Header (debug : Bool) (mem : Mem) (a : Nat) (b : Block) (prev next : Nat) : Prop where
  available : load mem a 4 = b.available
  magic : load mem (a + 4) 4 = heapMagic
  prev_eq : load mem (a + 8) 8 = prev
  next_eq : load mem (a + 16) 8 = next
  size_eq : load mem (a + (headerSize debug - 8)) 8 = b.size
  size_ge : headerSize debug ≤ b.size

namespace Header

variable {mem mem' : Mem} {a prev next : Nat} {b : Block}

/-- A header is in its own bytes. -/
theorem congr (h : Header debug mem a b prev next)
    (hmem : ∀ x, a ≤ x → x < a + headerSize debug → mem' x = mem x) :
    Header debug mem' a b prev next := by
  obtain ⟨h1, h2⟩ := headerSize_bounds debug
  have hload : ∀ c n, a ≤ c → c + n ≤ a + headerSize debug → load mem' c n = load mem c n :=
    fun c n hc hn => load_congr fun x hx hx' => hmem x (by omega) (by omega)
  refine ⟨?_, ?_, ?_, ?_, ?_, h.size_ge⟩
  · rw [hload _ _ (by omega) (by omega)]; exact h.available
  · rw [hload _ _ (by omega) (by omega)]; exact h.magic
  · rw [hload _ _ (by omega) (by omega)]; exact h.prev_eq
  · rw [hload _ _ (by omega) (by omega)]; exact h.next_eq
  · rw [hload _ _ (by omega) (by omega)]; exact h.size_eq

theorem setPrev (h : Header debug mem a b prev next) {v : Nat} (hv : v < word) :
    Header debug (store mem (a + 8) 8 v) a b v next := by
  obtain ⟨h1, h2⟩ := headerSize_bounds debug
  refine ⟨?_, ?_, load_store hv, ?_, ?_, h.size_ge⟩
  · rw [load_store_of_disjoint (by omega)]; exact h.available
  · rw [load_store_of_disjoint (by omega)]; exact h.magic
  · rw [load_store_of_disjoint (by omega)]; exact h.next_eq
  · rw [load_store_of_disjoint (by omega)]; exact h.size_eq

theorem setNext (h : Header debug mem a b prev next) {v : Nat} (hv : v < word) :
    Header debug (store mem (a + 16) 8 v) a b prev v := by
  obtain ⟨h1, h2⟩ := headerSize_bounds debug
  refine ⟨?_, ?_, ?_, load_store hv, ?_, h.size_ge⟩
  · rw [load_store_of_disjoint (by omega)]; exact h.available
  · rw [load_store_of_disjoint (by omega)]; exact h.magic
  · rw [load_store_of_disjoint (by omega)]; exact h.prev_eq
  · rw [load_store_of_disjoint (by omega)]; exact h.size_eq

theorem setAvailable (h : Header debug mem a b prev next) (live : Option Nat) :
    Header debug (store mem a 4 (Block.available ⟨b.size, live⟩)) a ⟨b.size, live⟩ prev next := by
  obtain ⟨h1, h2⟩ := headerSize_bounds debug
  refine ⟨load_store ?_, ?_, ?_, ?_, ?_, h.size_ge⟩
  · rw [Block.available]
    split <;> decide
  · rw [load_store_of_disjoint (by omega)]; exact h.magic
  · rw [load_store_of_disjoint (by omega)]; exact h.prev_eq
  · rw [load_store_of_disjoint (by omega)]; exact h.next_eq
  · rw [load_store_of_disjoint (by omega)]; exact h.size_eq

theorem setSize (h : Header debug mem a b prev next) {v : Nat} (hge : headerSize debug ≤ v)
    (hv : v < word) :
    Header debug (store mem (a + (headerSize debug - 8)) 8 v) a ⟨v, b.live⟩ prev next := by
  obtain ⟨h1, h2⟩ := headerSize_bounds debug
  refine ⟨?_, ?_, ?_, ?_, load_store hv, hge⟩
  · rw [load_store_of_disjoint (by omega)]; exact h.available
  · rw [load_store_of_disjoint (by omega)]; exact h.magic
  · rw [load_store_of_disjoint (by omega)]; exact h.prev_eq
  · rw [load_store_of_disjoint (by omega)]; exact h.next_eq

/-- The place of an allocation is stored beside the fields. -/
theorem setOrigin {h : Heap} (hd : Header debug h.mem a b prev next) (function line : Nat) :
    Header debug (h.setOrigin debug a function line).mem a b prev next := by
  cases debug with
  | false => exact hd
  | true =>
      have hmem : (h.setOrigin true a function line).mem =
        store (store h.mem (a + 24) 8 function) (a + 32) 4 line := rfl
      have hsize : headerSize true = 44 := rfl
      rw [hmem]
      refine ⟨?_, ?_, ?_, ?_, ?_, hd.size_ge⟩
      · rw [load_store_of_disjoint (by omega), load_store_of_disjoint (by omega)]
        exact hd.available
      · rw [load_store_of_disjoint (by omega), load_store_of_disjoint (by omega)]
        exact hd.magic
      · rw [load_store_of_disjoint (by omega), load_store_of_disjoint (by omega)]
        exact hd.prev_eq
      · rw [load_store_of_disjoint (by omega), load_store_of_disjoint (by omega)]
        exact hd.next_eq
      · rw [load_store_of_disjoint (by omega), load_store_of_disjoint (by omega)]
        exact hd.size_eq

end Header

/-! ## Chains -/

/-- The headers of the blocks `bs` from the address `base` on, where the first block
has the predecessor `prev` and the last the successor `next`. -/
def Chain (debug : Bool) (mem : Mem) : Nat → Nat → List Block → Nat → Prop
  | _, _, [], _ => True
  | prev, base, b :: bs, next =>
      Header debug mem base b prev (headAddr (base + b.size) next bs) ∧
        Chain debug mem base (base + b.size) bs next

variable {mem mem' : Mem} {prev base next : Nat} {b : Block} {bs xs ys : List Block}

theorem chain_append :
    Chain debug mem prev base (xs ++ ys) next ↔
      Chain debug mem prev base xs (headAddr (base + total Block.size xs) next ys) ∧
        Chain debug mem (lastAddr Block.size base prev xs) (base + total Block.size xs) ys
          next := by
  induction xs generalizing prev base with
  | nil => simp [Chain]
  | cons x xs ih =>
      have hhead : headAddr (base + x.size) next (xs ++ ys) =
          headAddr (base + x.size) (headAddr (base + total Block.size (x :: xs)) next ys) xs := by
        rw [headAddr_append]
        cases xs with
        | nil => rw [total_cons, total_nil, Nat.add_zero]
        | cons _ _ => rfl
      rw [List.cons_append, Chain, Chain, ih, hhead, lastAddr, total_cons, Nat.add_assoc, and_assoc]

theorem Chain.size_ge (h : Chain debug mem prev base bs next) :
    ∀ b ∈ bs, headerSize debug ≤ b.size := by
  induction bs generalizing prev base with
  | nil => exact fun _ hb => absurd hb List.not_mem_nil
  | cons c bs ih =>
      intro b hb
      rcases List.mem_cons.mp hb with rfl | hb'
      · exact h.1.size_ge
      · exact ih h.2 b hb'

/-- A chain is in the bytes of its blocks. -/
theorem Chain.congr (h : Chain debug mem prev base bs next)
    (hmem : ∀ x, base ≤ x → x < base + total Block.size bs → mem' x = mem x) :
    Chain debug mem' prev base bs next := by
  induction bs generalizing prev base with
  | nil => trivial
  | cons b bs ih =>
      rw [total_cons] at hmem
      have hge := h.1.size_ge
      refine ⟨h.1.congr fun x h1 h2 => hmem x h1 (by omega), ih h.2 fun x h1 h2 => ?_⟩
      exact hmem x (by omega) (by omega)

/-- The header of a block in a chain. -/
theorem Chain.header (h : Chain debug mem prev base (xs ++ b :: ys) next) :
    Header debug mem (base + total Block.size xs) b (lastAddr Block.size base prev xs)
      (headAddr (base + total Block.size xs + b.size) next ys) :=
  (chain_append.mp h).2.1

/-- The store that links the first block of a chain back to another block, or none
if there is no block. -/
theorem Chain.relink (h : Chain debug mem prev base ys next) {p n : Nat} (hp : p < word)
    (hn : n = headAddr base 0 ys) (hbase : base ≠ 0) :
    Chain debug (if n ≠ 0 then store mem (n + 8) 8 p else mem) p base ys next := by
  subst hn
  cases ys with
  | nil => trivial
  | cons y ys =>
      have hge := h.1.size_ge
      have hsize := headerSize_bounds debug
      rw [headAddr_cons, if_pos hbase]
      refine ⟨h.1.setPrev hp, h.2.congr fun x h1 h2 => store_of_not_mem (by omega)⟩

/-- The store that links the last block of a chain to another block. -/
theorem Chain.setLast (h : Chain debug mem prev base (xs ++ [b]) next) {n : Nat} (hn : n < word) :
    Chain debug (store mem (base + total Block.size xs + 16) 8 n) prev base (xs ++ [b]) n := by
  obtain ⟨hxs, hb, -⟩ := chain_append.mp h
  refine chain_append.mpr ⟨hxs.congr fun x h1 h2 => store_of_not_mem (by omega), ?_, trivial⟩
  exact hb.setNext hn

/-! ## Heaps -/

/-- The heap stands for the blocks `bs`. -/
structure Rep (debug : Bool) (h : Heap) (bs : List Block) : Prop where
  start_eq : h.start = headAddr kheapStart 0 bs
  last_eq : h.last = lastAddr Block.size kheapStart 0 bs
  brk_eq : h.brk = kheapStart + total Block.size bs
  brk_lt : h.brk < word
  chain : Chain debug h.mem 0 kheapStart bs 0

/-- The block `b` is live and stands at the address `a`. -/
def LiveAt (base : Nat) (bs : List Block) (a : Nat) (b : Block) : Prop :=
  At Block.size base bs a b ∧ b.live.isSome

/-- The byte is in a payload that is in use. -/
def InPayload (debug : Bool) (bs : List Block) (x : Nat) : Prop :=
  ∃ a b, LiveAt kheapStart bs a b ∧ a + headerSize debug ≤ x ∧ x < a + b.size

/-- The byte is in a header. -/
def InHeader (debug : Bool) (bs : List Block) (x : Nat) : Prop :=
  ∃ a b, At Block.size kheapStart bs a b ∧ a ≤ x ∧ x < a + headerSize debug

/-- The block behind the blocks `xs`. -/
theorem at_block (xs : List Block) (b : Block) (ys : List Block) :
    At Block.size kheapStart (xs ++ b :: ys) (kheapStart + total Block.size xs) b :=
  at_split kheapStart xs b ys

theorem not_liveAt_nil {a : Nat} {c : Block} : ¬ LiveAt base [] a c :=
  fun hl => absurd hl.1.mem List.not_mem_nil

theorem liveAt_append {a : Nat} {c : Block} :
    LiveAt base (xs ++ ys) a c ↔
      LiveAt base xs a c ∨ LiveAt (base + total Block.size xs) ys a c := by
  rw [LiveAt, at_append, or_and_right]
  rfl

theorem liveAt_cons {a : Nat} {c : Block} :
    LiveAt base (b :: bs) a c ↔
      (a = base ∧ c = b ∧ b.live.isSome) ∨ LiveAt (base + b.size) bs a c := by
  rw [LiveAt, at_cons, or_and_right, and_assoc]
  refine or_congr ⟨?_, ?_⟩ Iff.rfl
  · rintro ⟨h1, rfl, h2⟩; exact ⟨h1, rfl, h2⟩
  · rintro ⟨h1, rfl, h2⟩; exact ⟨h1, rfl, h2⟩

namespace Rep

variable {h : Heap}

/-- A payload and a header do not overlap. -/
theorem payload_not_header (hr : Rep debug h bs) {x : Nat} (hx : InPayload debug bs x) :
    ¬ InHeader debug bs x := by
  rintro ⟨c, d, hc, h1, h2⟩
  obtain ⟨a, b, hl, h3, h4⟩ := hx
  have hge := hr.chain.size_ge d hc.mem
  rcases hl.1.disjoint hc with ⟨rfl, rfl⟩ | hd | hd <;> omega

/-- The addresses of the heap are words. -/
theorem addr_lt (hr : Rep debug h bs) {a : Nat} {b : Block} (hb : At Block.size kheapStart bs a b) :
    a + b.size < word := by
  have h1 := hb.bounds.2
  have h2 := hr.brk_lt
  rw [hr.brk_eq] at h2
  omega

/-- The bytes behind the header of a block are in no header. -/
theorem not_inHeader (hr : Rep debug h bs) {x a : Nat} (hb : At Block.size kheapStart bs a b)
    (h1 : a + headerSize debug ≤ x) (h2 : x < a + b.size) : ¬ InHeader debug bs x := by
  rintro ⟨c, d, hc, h3, h4⟩
  have hge := hr.chain.size_ge d hc.mem
  rcases hb.disjoint hc with ⟨rfl, -⟩ | hd | hd <;> omega

/-- A block ends before the break. -/
theorem le_brk (hr : Rep debug h bs) {a : Nat} (hb : At Block.size kheapStart bs a b) :
    a + b.size ≤ h.brk := by
  rw [hr.brk_eq]
  exact hb.bounds.2

/-- The list is no longer than its fuel. -/
theorem length_lt (hr : Rep debug h bs) : bs.length < word := by
  obtain ⟨h1, -⟩ := headerSize_bounds debug
  have h2 := length_mul_le_total Block.size hr.chain.size_ge
  have h3 := hr.brk_lt
  have h4 : bs.length * 1 ≤ bs.length * headerSize debug := Nat.mul_le_mul_left _ (by omega)
  rw [hr.brk_eq] at h3
  omega

end Rep

/-! ## Freed blocks -/

/-- What the heap still says about a block that stood at the address `a` and was freed,
as long as no block is handed out. -/
inductive Freed (debug : Bool) (h : Heap) (bs : List Block) (a : Nat) : Prop where
  /-- It is still a block of its own. -/
  | available {b : Block} (hb : At Block.size kheapStart bs a b) (hfree : b.live = none)
  /-- It is a part of an available block, and its magic number was cleared. -/
  | merged {c : Nat} {b : Block} (hb : At Block.size kheapStart bs c b) (hfree : b.live = none)
      (hge : c + headerSize debug ≤ a) (hle : a + headerSize debug ≤ c + b.size)
      (hmagic : h.magic a = 0)
  /-- It was given back. -/
  | released (hbrk : h.brk ≤ a)

/-- Every available block of `bs` is still there, or it is the end of a larger one and its
magic number was cleared, or it was given back. -/
def Absorbs (debug : Bool) (bs : List Block) (h' : Heap) (bs' : List Block) : Prop :=
  ∀ a b, At Block.size kheapStart bs a b → b.live = none →
    (∃ c d, At Block.size kheapStart bs' c d ∧ d.live = none ∧ a + b.size ≤ c + d.size ∧
      (c = a ∨ c + headerSize debug ≤ a ∧ h'.magic a = 0)) ∨ h'.brk ≤ a

/-- A block that was freed stays freed in a step that writes to headers below the break. -/
theorem Freed.step {h h' : Heap} {bs' : List Block} {a : Nat} (hf : Freed debug h bs a)
    (hr : Rep debug h bs) (hr' : Rep debug h' bs') (hbrk : h'.brk ≤ h.brk)
    (hmem : ∀ x, x < h'.brk → ¬ InHeader debug bs x → h'.mem x = h.mem x)
    (hblocks : Absorbs debug bs h' bs') : Freed debug h' bs' a := by
  have hH := headerSize_bounds debug
  cases hf with
  | @available b hb hfree =>
      have hge := hr.chain.size_ge b hb.mem
      rcases hblocks a b hb hfree with ⟨c, d, hd, hdfree, hle, rfl | ⟨hc, hmagic⟩⟩ | hout
      · exact .available hd hdfree
      · exact .merged hd hdfree hc (by omega) hmagic
      · exact .released hout
  | @merged c b hb hfree hge hle hmagic =>
      rcases hblocks c b hb hfree with ⟨e, d, hd, hdfree, hsize, hc⟩ | hout
      · have hend := hr'.le_brk hd
        have hkeep : h'.magic a = h.magic a := load_congr fun x h1 h2 =>
          hmem x (by omega) (hr.not_inHeader hb (by omega) (by omega))
        exact .merged hd hdfree (by omega) (by omega) (hkeep.trans hmagic)
      · exact .released (by omega)
  | released hout => exact .released (by omega)

end UlmerOS
