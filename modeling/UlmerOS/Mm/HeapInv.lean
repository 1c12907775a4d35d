import UlmerOS.Lib.Run
import UlmerOS.Mm.HeapOps
import Mathlib.Data.List.Chain

/-!
# The heap keeps its shape

Every run of `_kmalloc` and `kfree` from the empty heap, with the owners of live
blocks writing to their payloads in between, leaves a heap whose blocks tile the
range up to the break.  Live payloads are then apart from each other and from every
header, and neither function writes to one.

`_kmalloc` and `kfree` are assembled from the steps of the previous module.
-/

namespace UlmerOS

open ByteMem Tiling Transition

variable {debug : Bool} {kernel : Vspace} {h h' : Heap} {bs bs' xs ys : List Block} {b : Block}

/-! ## Live blocks -/

theorem InPayload.mono {x : Nat}
    (hlive : ∀ c d, LiveAt kheapStart bs c d → LiveAt kheapStart bs' c d)
    (hx : InPayload debug bs x) : InPayload debug bs' x := by
  obtain ⟨a, b, hl, h1, h2⟩ := hx
  exact ⟨a, b, hlive a b hl, h1, h2⟩

theorem liveAt_cons_free {base a : Nat} {c : Block} (hfree : b.live = none) :
    LiveAt base (b :: bs) a c ↔ LiveAt (base + b.size) bs a c := by
  rw [liveAt_cons, hfree]
  exact ⟨fun hl => hl.elim (fun ⟨_, _, hs⟩ => nomatch hs) id, .inr⟩

theorem liveAt_split_free {base a : Nat} {c : Block} (hfree : b.live = none) :
    LiveAt base (xs ++ b :: ys) a c ↔
      LiveAt base xs a c ∨ LiveAt (base + total Block.size xs + b.size) ys a c := by
  rw [liveAt_append, liveAt_cons_free hfree]

theorem liveAt_split_live {base a : Nat} {c : Block} {size : Nat} (hlive : b.live = some size) :
    LiveAt base (xs ++ b :: ys) a c ↔
      LiveAt base xs a c ∨ LiveAt (base + total Block.size xs + b.size) ys a c ∨
        (a = base + total Block.size xs ∧ c = b) := by
  rw [liveAt_append, liveAt_cons, hlive, Option.isSome_some]
  refine or_congr Iff.rfl (or_comm.trans (or_congr Iff.rfl ?_))
  exact ⟨fun h => ⟨h.1, h.2.1⟩, fun h => ⟨h.1, h.2, rfl⟩⟩

/-- A step after which the same blocks are live. -/
structure Quiet (debug : Bool) (h : Heap) (bs : List Block) (h' : Heap) (bs' : List Block) :
    Prop where
  moves : Moves debug h bs h' bs'
  live_iff : ∀ c d, LiveAt kheapStart bs' c d ↔ LiveAt kheapStart bs c d

theorem Quiet.refl (hr : Rep debug h bs) : Quiet debug h bs h bs :=
  ⟨⟨hr, fun _ _ _ => rfl⟩, fun _ _ => Iff.rfl⟩

theorem Quiet.trans {h'' : Heap} {bs'' : List Block} (h1 : Quiet debug h bs h' bs')
    (h2 : Quiet debug h' bs' h'' bs'') : Quiet debug h bs h'' bs'' := by
  refine ⟨⟨h2.moves.rep, fun x hx hx'' => ?_⟩, fun c d => (h2.live_iff c d).trans (h1.live_iff c d)⟩
  have hx' : InPayload debug bs' x := hx.mono fun c d => (h1.live_iff c d).mpr
  rw [h2.moves.keeps x hx' hx'', h1.moves.keeps x hx hx']

/-- A step of `kfree`: what was freed before is still known to be. -/
structure Settles (debug : Bool) (h : Heap) (bs : List Block) (h' : Heap) (bs' : List Block) :
    Prop extends Quiet debug h bs h' bs' where
  freed : KeepsFreed debug h bs h' bs'

theorem Settles.refl (hr : Rep debug h bs) : Settles debug h bs h bs :=
  ⟨.refl hr, fun _ hf => hf⟩

theorem Settles.trans {h'' : Heap} {bs'' : List Block} (h1 : Settles debug h bs h' bs')
    (h2 : Settles debug h' bs' h'' bs'') : Settles debug h bs h'' bs'' :=
  ⟨h1.toQuiet.trans h2.toQuiet, fun a hf => h2.freed a (h1.freed a hf)⟩

/-! ## Available neighbours -/

/-- No two neighbours are available. -/
def Separate (bs : List Block) : Prop :=
  bs.IsChain fun b c => b.live.isSome = true ∨ c.live.isSome = true

/-- Nor is the last block. -/
structure Coalesced (bs : List Block) : Prop where
  separate : Separate bs
  last_live : ∀ b ∈ bs.getLast?, b.live.isSome = true

theorem separate_split : Separate (xs ++ b :: ys) ↔ Separate (xs ++ [b]) ∧ Separate (b :: ys) :=
  List.isChain_split

theorem separate_append : Separate (xs ++ ys) ↔ Separate xs ∧ Separate ys ∧
    ∀ b ∈ xs.getLast?, ∀ c ∈ ys.head?, b.live.isSome = true ∨ c.live.isSome = true :=
  List.isChain_append

/-- In front of the same blocks a block may be replaced by one that is no more available. -/
theorem Separate.cons_congr {c : Block} (hs : Separate (b :: ys))
    (hle : b.live.isSome = true → c.live.isSome = true) : Separate (c :: ys) := by
  cases ys with
  | nil => exact .singleton c
  | cons d ys =>
      obtain ⟨hbd, hs⟩ := List.isChain_cons_cons.mp hs
      exact List.isChain_cons_cons.mpr ⟨hbd.imp_left hle, hs⟩

theorem Separate.concat_congr {c : Block} (hs : Separate (xs ++ [b]))
    (hle : b.live.isSome = true → c.live.isSome = true) : Separate (xs ++ [c]) := by
  obtain ⟨hxs, -, hlast⟩ := separate_append.mp hs
  refine separate_append.mpr ⟨hxs, .singleton c, ?_⟩
  intro d hd e he
  obtain rfl : c = e := by simpa using he
  exact (hlast d hd b rfl).imp_right hle

theorem Separate.replace {c : Block} (hs : Separate (xs ++ b :: ys))
    (hle : b.live.isSome = true → c.live.isSome = true) : Separate (xs ++ c :: ys) := by
  obtain ⟨hxs, hys⟩ := separate_split.mp hs
  exact separate_split.mpr ⟨hxs.concat_congr hle, hys.cons_congr hle⟩

theorem Coalesced.nil : Coalesced [] := ⟨.nil, nofun⟩

/-- A block is taken. -/
theorem Coalesced.take {c : Block} (hc : Coalesced (xs ++ b :: ys))
    (hlive : c.live.isSome = true) : Coalesced (xs ++ c :: ys) := by
  refine ⟨hc.separate.replace (fun _ => hlive), ?_⟩
  have hlast := hc.last_live
  cases ys with
  | nil => simpa using hlive
  | cons d ys => simpa using hlast

/-- An available block is cut: there is a block behind it, which is not available. -/
theorem Coalesced.cut {c d : Block} (hc : Coalesced (xs ++ b :: ys)) (hfree : b.live = none)
    (hlive : c.live.isSome = true) : Coalesced (xs ++ c :: d :: ys) := by
  have hlast := hc.last_live
  have hs := (separate_split.mp hc.separate).2
  have htake := (hc.take hlive).separate
  cases ys with
  | nil => simp [hfree] at hlast
  | cons e ys =>
      have he : e.live.isSome = true := by
        simpa [hfree] using (List.isChain_cons_cons.mp hs).1
      have htail := (List.isChain_cons_cons.mp hs).2
      refine ⟨separate_split.mpr ⟨(separate_split.mp htake).1, ?_⟩, by simpa using hlast⟩
      exact .cons_cons (Or.inl hlive) (.cons_cons (Or.inr he) htail)

/-- A block is added at the end. -/
theorem Coalesced.concat (hc : Coalesced bs) (hlive : b.live.isSome = true) :
    Coalesced (bs ++ [b]) := by
  refine ⟨separate_append.mpr ⟨hc.separate, .singleton b, ?_⟩, by simpa using hlive⟩
  exact fun c hc' _ _ => Or.inl (hc.last_live c hc')

/-! ## `_kmalloc` -/

/-- The search ends, and what it finds is an available block that is large enough.  If it
finds none there is none. -/
theorem findFit_ret (required : Nat) {p a fuel : Nat} (hc : Chain debug h.mem p a ys 0) (ha : a ≠ 0)
    (hfuel : ys.length < fuel) :
    ∃ r, h.findFit debug required fuel (headAddr a 0 ys) = .ret r ∧
      (∀ e, r = some e → ∃ xs b zs, ys = xs ++ b :: zs ∧ b.live = none ∧ required ≤ b.size ∧
        e = a + total Block.size xs) ∧
      (r = none → ∀ b ∈ ys, b.live = none → b.size < required) := by
  induction ys generalizing p a fuel with
  | nil =>
      obtain ⟨fuel, rfl⟩ : ∃ f, fuel = f + 1 := ⟨fuel - 1, by simp at hfuel; omega⟩
      exact ⟨none, by rw [Heap.findFit, headAddr_nil, if_pos rfl], nofun, fun _ => nofun⟩
  | cons y ys ih =>
      rw [List.length_cons] at hfuel
      obtain ⟨fuel, rfl⟩ : ∃ f, fuel = f + 1 := ⟨fuel - 1, by omega⟩
      obtain ⟨hd, htl⟩ := hc
      have hm : h.magic a = heapMagic := hd.magic
      have hav : h.available a = y.available := hd.available
      have hsz : h.size debug a = y.size := hd.size_eq
      have hnx : h.next a = headAddr (a + y.size) 0 ys := hd.next_eq
      rw [Heap.findFit, headAddr_cons, if_neg ha, if_neg (fun hne => hne hm), hav, hsz, hnx]
      by_cases hfit : y.available ≠ 0 ∧ y.size ≥ required
      · rw [if_pos hfit]
        refine ⟨some a, rfl, fun e he => ⟨[], y, ys, rfl, ?_, hfit.2, ?_⟩, nofun⟩
        · cases hl : y.live with
          | none => rfl
          | some r => exact absurd (by rw [Block.available, hl]; rfl) hfit.1
        · exact (Option.some.inj he).symm
      · rw [if_neg hfit]
        obtain ⟨r, hr, hfound, hnone⟩ := ih htl (by omega) (show ys.length < fuel by omega)
        refine ⟨r, hr, fun e he => ?_, fun hrn b hb hfree => ?_⟩
        · obtain ⟨xs, b, zs, rfl, h1, h2, rfl⟩ := hfound e he
          exact ⟨y :: xs, b, zs, rfl, h1, h2, by rw [total_cons, Nat.add_assoc]⟩
        · rcases List.mem_cons.mp hb with rfl | hys
          · have hav : b.available ≠ 0 := by rw [Block.available, hfree]; decide
            exact Nat.lt_of_not_le fun hle => hfit ⟨hav, hle⟩
          · exact hnone hrn b hys hfree

/-- A block was allocated: it is large enough, it was not live, every other block
that was live still is, and no byte of a live payload was written. -/
structure Allocates (debug : Bool) (h : Heap) (bs : List Block) (size ptr : Nat) (h' : Heap)
    (bs' : List Block) : Prop where
  rep : Rep debug h' bs'
  block : ∃ a b, ptr = a + headerSize debug ∧ b.live = some size ∧
    size + headerSize debug ≤ b.size ∧ (∀ d, ¬ LiveAt kheapStart bs a d) ∧
    ∀ c d, LiveAt kheapStart bs' c d ↔ LiveAt kheapStart bs c d ∨ (c = a ∧ d = b)
  keeps : ∀ x, InPayload debug bs x → h'.mem x = h.mem x

/-- At the address of an available block there is no live one. -/
theorem Rep.not_live (hr : Rep debug h (xs ++ b :: ys)) (hfree : b.live = none) (d : Block) :
    ¬ LiveAt kheapStart (xs ++ b :: ys) (kheapStart + total Block.size xs) d := by
  rintro ⟨hd, hlive⟩
  have hsize := headerSize_bounds debug
  have hge := hr.chain.size_ge b (by simp)
  have hge' := hr.chain.size_ge d hd.mem
  rcases hd.disjoint (at_block xs b ys) with ⟨-, rfl⟩ | h1 | h1
  · rw [hfree] at hlive
    cases hlive
  · omega
  · omega

/-- The available block `b` was taken, cut if enough is left over. -/
theorem Rep.allocate (hr : Rep debug h (xs ++ b :: ys)) (hfree : b.live = none) {size : Nat}
    (hfit : headerSize debug + size ≤ b.size) (function line : Nat) :
    ∃ bs', Allocates debug h (xs ++ b :: ys) size
      (kheapStart + total Block.size xs + headerSize debug)
      (((h.setAvailable (kheapStart + total Block.size xs) 0).setOrigin debug
        (kheapStart + total Block.size xs) function line).crop debug
        (kheapStart + total Block.size xs) (headerSize debug + size)) bs' ∧
      (Coalesced (xs ++ b :: ys) → Coalesced bs') := by
  have hmark := hr.setAvailable (some size) (v := 0) rfl
  have horigin := hmark.rep.setOrigin function line
  obtain ⟨h1, hh1⟩ : ∃ h1, h1 =
    (h.setAvailable (kheapStart + total Block.size xs) 0).setOrigin debug
      (kheapStart + total Block.size xs) function line := ⟨_, rfl⟩
  rw [← hh1] at horigin ⊢
  have hd := horigin.rep.chain.header
  have haddr : kheapStart + total Block.size xs + b.size < word :=
    hr.addr_lt (at_block xs b ys)
  have hsz : h1.size debug (kheapStart + total Block.size xs) = b.size := hd.size_eq
  -- what was live is live in both lists that follow
  have hlive1 : ∀ c d, LiveAt kheapStart (xs ++ ⟨b.size, some size⟩ :: ys) c d ↔
      LiveAt kheapStart (xs ++ b :: ys) c d ∨
        (c = kheapStart + total Block.size xs ∧ d = ⟨b.size, some size⟩) := by
    intro c d
    rw [liveAt_split_live rfl, liveAt_split_free hfree, or_assoc]
  have hkeep1 : ∀ x, InPayload debug (xs ++ b :: ys) x → h1.mem x = h.mem x := by
    intro x hx
    have hx' : InPayload debug (xs ++ ⟨b.size, some size⟩ :: ys) x :=
      hx.mono fun c d hl => (hlive1 c d).mpr (.inl hl)
    rw [horigin.keeps x hx' hx', hmark.keeps x hx hx']
  by_cases hsmall : b.size - (headerSize debug + size) ≤ headerSize debug
  · rw [crop_small (by rw [hsz]; exact hsmall) (by rw [hsz]; exact hfit) (by rw [hsz]; omega)]
    exact ⟨_, ⟨horigin.rep, ⟨_, _, rfl, rfl, by simp only; omega, hr.not_live hfree, hlive1⟩,
      hkeep1⟩, fun hc => hc.take rfl⟩
  · have hcrop := horigin.rep.crop (headerSize debug + size) (by omega)
      (by simp only; omega)
    have hlive2 : ∀ c d, LiveAt kheapStart (xs ++ ⟨headerSize debug + size, some size⟩ ::
        ⟨b.size - (headerSize debug + size), none⟩ :: ys) c d ↔
        LiveAt kheapStart (xs ++ b :: ys) c d ∨
          (c = kheapStart + total Block.size xs ∧ d = ⟨headerSize debug + size, some size⟩) := by
      intro c d
      have hend : kheapStart + total Block.size xs + (headerSize debug + size) +
          (b.size - (headerSize debug + size)) = kheapStart + total Block.size xs + b.size := by
        omega
      rw [liveAt_split_live rfl, liveAt_cons_free rfl, hend, liveAt_split_free hfree, or_assoc]
    refine ⟨_, ⟨hcrop.rep, ⟨_, _, rfl, rfl, by simp only; omega, hr.not_live hfree, hlive2⟩, ?_⟩,
      fun hc => hc.cut hfree rfl⟩
    intro x hx
    have hx1 : InPayload debug (xs ++ ⟨b.size, some size⟩ :: ys) x :=
      hx.mono fun c d hl => (hlive1 c d).mpr (.inl hl)
    rw [hcrop.keeps x hx1 (hx.mono fun c d hl => (hlive2 c d).mpr (.inl hl)), hkeep1 x hx]

theorem appendBlock_brk (blk requiredSize function line : Nat) :
    (h.appendBlock debug blk requiredSize function line).brk = h.brk := by
  obtain ⟨-, -, hb⟩ := setOrigin_eq debug
    (((((h.setAvailable blk 0).setMagic blk heapMagic).setNext blk 0).setPrev blk h.last).setSize
      debug blk requiredSize) blk function line
  simp only [Heap.appendBlock]
  split <;> split <;> exact hb

/-- An addition whose result is not smaller did not wrap around. -/
theorem add_lt_of_le_wrap64 {n k : Nat} (hn : n < word) (hk : k < word)
    (h : n ≤ wrap64 (n + k)) : n + k < word := by
  rw [wrap64] at h
  by_contra hc
  rw [Nat.mod_eq_sub_mod (by omega), Nat.mod_eq_of_lt (by omega)] at h
  omega

/-- A block was added at the break. -/
theorem Rep.allocate_append {h1 : Heap} {size : Nat} (hr : Rep debug h bs)
    (hbroken : Broken h (h.brk + (headerSize debug + size)) h1)
    (hlt : h.brk + (headerSize debug + size) < word) (function line : Nat) :
    Allocates debug h bs size (h.brk + headerSize debug)
      (h1.appendBlock debug h.brk (headerSize debug + size) function line)
      (bs ++ [⟨headerSize debug + size, some size⟩]) := by
  have hH := headerSize_bounds debug
  have happ := hr.append hbroken (by omega) hlt size function line
  have hlive : ∀ c d, LiveAt kheapStart (bs ++ [⟨headerSize debug + size, some size⟩]) c d ↔
      LiveAt kheapStart bs c d ∨ (c = h.brk ∧ d = ⟨headerSize debug + size, some size⟩) := by
    intro c d
    rw [liveAt_split_live rfl, ← hr.brk_eq]
    exact or_congr Iff.rfl (or_iff_right not_liveAt_nil)
  refine ⟨happ.rep, ⟨h.brk, _, rfl, rfl, by simp only; omega, ?_, hlive⟩, fun x hx => ?_⟩
  · rintro d ⟨hd, -⟩
    have h1 := hd.bounds.2
    have h2 := hr.chain.size_ge d hd.mem
    have h3 := hr.brk_eq
    omega
  · exact happ.keeps x hx (hx.mono fun c d hl => (hlive c d).mpr (.inl hl))

/-- What `_kmalloc` does when it returns and the break does not wrap around. -/
theorem kmalloc_ret (hr : Rep debug h bs) {size function line ptr : Nat}
    (hsize : headerSize debug + size < word)
    (hret : h.kmalloc debug kernel size function line = .ret (ptr, h')) (hbrk : h.brk ≤ h'.brk) :
    ∃ bs', Allocates debug h bs size ptr h' bs' ∧ (Coalesced bs → Coalesced bs') := by
  have hH := headerSize_bounds debug
  obtain ⟨r, hfind, hfound, -⟩ := findFit_ret (headerSize debug + size) hr.chain
    (by decide) hr.length_lt
  rw [← hr.start_eq] at hfind
  rw [Heap.kmalloc, wrap64_of_lt hsize, hfind, Outcome.ret_bind] at hret
  cases r with
  | some entry =>
      obtain ⟨xs, b, ys, rfl, hfree, hfit, rfl⟩ := hfound entry rfl
      have haddr := hr.addr_lt (at_block xs b ys)
      obtain ⟨bs', hal⟩ := hr.allocate hfree hfit function line
      simp only [wrap64_of_lt (show kheapStart + total Block.size xs + headerSize debug < word by
        omega)] at hret
      cases hret
      exact ⟨bs', hal⟩
  | none =>
      obtain ⟨⟨blk, h1⟩, hkbrk, hret⟩ := Outcome.bind_eq_ret.mp hret
      obtain ⟨rfl, hbroken⟩ := kbrk_ret hkbrk
      have hlt : h.brk + (headerSize debug + size) < word := by
        refine add_lt_of_le_wrap64 hr.brk_lt hsize ?_
        rw [← hbroken.brk_eq]
        simp only at hret
        split at hret <;> cases hret
        · exact hbrk
        · rw [appendBlock_brk] at hbrk
          exact hbrk
      rw [wrap64_of_lt hlt] at hbroken
      have hblk : h.brk ≠ minusOne := by
        rw [minusOne]
        omega
      simp only [if_neg hblk, wrap64_of_lt (show h.brk + headerSize debug < word by omega)] at hret
      cases hret
      exact ⟨_, hr.allocate_append hbroken hlt function line, fun hc => hc.concat rfl⟩

/-- `_kmalloc` returns unless `kbrk` does not. -/
theorem kmalloc_ret_or_kbrk (hr : Rep debug h bs) (size function line : Nat) :
    (∃ r, h.kmalloc debug kernel size function line = .ret r) ∨
      ∀ r, h.kbrk kernel (wrap64 (headerSize debug + size)) ≠ .ret r := by
  obtain ⟨r, hfind, -⟩ := findFit_ret (wrap64 (headerSize debug + size)) hr.chain
    (by decide) hr.length_lt
  rw [← hr.start_eq] at hfind
  rw [Heap.kmalloc, hfind, Outcome.ret_bind]
  cases r with
  | some entry => exact .inl ⟨_, rfl⟩
  | none =>
      cases hk : h.kbrk kernel (wrap64 (headerSize debug + size)) with
      | ret r =>
          refine .inl ?_
          simp only [Outcome.ret_bind]
          split
          · exact ⟨_, rfl⟩
          · exact ⟨_, rfl⟩
      | _ => exact .inr nofun

/-- `_kmalloc` returns unless the break cannot be raised. -/
theorem kmalloc_returns (hr : Rep debug h bs) {size : Nat} (function line : Nat)
    (hsize : headerSize debug + size < word) :
    (∃ r, h.kmalloc debug kernel size function line = .ret r) ∨
      ∀ r, h.kbrk kernel (headerSize debug + size) ≠ .ret r := by
  rw [← wrap64_of_lt hsize]
  exact kmalloc_ret_or_kbrk hr size function line

/-! ## `kfree` -/

/-- The loop ends at a block that is not available. -/
theorem Rep.releaseTail_live (hr : Rep debug h (xs ++ [b])) {size fuel : Nat}
    (hl : b.live = some size) : h.releaseTail debug kernel (fuel + 1) = .ret h := by
  have hlast : h.last = kheapStart + total Block.size xs := by
    rw [hr.last_eq, lastAddr_concat]
  have hav : h.available h.last = 0 := by
    rw [hlast]
    exact hr.chain.header.available.trans (by rw [Block.available, hl]; rfl)
  rw [Heap.releaseTail, if_neg (fun hc => hc.2 hav)]

/-- The available blocks at the end are given back, and the loop ends. -/
theorem releaseTail_ret (kernel : Vspace) (hr : Rep debug h bs) {fuel : Nat}
    (hfuel : bs.length < fuel) :
    ∃ h' bs', h.releaseTail debug kernel fuel = .ret h' ∧ Settles debug h bs h' bs' ∧
      Trims debug h bs h' bs' ∧ (Separate bs → Coalesced bs') := by
  induction bs using List.reverseRecOn generalizing h fuel with
  | nil =>
      obtain ⟨fuel, rfl⟩ : ∃ f, fuel = f + 1 := ⟨fuel - 1, by simp at hfuel; omega⟩
      have hlast : h.last = 0 := hr.last_eq
      refine ⟨h, [], ?_, .refl hr, .refl h [], fun _ => .nil⟩
      rw [Heap.releaseTail, if_neg (fun hc => hc.1 hlast)]
  | append_singleton xs b ih =>
      rw [List.length_append, List.length_singleton] at hfuel
      obtain ⟨fuel, rfl⟩ : ∃ f, fuel = f + 1 := ⟨fuel - 1, by omega⟩
      cases hl : b.live with
      | none =>
          obtain ⟨h1, hstep, -, hmoves, hfreed, htrims⟩ := hr.release kernel hl fuel
          obtain ⟨h2, bs', hret, hq, htrims', hco⟩ :=
            ih hmoves.rep (show xs.length < fuel by omega)
          refine ⟨h2, bs', hstep.trans hret, Settles.trans ⟨⟨hmoves, fun c d => ?_⟩, hfreed⟩ hq,
            htrims.trans htrims', fun hs => hco (separate_append.mp hs).1⟩
          rw [liveAt_append, liveAt_cons_free hl]
          exact (or_iff_left not_liveAt_nil).symm
      | some size =>
          exact ⟨h, _, hr.releaseTail_live hl, .refl hr, .refl h _, fun hs => ⟨hs, by simp [hl]⟩⟩

/-- The merge with the block behind, if it is available. -/
theorem mergeNext_ret (hr : Rep debug h (xs ++ b :: ys)) (hfree : b.live = none) {a : Nat}
    (ha : a = kheapStart + total Block.size xs) :
    ∃ h' c ys', h.mergeNext debug a = .ret h' ∧ c.live = none ∧
      Settles debug h (xs ++ b :: ys) h' (xs ++ c :: ys') ∧
      Trims debug h (xs ++ b :: ys) h' (xs ++ c :: ys') ∧
      (Separate ys → Separate (c :: ys')) := by
  subst ha
  have hnext : h.next (kheapStart + total Block.size xs) =
      headAddr (kheapStart + total Block.size xs + b.size) 0 ys := hr.chain.header.next_eq
  rw [Heap.mergeNext, hnext]
  cases ys with
  | nil =>
      exact ⟨h, b, [], if_neg (fun hc => hc.1 rfl), hfree, .refl hr, .refl h _,
        fun _ => .singleton b⟩
  | cons c ys =>
      have hpos := kheapStart_pos (total Block.size xs + b.size)
      have hav : h.available (kheapStart + total Block.size xs + b.size) = c.available :=
        (chain_append.mp hr.chain).2.2.1.available
      rw [headAddr_cons, hav]
      cases hl : c.live with
      | none =>
          obtain ⟨h1, hret, hmoves, hfreed, htrims⟩ := hr.merge hfree
          refine ⟨h1, ⟨b.size + c.size, none⟩, ys, ?_, rfl, ⟨⟨hmoves, fun e d => ?_⟩, hfreed⟩,
            htrims, fun hs => hs.cons_congr (by simp [hl])⟩
          · rw [if_pos ⟨by omega, by rw [Block.available, hl]; decide⟩]
            exact hret
          · rw [liveAt_split_free rfl, liveAt_split_free hfree, liveAt_cons_free hl,
              Nat.add_assoc _ b.size]
      | some size =>
          refine ⟨h, b, c :: ys, if_neg (fun hc => hc.2 ?_), hfree, .refl hr, .refl h _,
            fun hs => .cons_cons (Or.inr (by simp [hl])) hs⟩
          rw [Block.available, hl]
          rfl

/-- The merge with the block in front, if it is available. -/
theorem mergePrev_ret (hr : Rep debug h (xs ++ b :: ys)) (hfree : b.live = none) {a : Nat}
    (ha : a = kheapStart + total Block.size xs) :
    ∃ h' bs', h.mergePrev debug a = .ret h' ∧ Settles debug h (xs ++ b :: ys) h' bs' ∧
      Trims debug h (xs ++ b :: ys) h' bs' ∧ (Separate xs → Separate (b :: ys) → Separate bs') := by
  subst ha
  have hprev : h.prev (kheapStart + total Block.size xs) =
      lastAddr Block.size kheapStart 0 xs := hr.chain.header.prev_eq
  rw [Heap.mergePrev, hprev]
  rcases List.eq_nil_or_concat' xs with rfl | ⟨zs, z, rfl⟩
  · exact ⟨h, _, if_neg (fun hc => hc.1 rfl), .refl hr, .refl h _, fun _ hs => hs⟩
  · rw [lastAddr_concat]
    have hr' : Rep debug h (zs ++ z :: b :: ys) := by simpa using hr
    have hav : h.available (kheapStart + total Block.size zs) = z.available :=
      hr'.chain.header.available
    rw [hav]
    cases hl : z.live with
    | none =>
        obtain ⟨h1, hret, hmoves, hfreed, htrims⟩ := hr'.merge hl
        have hsame : zs ++ [z] ++ b :: ys = zs ++ z :: b :: ys := by simp
        refine ⟨h1, zs ++ ⟨z.size + b.size, none⟩ :: ys, ?_,
          ⟨⟨by rw [hsame]; exact hmoves, fun e d => ?_⟩, by rw [hsame]; exact hfreed⟩,
          by rw [hsame]; exact htrims, fun hxs hs => ?_⟩
        · have haddr : kheapStart + total Block.size (zs ++ [z]) =
              kheapStart + total Block.size zs + z.size := by
            rw [total_append, total_cons, total_nil]
            omega
          rw [haddr, if_pos ⟨kheapStart_pos _, by rw [Block.available, hl]; decide⟩]
          exact hret
        · rw [hsame, liveAt_split_free rfl, liveAt_split_free hl, liveAt_cons_free hfree,
            Nat.add_assoc _ z.size]
        · exact separate_split.mpr
            ⟨hxs.concat_congr (by simp [hl]), hs.cons_congr (by simp [hfree])⟩
    | some size =>
        have hav : z.available = 0 := by
          rw [Block.available, hl]
          rfl
        refine ⟨h, _, if_neg (fun hc => hc.2 hav), .refl hr, .refl h _, fun hxs hs => ?_⟩
        refine separate_append.mpr ⟨hxs, hs, fun c hc _ _ => Or.inl ?_⟩
        obtain rfl : z = c := by simpa using hc
        simp [hl]

/-- A block was released: every other live block still is live, and no byte of its
payload was written. -/
structure Releases (debug : Bool) (h : Heap) (bs : List Block) (a : Nat) (h' : Heap)
    (bs' : List Block) : Prop where
  rep : Rep debug h' bs'
  live_iff : ∀ c d, LiveAt kheapStart bs' c d ↔ LiveAt kheapStart bs c d ∧ c ≠ a
  keeps : ∀ x, InPayload debug bs' x → h'.mem x = h.mem x

/-- A block was released, and this and what was freed before is known to be free. -/
structure Frees (debug : Bool) (h : Heap) (bs : List Block) (a : Nat) (h' : Heap)
    (bs' : List Block) : Prop extends Releases debug h bs a h' bs' where
  freed : Freed debug h' bs' a
  keeps_freed : KeepsFreed debug h bs h' bs'

/-- Merging blocks does not touch the frames or the break. -/
theorem mergeBlocks_phys {first second : Nat} (hret : h.mergeBlocks debug first second = .ret h') :
    h'.phys = h.phys ∧ h'.brk = h.brk := by
  rw [Heap.mergeBlocks] at hret
  split at hret
  · cases hret
  · cases hret
    simp only [Heap.setMagic]
    split <;> exact ⟨rfl, rfl⟩

theorem mergeNext_phys {tofree : Nat} (hret : h.mergeNext debug tofree = .ret h') :
    h'.phys = h.phys ∧ h'.brk = h.brk := by
  rw [Heap.mergeNext] at hret
  split at hret
  · exact mergeBlocks_phys hret
  · cases hret
    exact ⟨rfl, rfl⟩

theorem mergePrev_phys {tofree : Nat} (hret : h.mergePrev debug tofree = .ret h') :
    h'.phys = h.phys ∧ h'.brk = h.brk := by
  rw [Heap.mergePrev] at hret
  split at hret
  · exact mergeBlocks_phys hret
  · cases hret
    exact ⟨rfl, rfl⟩

/-- The last block is not in front of another one, and its header ends before the break. -/
theorem Rep.last_bounds (hr : Rep debug h bs) {a : Nat} (hb : At Block.size kheapStart bs a b) :
    a ≤ h.last ∧ h.last + headerSize debug < word := by
  have hH := headerSize_bounds debug
  have haddr := hr.addr_lt hb
  obtain ⟨xs, ys, rfl, ha⟩ := hb
  have hge := hr.chain.size_ge b (by simp)
  have hbrk := hr.brk_eq
  have hlt := hr.brk_lt
  rw [hr.last_eq]
  rcases List.eq_nil_or_concat' ys with rfl | ⟨zs, z, rfl⟩
  · rw [lastAddr_concat]
    omega
  · have hz := hr.chain.size_ge z (by simp)
    rw [← List.cons_append, ← List.append_assoc] at hbrk ⊢
    rw [lastAddr_concat]
    simp only [total_append, total_cons, total_nil] at hbrk ⊢
    omega

/-- A block was marked: the others are live as before. -/
theorem Rep.liveAt_release (hr : Rep debug h (xs ++ b :: ys)) {size a : Nat}
    (hl : b.live = some size) (ha : a = kheapStart + total Block.size xs) (e : Nat) (d : Block) :
    LiveAt kheapStart (xs ++ ⟨b.size, none⟩ :: ys) e d ↔
      LiveAt kheapStart (xs ++ b :: ys) e d ∧ e ≠ a := by
  have hH := headerSize_bounds debug
  have hge := hr.chain.size_ge b (by simp)
  rw [liveAt_split_free rfl, liveAt_split_live hl, ← ha]
  constructor
  · rintro (hx | hy)
    · have h1 := hx.1.bounds.2
      have h2 := hr.chain.size_ge d (List.mem_append_left _ hx.1.mem)
      exact ⟨.inl hx, by omega⟩
    · have h1 := hy.1.bounds.1
      exact ⟨.inr (.inl hy), by simp only at h1; omega⟩
  · rintro ⟨hx | hy | ⟨he, -⟩, hne⟩
    · exact .inl hx
    · exact .inr hy
    · exact absurd he hne

/-- `kfree` of a live block passes its checks. -/
theorem kfree_checked (kernel : Vspace) (hr : Rep debug h bs) {a : Nat}
    (hlive : LiveAt kheapStart bs a b) :
    h.kfree debug kernel (a + headerSize debug) = (do
      let h2 ← (h.setAvailable a 1).mergeNext debug a
      let h3 ← h2.mergePrev debug a
      h3.releaseTail debug kernel word) := by
  have hH := headerSize_bounds debug
  have haddr := hr.addr_lt hlive.1
  have hlast := hr.last_bounds hlive.1
  obtain ⟨⟨xs, ys, rfl, ha⟩, hb⟩ := hlive
  obtain ⟨size, hl⟩ := Option.isSome_iff_exists.mp hb
  have hge := hr.chain.size_ge b (by simp)
  have hpos : kheapStart ≤ a := by omega
  have hstart : h.start = kheapStart := by
    rw [hr.start_eq]
    cases xs <;> rfl
  have hks : kheapStart ≠ 0 := by decide
  have hd := hr.chain.header
  rw [← ha] at hd
  have hmagic : h.magic a = heapMagic := hd.magic
  have hav : h.available a = 0 := hd.available.trans (by rw [Block.available, hl]; rfl)
  have hrange : ¬ (h.last = 0 ∨ h.start = 0 ∨ a + headerSize debug < h.start ∨
      a + headerSize debug > wrap64 (h.last + headerSize debug)) := by
    rw [hstart, wrap64_of_lt hlast.2]
    omega
  have htofree : wrap64 (a + headerSize debug + (word - headerSize debug)) = a := by
    rw [wrap64_sub (by omega) (by omega)]
    omega
  rw [Heap.kfree, if_neg (by omega), if_neg hrange, htofree]
  simp only [hmagic, hav]
  rw [if_neg (by simp)]

/-- Marking a block writes to its header. -/
theorem trims_mark (h : Heap) (xs : List Block) (b : Block) (ys : List Block) :
    Trims debug h (xs ++ b :: ys) (h.setAvailable (kheapStart + total Block.size xs) 1)
      (xs ++ ⟨b.size, none⟩ :: ys) := by
  have hH := headerSize_bounds debug
  have hmem : ∀ x, ¬ InHeader debug (xs ++ b :: ys) x →
      (h.setAvailable (kheapStart + total Block.size xs) 1).mem x = h.mem x := by
    intro x hx
    have hout := not_inHeader_split xs b ys hx
    exact store_of_not_mem (by omega)
  refine ⟨Nat.le_refl _, fun x hx => ?_, fun x _ => hmem x, fun x hx => .inl (hmem x hx),
    fun n hn d hd => ?_⟩
  · obtain ⟨c, d, hd, h1, h2⟩ := hx
    rcases at_append.mp hd with hxs | hrest
    · exact ⟨c, d, at_append.mpr (.inl hxs), h1, h2⟩
    rcases at_cons.mp hrest with ⟨rfl, rfl⟩ | hys
    · exact ⟨_, b, at_block xs b ys, h1, h2⟩
    · exact ⟨c, d, at_append.mpr (.inr (at_cons.mpr (.inr hys))), h1, h2⟩
  · rcases List.mem_append.mp hd with hxs | hrest
    · exact hn d (List.mem_append_left _ hxs)
    rcases List.mem_cons.mp hrest with rfl | hys
    · exact hn b (by simp)
    · exact hn d (by simp [hys])

/-- `kfree` of a live block marks and merges it before the loop is run. -/
theorem kfree_merged (kernel : Vspace) (hr : Rep debug h bs) {a : Nat}
    (hlive : LiveAt kheapStart bs a b) :
    ∃ h' bs', h.kfree debug kernel (a + headerSize debug) = h'.releaseTail debug kernel word ∧
      Frees debug h bs a h' bs' ∧ Trims debug h bs h' bs' ∧ h'.phys = h.phys ∧ h'.brk = h.brk ∧
      (Separate bs → Separate bs') := by
  have hfree := kfree_checked kernel hr hlive
  obtain ⟨⟨xs, ys, rfl, ha⟩, hb⟩ := hlive
  obtain ⟨size, hl⟩ := Option.isSome_iff_exists.mp hb
  obtain ⟨h1, hh1⟩ : ∃ h1, h1 = h.setAvailable a 1 := ⟨_, rfl⟩
  have hmark : Moves debug h (xs ++ b :: ys) h1 (xs ++ ⟨b.size, none⟩ :: ys) := by
    rw [hh1, ha]
    exact hr.setAvailable none rfl
  have hfreed : Freed debug h1 (xs ++ ⟨b.size, none⟩ :: ys) a ∧
      KeepsFreed debug h (xs ++ b :: ys) h1 (xs ++ ⟨b.size, none⟩ :: ys) := by
    rw [hh1, ha]
    exact hr.freed_mark (hr.setAvailable none rfl).rep
  obtain ⟨h2, c, ys', hnext, hc, hq2, ht2, hs2⟩ := mergeNext_ret hmark.rep rfl ha
  obtain ⟨h3, bs3, hprev, hq3, ht3, hs3⟩ := mergePrev_ret hq2.moves.rep hc ha
  have hq := hq2.trans hq3
  rw [← hh1, hnext, Outcome.ret_bind, hprev, Outcome.ret_bind] at hfree
  have hiff : ∀ e d, LiveAt kheapStart bs3 e d ↔ LiveAt kheapStart (xs ++ b :: ys) e d ∧ e ≠ a :=
    fun e d => (hq.live_iff e d).trans (hr.liveAt_release hl ha e d)
  obtain ⟨hphys2, hbrk2⟩ := mergeNext_phys hnext
  obtain ⟨hphys3, hbrk3⟩ := mergePrev_phys hprev
  refine ⟨h3, bs3, hfree, ⟨⟨hq.moves.rep, hiff, fun x hx => ?_⟩, hq.freed a hfreed.1,
    fun e he => hq.freed e (hfreed.2 e he)⟩, ?_, ?_, ?_, fun hs => ?_⟩
  · have hx1 := hx.mono fun c d hl => (hq.live_iff c d).mp hl
    have hx0 := hx.mono fun c d hl => ((hiff c d).mp hl).1
    rw [hq.moves.keeps x hx1 hx, hmark.keeps x hx0 hx1]
  · rw [hh1, ha] at ht2
    exact (trims_mark h xs b ys).trans (ht2.trans ht3)
  · rw [hphys3, hphys2, hh1]
    rfl
  · rw [hbrk3, hbrk2, hh1]
    rfl
  · obtain ⟨hxs, hys, -⟩ := separate_append.mp hs
    exact hs3 hxs (hs2 hys.tail)

/-- `kfree` of a live block returns. -/
theorem kfree_ret (kernel : Vspace) (hr : Rep debug h bs) {a : Nat}
    (hlive : LiveAt kheapStart bs a b) :
    ∃ h' bs', h.kfree debug kernel (a + headerSize debug) = .ret h' ∧
      Frees debug h bs a h' bs' ∧ Trims debug h bs h' bs' ∧ (Separate bs → Coalesced bs') := by
  obtain ⟨h1, bs1, hfree, hrel, ht1, -, -, hs1⟩ := kfree_merged kernel hr hlive
  obtain ⟨h2, bs2, htail, hq, ht2, hco⟩ := releaseTail_ret kernel hrel.rep hrel.rep.length_lt
  refine ⟨h2, bs2, hfree.trans htail, ⟨⟨hq.moves.rep, fun c d => ?_, fun x hx => ?_⟩,
    hq.freed a hrel.freed, fun e he => hq.freed e (hrel.keeps_freed e he)⟩, ht1.trans ht2,
    fun hs => hco (hs1 hs)⟩
  · rw [hq.live_iff, hrel.live_iff]
  · have hx1 := hx.mono fun c d hl => (hq.live_iff c d).mp hl
    rw [hq.moves.keeps x hx1 hx, hrel.keeps x hx1]

end UlmerOS
