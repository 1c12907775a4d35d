import UlmerOS.Arch.VspaceRefine
import UlmerOS.Mm.HeapInv

/-!
# Runs of the heap

A run starts with the empty heap.  `_kmalloc` hands out a pointer, `kfree` takes one
back that was handed out and not freed since, and in between the owners of live
blocks write to the bytes they asked for, and frames come and go.

`kheap_representation` is about the state after any run: the blocks tile the heap,
live payloads are apart, and no further call writes to one.
-/

namespace UlmerOS

open ByteMem Tiling Transition

variable {debug : Bool} {kernel : Vspace}

/-- The heap, and the pointers that are live with the sizes that were asked for. -/
structure HeapState where
  heap : Heap
  live : Nat → Option Nat

/-- Before the first call. -/
def HeapState.empty (mem : Mem) (phys : PhysMem) : HeapState where
  heap := { mem := mem, brk := kheapStart, start := 0, last := 0, phys := phys }
  live := fun _ => none

/-- What happens to a heap. -/
inductive HeapCall where
  /-- `_kmalloc(size)` returned `ptr`. -/
  | kmalloc (size ptr : Nat)
  /-- `kfree(ptr)` returned. -/
  | kfree (ptr : Nat)
  /-- Live payloads were written to. -/
  | use

/-- The byte is one that the owner of a live block may write. -/
def HeapState.Owned (s : HeapState) (x : Nat) : Prop :=
  ∃ p r, s.live p = some r ∧ p ≤ x ∧ x < p + r

/-- The calls.  Neither the size of a block nor the break wraps around. -/
inductive HeapStep (debug : Bool) (kernel : Vspace) : HeapState → HeapCall → HeapState → Prop where
  | kmalloc {s : HeapState} {h : Heap} {size function line ptr : Nat} :
      headerSize debug + size < word →
      s.heap.kmalloc debug kernel size function line = .ret (ptr, h) → s.heap.brk ≤ h.brk →
      HeapStep debug kernel s (.kmalloc size ptr) ⟨h, Function.update s.live ptr (some size)⟩
  | kfree {s : HeapState} {h : Heap} {ptr : Nat} :
      s.live ptr ≠ none → s.heap.kfree debug kernel ptr = .ret h →
      HeapStep debug kernel s (.kfree ptr) ⟨h, Function.update s.live ptr none⟩
  | use {s : HeapState} {mem : Mem} {phys : PhysMem} :
      (∀ x, ¬ s.Owned x → mem x = s.heap.mem x) →
      HeapStep debug kernel s .use ⟨{ s.heap with mem := mem, phys := phys }, s.live⟩

/-! ## The invariant -/

/-- The heap stands for `bs`, and the live pointers are those of the live blocks. -/
structure HeapInv (debug : Bool) (s : HeapState) (bs : List Block) : Prop where
  rep : Rep debug s.heap bs
  live_iff : ∀ p r, s.live p = some r ↔
    ∃ a b, LiveAt kheapStart bs a b ∧ b.live = some r ∧ p = a + headerSize debug
  fits : ∀ a b r, LiveAt kheapStart bs a b → b.live = some r → r + headerSize debug ≤ b.size

namespace HeapInv

variable {s s' : HeapState} {bs : List Block}

/-- The bytes of a live pointer are in the payload of its block. -/
theorem inPayload (hinv : HeapInv debug s bs) {p r x : Nat} (hp : s.live p = some r)
    (h1 : p ≤ x) (h2 : x < p + r) : InPayload debug bs x := by
  obtain ⟨a, b, hl, hr, rfl⟩ := (hinv.live_iff p r).mp hp
  have hfit := hinv.fits a b r hl hr
  exact ⟨a, b, hl, h1, by omega⟩

/-- A live pointer is that of a live block. -/
theorem liveAt (hinv : HeapInv debug s bs) {p : Nat} (hp : s.live p ≠ none) :
    ∃ a b, p = a + headerSize debug ∧ LiveAt kheapStart bs a b := by
  obtain ⟨r, hr⟩ := Option.ne_none_iff_exists'.mp hp
  obtain ⟨a, b, hl, -, rfl⟩ := (hinv.live_iff p r).mp hr
  exact ⟨a, b, rfl, hl⟩

theorem kmalloc (hinv : HeapInv debug s bs) {size ptr : Nat} {h : Heap} {bs' : List Block}
    (hal : Allocates debug s.heap bs size ptr h bs') :
    HeapInv debug ⟨h, Function.update s.live ptr (some size)⟩ bs' := by
  obtain ⟨a, b, rfl, hb, hfit, hnot, hiff⟩ := hal.block
  refine ⟨hal.rep, fun p r => ?_, fun c d r hl hr => ?_⟩
  · simp only
    by_cases hp : p = a + headerSize debug
    · subst hp
      rw [Function.update_self]
      constructor
      · intro hr
        obtain rfl := Option.some.inj hr
        exact ⟨a, b, (hiff a b).mpr (.inr ⟨rfl, rfl⟩), hb, rfl⟩
      · rintro ⟨c, d, hl, hr, hc⟩
        obtain rfl : a = c := by omega
        rcases (hiff a d).mp hl with hl' | ⟨-, rfl⟩
        · exact absurd hl' (hnot d)
        · rw [← hb, hr]
    · rw [Function.update_of_ne hp, hinv.live_iff]
      constructor
      · rintro ⟨c, d, hl, hr, hc⟩
        exact ⟨c, d, (hiff c d).mpr (.inl hl), hr, hc⟩
      · rintro ⟨c, d, hl, hr, hc⟩
        rcases (hiff c d).mp hl with hl' | ⟨rfl, -⟩
        · exact ⟨c, d, hl', hr, hc⟩
        · exact absurd hc hp
  · rcases (hiff c d).mp hl with hl' | ⟨-, rfl⟩
    · exact hinv.fits c d r hl' hr
    · rw [hb] at hr
      obtain rfl := Option.some.inj hr
      exact hfit

theorem kfree (hinv : HeapInv debug s bs) {a : Nat} {h : Heap} {bs' : List Block}
    (hrel : Releases debug s.heap bs a h bs') :
    HeapInv debug ⟨h, Function.update s.live (a + headerSize debug) none⟩ bs' := by
  refine ⟨hrel.rep, fun p r => ?_, fun c d r hl hr => ?_⟩
  · simp only
    by_cases hp : p = a + headerSize debug
    · subst hp
      rw [Function.update_self]
      refine ⟨nofun, ?_⟩
      rintro ⟨c, d, hl, -, hc⟩
      exact absurd (show c = a by omega) ((hrel.live_iff c d).mp hl).2
    · rw [Function.update_of_ne hp, hinv.live_iff]
      constructor
      · rintro ⟨c, d, hl, hr, hc⟩
        exact ⟨c, d, (hrel.live_iff c d).mpr ⟨hl, by rintro rfl; exact hp hc⟩, hr, hc⟩
      · rintro ⟨c, d, hl, hr, hc⟩
        exact ⟨c, d, ((hrel.live_iff c d).mp hl).1, hr, hc⟩
  · exact hinv.fits c d r ((hrel.live_iff c d).mp hl).1 hr

/-- `kfree` of a live pointer returns. -/
theorem kfree_live (kernel : Vspace) (hinv : HeapInv debug s bs) {p : Nat} (hp : s.live p ≠ none) :
    ∃ a h bs', p = a + headerSize debug ∧ s.heap.kfree debug kernel p = .ret h ∧
      Frees debug s.heap bs a h bs' ∧ HeapInv debug ⟨h, Function.update s.live p none⟩ bs' ∧
      (Separate bs → Coalesced bs') := by
  obtain ⟨a, b, rfl, hl⟩ := hinv.liveAt hp
  obtain ⟨h, bs', hret, hfrees, -, hco⟩ := kfree_ret kernel hinv.rep hl
  exact ⟨a, h, bs', rfl, hret, hfrees, hinv.kfree hfrees.toReleases, hco⟩

end HeapInv

/-- A chain is in its headers. -/
theorem Chain.congr_headers {mem mem' : Mem} {prev base next : Nat} {bs : List Block}
    (h : Chain debug mem prev base bs next)
    (hmem : ∀ a b x, At Block.size base bs a b → a ≤ x → x < a + headerSize debug →
      mem' x = mem x) : Chain debug mem' prev base bs next := by
  induction bs generalizing prev base with
  | nil => trivial
  | cons b bs ih =>
      refine ⟨h.1.congr fun x h1 h2 => hmem base b x (at_cons.mpr (.inl ⟨rfl, rfl⟩)) h1 h2, ?_⟩
      exact ih h.2 fun a c x hc h1 h2 => hmem a c x (at_cons.mpr (.inr hc)) h1 h2

/-- Writing to live payloads keeps the invariant. -/
theorem HeapInv.use {s : HeapState} {bs : List Block} (hinv : HeapInv debug s bs) {mem : Mem}
    {phys : PhysMem} (hmem : ∀ x, ¬ s.Owned x → mem x = s.heap.mem x) :
    HeapInv debug ⟨{ s.heap with mem := mem, phys := phys }, s.live⟩ bs := by
  have hr := hinv.rep
  refine ⟨⟨hr.start_eq, hr.last_eq, hr.brk_eq, hr.brk_lt, ?_⟩, hinv.live_iff, hinv.fits⟩
  refine hr.chain.congr_headers fun a b x hb h1 h2 => hmem x ?_
  rintro ⟨p, r, hp, h3, h4⟩
  exact hr.payload_not_header (hinv.inPayload hp h3 h4) ⟨a, b, hb, h1, h2⟩

/-- One call keeps the invariant, and writes to no payload that is live before and after. -/
theorem heapStep_inv {s s' : HeapState} {bs : List Block} {call : HeapCall}
    (hinv : HeapInv debug s bs) (h : HeapStep debug kernel s call s') :
    ∃ bs', HeapInv debug s' bs' ∧ (Coalesced bs → Coalesced bs') ∧
      (call ≠ .use → ∀ p r x, s.live p = some r → s'.live p = some r →
        p ≤ x → x < p + r → s'.heap.mem x = s.heap.mem x) := by
  cases h with
  | kmalloc hsize hret hbrk =>
      obtain ⟨bs', hal, hco⟩ := kmalloc_ret hinv.rep hsize hret hbrk
      exact ⟨bs', hinv.kmalloc hal, hco,
        fun _ p r x hp _ h1 h2 => hal.keeps x (hinv.inPayload hp h1 h2)⟩
  | kfree hlive hret =>
      obtain ⟨a, h', bs', rfl, hret', hfrees, hinv', hco⟩ := hinv.kfree_live kernel hlive
      rw [hret'] at hret
      cases hret
      refine ⟨bs', hinv', fun hc => hco hc.separate, fun _ p r x _ hp h1 h2 => hfrees.keeps x ?_⟩
      exact hinv'.inPayload hp h1 h2
  | use hmem => exact ⟨bs, hinv.use hmem, id, fun hne => absurd rfl hne⟩

theorem HeapInv.empty (mem : Mem) (phys : PhysMem) :
    HeapInv debug (HeapState.empty mem phys) [] := by
  refine ⟨⟨rfl, rfl, rfl, show kheapStart < word by decide, trivial⟩, fun p r => ⟨nofun, ?_⟩, ?_⟩
  · rintro ⟨a, b, ⟨⟨xs, ys, hnil, -⟩, -⟩, -⟩
    exact absurd hnil (by simp)
  · rintro a b r ⟨⟨xs, ys, hnil, -⟩, -⟩
    exact absurd hnil (by simp)

/-- After every run the heap keeps its shape. -/
theorem heapRun_inv {mem : Mem} {phys : PhysMem} {calls : List HeapCall} {s : HeapState}
    (hrun : Run (HeapStep debug kernel) (HeapState.empty mem phys) calls s) :
    ∃ bs, HeapInv debug s bs ∧ Coalesced bs :=
  Run.invariant (P := fun s => ∃ bs, HeapInv debug s bs ∧ Coalesced bs)
    (fun _ _ _ ⟨_, hinv, hco⟩ hst => (heapStep_inv hinv hst).imp fun _ h => ⟨h.1, h.2.1 hco⟩)
    ⟨[], .empty mem phys, .nil⟩ hrun

/-- **The representation invariant of the kernel heap.**  After every run the heap
stands for a list of blocks that tile it.  Live payloads are as large as was asked
for, lie in their blocks, and are apart from each other and from every header.  No
further call of `_kmalloc` or `kfree` writes to a payload that stays live.  `kfree`
of a live pointer returns, and `_kmalloc` does unless the break cannot be raised. -/
theorem kheap_representation {mem : Mem} {phys : PhysMem} {calls : List HeapCall} {s : HeapState}
    (hrun : Run (HeapStep debug kernel) (HeapState.empty mem phys) calls s) :
    ∃ bs, Rep debug s.heap bs ∧
      (∀ p r, s.live p = some r → ∃ a b, At Block.size kheapStart bs a b ∧
        p = a + headerSize debug ∧ p + r ≤ a + b.size) ∧
      (∀ p q r t, s.live p = some r → s.live q = some t → p ≠ q → p + r ≤ q ∨ q + t ≤ p) ∧
      (∀ x, s.Owned x → ¬ InHeader debug bs x) ∧
      (∀ call s', HeapStep debug kernel s call s' → call ≠ .use → ∀ p r x, s.live p = some r →
        s'.live p = some r → p ≤ x → x < p + r → s'.heap.mem x = s.heap.mem x) ∧
      (∀ p, s.live p ≠ none → ∃ h, s.heap.kfree debug kernel p = .ret h) ∧
      (∀ size function line, headerSize debug + size < word →
        (∃ r, s.heap.kmalloc debug kernel size function line = .ret r) ∨
          ∀ r, s.heap.kbrk kernel (headerSize debug + size) ≠ .ret r) := by
  obtain ⟨bs, hinv, -⟩ := heapRun_inv hrun
  refine ⟨bs, hinv.rep, fun p r hp => ?_, fun p q r t hp hq hne => ?_, fun x hx => ?_,
    fun call s' hst hcall => ?_, fun p hp => ?_, fun size function line hsize => ?_⟩
  · obtain ⟨a, b, hl, hr, rfl⟩ := (hinv.live_iff p r).mp hp
    have hfit := hinv.fits a b r hl hr
    exact ⟨a, b, hl.1, rfl, by omega⟩
  · obtain ⟨a, b, hl, hr, rfl⟩ := (hinv.live_iff p r).mp hp
    obtain ⟨c, d, hl', hr', rfl⟩ := (hinv.live_iff q t).mp hq
    have hfit := hinv.fits a b r hl hr
    have hfit' := hinv.fits c d t hl' hr'
    rcases hl.1.disjoint hl'.1 with ⟨rfl, -⟩ | hd | hd
    · exact absurd rfl hne
    · exact .inl (by omega)
    · exact .inr (by omega)
  · obtain ⟨p, r, hp, h1, h2⟩ := hx
    exact hinv.rep.payload_not_header (hinv.inPayload hp h1 h2)
  · obtain ⟨_, -, -, hkeep⟩ := heapStep_inv hinv hst
    exact hkeep hcall
  · obtain ⟨-, h', -, -, hret, -⟩ := hinv.kfree_live kernel hp
    exact ⟨h', hret⟩
  · exact kmalloc_returns hinv.rep function line hsize

/-- Two blocks of the debug build. -/
theorem two_blocks_run : ∃ h, Run (HeapStep true ⟨0⟩) (HeapState.empty (fun _ => 0) emptyMachine)
    [.kmalloc 72 (kheapStart + 44), .kmalloc 100 (kheapStart + 160)]
    ⟨h, Function.update (Function.update (fun _ => none) (kheapStart + 44) (some 72))
      (kheapStart + 160) (some 100)⟩ := by
  obtain ⟨h0, hh0⟩ : ∃ h0, h0 = HeapState.empty (fun _ => 0) emptyMachine := ⟨_, rfl⟩
  have hcompute : (do
      let placed1 ← h0.heap.kmalloc true ⟨0⟩ 72 1 1
      let placed2 ← placed1.2.kmalloc true ⟨0⟩ 100 1 2
      .ret (placed1.1, placed2.1, placed1.2.brk, placed2.2.brk)) =
        Outcome.ret (kheapStart + 44, kheapStart + 160, kheapStart + 116, kheapStart + 260) := by
    rw [hh0]
    decide +kernel
  obtain ⟨⟨p, h1⟩, hm1, hrest⟩ := Outcome.bind_eq_ret.mp hcompute
  obtain ⟨⟨q, h2⟩, hm2, hrest⟩ := Outcome.bind_eq_ret.mp hrest
  simp only [Outcome.ret.injEq, Prod.mk.injEq] at hrest
  obtain ⟨rfl, rfl, hb1, hb2⟩ := hrest
  have hnone : (fun _ => none : Nat → Option Nat) = h0.live := by
    rw [hh0]
    rfl
  refine ⟨h2, ?_⟩
  rw [← hh0, hnone]
  refine .cons (.kmalloc (by decide) hm1 ?_) (.cons (.kmalloc (by decide) hm2 ?_) .nil)
  · rw [hh0, hb1]
    decide
  · simp only [hb1, hb2]
    decide

/-- Two blocks of the debug build, and the first of them freed. -/
theorem kheap_representation_two_blocks : ∃ s : HeapState,
    s.live (kheapStart + 160) = some 100 ∧ s.live (kheapStart + 44) = none ∧
      ∃ bs, Rep true s.heap bs := by
  obtain ⟨h2, hrun⟩ := two_blocks_run
  obtain ⟨bs0, hinv, -⟩ := heapRun_inv hrun
  obtain ⟨-, h3, -, -, hret, -⟩ := hinv.kfree_live ⟨0⟩ (p := kheapStart + 44) (by simp)
  obtain ⟨bs, hrep, -⟩ := kheap_representation (hrun.append (.cons (.kfree (by simp) hret) .nil))
  exact ⟨_, by simp, by simp, bs, hrep⟩

end UlmerOS
