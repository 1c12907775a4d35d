import UlmerOS.Lib.ByteMem
import UlmerOS.Mm.PageBitmap

/-!
# Page frames

`kernel/mm/page.c`.  Physical memory is an array of bytes, in frames of 4096.
`alloc_page` takes the first frame whose bit in `free_pages` is clear and zeroes
it, `free_page` clears the bit of a frame.

The bitmap is that of the boot stage (`arch/x86_64/boot32/mmap.c`), where pages are
counted in a 32 bit `size_t`.  `FreePages` carries this.

The assertions of `free_page` are those of the debug build.  The release build,
which is modelled, ignores a frame out of bounds and clears a bit that may be
clear already.  `calls` records the calls made so far.  No function reads it.
-/

namespace UlmerOS

open ByteMem

/-- The bitmap `free_pages` of the boot stage. -/
structure FreePages extends PageBitmap where
  small : bmp.size ≤ 2 ^ 32

/-- A call of the frame allocator. -/
inductive PageCall where
  /-- `alloc_page()` returned this frame. -/
  | alloc (ppn : Nat)
  /-- `free_page(page)` was called on this frame. -/
  | free (page : Nat)
deriving DecidableEq, Repr

/-- Physical memory and the frame allocator. -/
structure PhysMem where
  ram : Mem
  freePages : FreePages
  calls : List PageCall

namespace FreePages

/-- The frames there are. -/
def size (fp : FreePages) : Nat := fp.bmp.size

/-- The frame can be handed out. -/
def Free (fp : FreePages) (f : Nat) : Prop := f < fp.size ∧ bitmapGet fp.bmp f = false

/-- The frame is marked used in the bitmap. -/
def Used (fp : FreePages) (f : Nat) : Prop := f < fp.size ∧ bitmapGet fp.bmp f = true

instance (fp : FreePages) (f : Nat) : Decidable (fp.Free f) :=
  inferInstanceAs (Decidable (_ ∧ _))

instance (fp : FreePages) (f : Nat) : Decidable (fp.Used f) :=
  inferInstanceAs (Decidable (_ ∧ _))

/-- `bitmap_set(&free_pages, ppn)`. -/
def set (fp : FreePages) (ppn : Nat) (h : ppn < fp.size) : FreePages where
  toPageBitmap := fp.toPageBitmap.set ppn h
  small := fp.small

/-- `bitmap_clr(&free_pages, page)`. -/
def clr (fp : FreePages) (page : Nat) (h : page < fp.size) : FreePages where
  toPageBitmap := fp.toPageBitmap.clr page h
  small := fp.small

@[simp] theorem set_size (fp : FreePages) {p : Nat} (h : p < fp.size) :
    (fp.set p h).size = fp.size := rfl
@[simp] theorem clr_size (fp : FreePages) {p : Nat} (h : p < fp.size) :
    (fp.clr p h).size = fp.size := rfl

theorem free_set (fp : FreePages) {p f : Nat} (h : p < fp.size) :
    (fp.set p h).Free f ↔ fp.Free f ∧ f ≠ p :=
  fp.toPageBitmap.free_set h

theorem free_clr (fp : FreePages) {p f : Nat} (h : p < fp.size) :
    (fp.clr p h).Free f ↔ fp.Free f ∨ f = p :=
  fp.toPageBitmap.free_clr h

/-- A frame is used exactly if it is one and not free. -/
theorem used_iff (fp : FreePages) {f : Nat} : fp.Used f ↔ f < fp.size ∧ ¬ fp.Free f :=
  fp.toPageBitmap.mem_used

/-- What the search of the bitmap finds is a free frame. -/
theorem find_free (fp : FreePages) {p : Nat} (h : bitmapFindFree fp.bmp = some p) :
    fp.Free p :=
  fp.toPageBitmap.find_free h

end FreePages

/-- `alloc_page`. -/
def allocPage (m : PhysMem) : Outcome (Nat × PhysMem) :=
  match h : bitmapFindFree m.freePages.bmp with
  | none => .panic "alloc_page() out of memory"
  | some ppn =>
      .ret (ppn, { ram := fill m.ram (pageSize * ppn) pageSize 0,
                   freePages := m.freePages.set ppn (m.freePages.find_free h).1,
                   calls := .alloc ppn :: m.calls })

/-- `free_page`. -/
def freePage (m : PhysMem) (page : Nat) : PhysMem :=
  if h : page < m.freePages.size then
    { m with freePages := m.freePages.clr page h, calls := .free page :: m.calls }
  else { m with calls := .free page :: m.calls }

namespace PhysMem

/-- The frame can be handed out by `alloc_page`. -/
abbrev Free (m : PhysMem) (f : Nat) : Prop := m.freePages.Free f

/-- The frames there are. -/
abbrev size (m : PhysMem) : Nat := m.freePages.size

end PhysMem

/-! ## What the two calls do -/

/-- `alloc_page` does to the bitmap what it does without the memory. -/
theorem allocPage_bitmap (m : PhysMem) :
    m.freePages.toPageBitmap.allocPage =
      (do
        let (p, m') ← allocPage m
        .ret (p, m'.freePages.toPageBitmap)) := by
  obtain ⟨r, hr⟩ : ∃ r, allocPage m = r := ⟨_, rfl⟩
  rw [hr, PageBitmap.allocPage]
  rw [allocPage] at hr
  split
  · rename_i hnone
    split at hr
    · subst hr
      rfl
    · rename_i hsome
      exact absurd (hnone.symm.trans hsome) (by simp)
  · rename_i p hp
    split at hr
    · rename_i hnone
      exact absurd (hp.symm.trans hnone) (by simp)
    · rename_i q hq
      subst hr
      obtain rfl := Option.some.inj (hp.symm.trans hq)
      rfl

theorem freePage_bitmap (m : PhysMem) (p : Nat) :
    (freePage m p).freePages.toPageBitmap = m.freePages.toPageBitmap.freePage p := by
  rw [PageBitmap.freePage, freePage]
  split
  · rename_i h
    rw [dif_pos (show p < m.freePages.toPageBitmap.size from h)]
    rfl
  · rename_i h
    rw [dif_neg (show ¬ p < m.freePages.toPageBitmap.size from h)]

/-- A frame that was allocated was free, and it is the only one that is not free any more. -/
structure Allocated (m : PhysMem) (p : Nat) (m' : PhysMem) : Prop where
  free : m.Free p
  free_iff : ∀ f, m'.Free f ↔ m.Free f ∧ f ≠ p
  size_eq : m'.size = m.size
  ram_eq : m'.ram = fill m.ram (pageSize * p) pageSize 0
  calls_eq : m'.calls = .alloc p :: m.calls

theorem allocPage_ret {m m' : PhysMem} {p : Nat} (h : allocPage m = .ret (p, m')) :
    Allocated m p m' := by
  rw [allocPage] at h
  split at h
  · cases h
  · rename_i ppn hfind
    cases h
    have hfree := m.freePages.find_free hfind
    exact ⟨hfree, fun f => m.freePages.free_set hfree.1, rfl, rfl, rfl⟩

/-- `alloc_page` returns, or it panics because no frame is left. -/
theorem allocPage_cases (m : PhysMem) :
    allocPage m = .panic "alloc_page() out of memory" ∨
      ∃ p m', allocPage m = .ret (p, m') ∧ Allocated m p m' := by
  cases h : allocPage m with
  | ret r => exact .inr ⟨r.1, r.2, rfl, allocPage_ret h⟩
  | panic msg =>
      rw [allocPage] at h
      split at h <;> cases h
      exact .inl rfl
  | _ =>
      rw [allocPage] at h
      split at h <;> cases h

/-- A frame address is one of a frame that the 40 bits of an entry can hold. -/
theorem Allocated.lt {m m' : PhysMem} {p : Nat} (h : Allocated m p m') : p < 2 ^ 32 :=
  Nat.lt_of_lt_of_le h.free.1 m.freePages.small

theorem freePage_free {m : PhysMem} {p f : Nat} :
    (freePage m p).Free f ↔ m.Free f ∨ (f = p ∧ p < m.size) := by
  rw [freePage]
  split
  · rename_i h
    rw [PhysMem.Free, m.freePages.free_clr h]
    exact ⟨fun hf => hf.imp id fun he => ⟨he, h⟩, fun hf => hf.imp id And.left⟩
  · rename_i h
    exact ⟨Or.inl, fun hf => hf.elim id fun he => absurd he.2 h⟩

@[simp] theorem freePage_ram (m : PhysMem) (p : Nat) : (freePage m p).ram = m.ram := by
  rw [freePage]
  split <;> rfl

@[simp] theorem freePage_size (m : PhysMem) (p : Nat) : (freePage m p).size = m.size := by
  rw [freePage]
  split <;> rfl

@[simp] theorem freePage_calls (m : PhysMem) (p : Nat) :
    (freePage m p).calls = .free p :: m.calls := by
  rw [freePage]
  split <;> rfl

end UlmerOS
