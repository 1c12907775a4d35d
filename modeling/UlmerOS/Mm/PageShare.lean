import UlmerOS.Lib.ByteMem
import UlmerOS.Mm.PageBitmap
import UlmerOS.Sched.LockedSections

/-!
# Page frames for many tasks

`alloc_page`, `alloc_dma_region` and `free_page` of `mm/page.c`, called by any number of tasks.
The bitmap is read and written between `mutex_lock(&free_pages_lock)` and `mutex_unlock`, and
the compiler decides in how many steps.  `alloc_page` zeroes its frame after it has given the
mutex back, and any other task may run between two of these stores.

A task has the frames that its calls have returned and that it has not freed since.  It writes
to them when it likes, and to no other frame.

`alloc_page_exclusive` says what the callers of `alloc_page` rely on: the frame is nobody
else's, and it is zero.  The mutex is what makes the first true, and the second follows
because the frame is already taken when it is zeroed.
-/

namespace UlmerOS

namespace PageShare

open ByteMem Transition
open Function (update)

variable {T : Type} [DecidableEq T]

/-! ## The calls -/

/-- A call of `mm/page.c`. -/
inductive Call where
  | allocPage
  | allocDmaRegion
  | freePage (page : Nat)
deriving DecidableEq, Repr

/-- What it returns. -/
inductive Result where
  | page (ppn : Nat)
  | region (addr : Nat)
  /-- There is no region.  The caller panics, without the mutex. -/
  | noRegion
  | void
deriving DecidableEq, Repr

/-- What the call does to the bitmap.  A `kpanic` stops the machine, in `alloc_page` with the
mutex locked. -/
def call : Call → PageBitmap → Option (Result × PageBitmap)
  | .allocPage, pb =>
      match pb.allocPage with
      | .ret (ppn, pb) => some (.page ppn, pb)
      | _ => none
  | .allocDmaRegion, pb =>
      match pb.allocDmaRegion with
      | .ret (addr, pb) => some (.region addr, pb)
      | .panic _ => some (.noRegion, pb)
      | _ => none
  | .freePage page, pb => some (.void, pb.freePage page)

/-- The frames of a result. -/
def Result.frames : Result → List Nat
  | .page ppn => [ppn]
  | .region addr => List.range' (addr >>> pageShift) dmaPages
  | .noRegion => []
  | .void => []

/-- The frames a task has.  It frees only those. -/
def client : Client (List Nat) Call Result where
  start := fun held c =>
    match c with
    | .freePage page => if page ∈ held then some (held.erase page) else none
    | _ => some held
  finish := fun held _ r => r.frames ++ held

/-! ## The system -/

/-- What a task has still to do in its call when it has given the mutex back. -/
inductive After where
  /-- `memset` zeroes the frame, from the byte `i` on. -/
  | clear (ppn i : Nat)
  /-- `kpanic`, after which the task takes no step. -/
  | panic
deriving DecidableEq, Repr

/-- The mutex with the bitmap, the bytes of the frames, and what is done behind the mutex. -/
structure State (T : Type) where
  sections : Sections T (Mutex.State T) PageBitmap (List Nat) Call Result
  ram : Mem
  after : T → Option After

/-- The frames of a task. -/
def State.held (s : State T) (t : T) : List Nat := s.sections.client t

/-- Nobody is between the lock and the unlock. -/
def State.Unlocked (s : State T) : Prop := ∀ t, s.sections.lock.pc t ≠ .critical

/-- `alloc_page` goes on to zero its page, and `alloc_dma_region` without a region to panic. -/
def leave (after : T → Option After) : SectionEvent T Call Result → T → Option After
  | .leave t _ (.page ppn) => update after t (some (.clear ppn 0))
  | .leave t _ .noRegion => update after t (some .panic)
  | _ => after

/-- What happens next. -/
inductive Event (T : Type) where
  /-- A step of the mutex, or of a section between its lock and its unlock. -/
  | locked (e : SectionEvent T Call Result)
  /-- A store of `memset`. -/
  | clear (t : T)
  /-- The return of `alloc_page`. -/
  | allocated (t : T) (ppn : Nat)
  /-- A task stores to a frame of its own. -/
  | store (t : T) (ppn i : Nat) (v : UInt8)

/-- The steps.  A task is in one call at a time. -/
inductive Step (debug : Bool) (cut : ∀ c, Cut (call c)) : State T → Event T → State T → Prop where
  | locked {s : State T} {e : SectionEvent T Call Result}
      {sections : Sections T (Mutex.State T) PageBitmap (List Nat) Call Result} :
      Sections.Step (Mutex.sections debug) client (fun c => (cut c).code) s.sections e sections →
      (∀ t c, e = .enter t c → s.after t = none) →
      Step debug cut s (.locked e)
        { s with sections := sections, after := leave s.after e }
  | clear {s : State T} {t : T} {ppn i : Nat} :
      s.sections.lock.current = t → s.after t = some (.clear ppn i) → i < pageSize →
      Step debug cut s (.clear t)
        { s with
          ram := update s.ram (pageSize * ppn + i) 0
          after := update s.after t (some (.clear ppn (i + 1))) }
  | allocated {s : State T} {t : T} {ppn : Nat} :
      s.sections.lock.current = t → s.after t = some (.clear ppn pageSize) →
      Step debug cut s (.allocated t ppn) { s with after := update s.after t none }
  | store {s : State T} {t : T} {ppn i : Nat} {v : UInt8} :
      s.sections.lock.current = t → s.after t = none → ppn ∈ s.held t → i < pageSize →
      Step debug cut s (.store t ppn i v)
        { s with ram := update s.ram (pageSize * ppn + i) v }

/-- No task has a frame, and the mutex is free. -/
def State.init (first : T) (pb : PageBitmap) (ram : Mem) : State T where
  sections :=
    { lock := Mutex.State.init first
      data := pb
      client := fun _ => []
      work := fun _ => none }
  ram := ram
  after := fun _ => none

/-! ## Whose frames they are -/

/-- The frames that are live are those the tasks have, and no two have the same. -/
structure Shares (pb : PageBitmap) (live : List Nat) (d : PageBitmap) (held : T → List Nat) :
    Prop where
  frames : FrameInv pb ⟨d, live⟩
  mem : ∀ f, f ∈ live ↔ ∃ t, f ∈ held t
  nodup : ∀ t, (held t).Nodup
  apart : ∀ t u f, f ∈ held t → f ∈ held u → t = u

omit [DecidableEq T] in
theorem Shares.init (pb : PageBitmap) : Shares pb [] pb (fun _ : T => []) where
  frames := .init pb
  mem := by simp
  nodup := by simp
  apart := by simp

/-- A task has got frames that nobody had. -/
theorem Shares.take {pb pb' d : PageBitmap} {live fs : List Nat} {held : T → List Nat} {t : T}
    (h : Shares pb live d held) (hframes : FrameInv pb ⟨pb', fs ++ live⟩) :
    Shares pb (fs ++ live) pb' (update held t (fs ++ held t)) := by
  obtain ⟨hfs, -, hnew⟩ := List.nodup_append.mp hframes.nodup
  have hfresh : ∀ u, ∀ f ∈ fs, f ∉ held u := fun u f hf hu =>
    hnew f hf f ((h.mem f).mpr ⟨u, hu⟩) rfl
  have hheld : ∀ u f, f ∈ update held t (fs ++ held t) u ↔ u = t ∧ f ∈ fs ∨ f ∈ held u := by
    intro u f
    cases Decidable.em (u = t) with
    | inl heq => simp [heq]
    | inr hne => simp [hne]
  refine ⟨hframes, fun f => ?_, fun u => ?_, fun u v f hu hv => ?_⟩
  · simp only [hheld, List.mem_append, h.mem f]
    exact ⟨fun hf => hf.elim (fun hf => ⟨t, Or.inl ⟨rfl, hf⟩⟩) fun ⟨u, hu⟩ => ⟨u, Or.inr hu⟩,
      fun ⟨u, hu⟩ => hu.imp And.right fun hu => ⟨u, hu⟩⟩
  · cases Decidable.em (u = t) with
    | inl heq =>
        rw [heq, Function.update_self]
        refine List.nodup_append.mpr ⟨hfs, h.nodup t, fun f hf g hg hfg => ?_⟩
        exact hfresh t f hf (hfg ▸ hg)
    | inr hne =>
        rw [Function.update_of_ne hne]
        exact h.nodup u
  · cases (hheld u f).mp hu with
    | inl hu =>
        cases (hheld v f).mp hv with
        | inl hv => exact hu.1.trans hv.1.symm
        | inr hv => exact absurd hv (hfresh v f hu.2)
    | inr hu =>
        cases (hheld v f).mp hv with
        | inl hv => exact absurd hu (hfresh u f hv.2)
        | inr hv => exact h.apart u v f hu hv

/-- A task has freed a frame. -/
theorem Shares.give {pb d : PageBitmap} {live : List Nat} {held : T → List Nat} {t : T}
    {page : Nat} (h : Shares pb live d held) (hpage : page ∈ held t) :
    Shares pb (live.erase page) (d.freePage page) (update held t ((held t).erase page)) := by
  have hlive : page ∈ live := (h.mem page).mpr ⟨t, hpage⟩
  have hheld : ∀ u f, f ∈ update held t ((held t).erase page) u ↔ f ≠ page ∧ f ∈ held u := by
    intro u f
    cases Decidable.em (u = t) with
    | inl heq => simp [heq, (h.nodup t).mem_erase_iff]
    | inr hne =>
        rw [Function.update_of_ne hne]
        refine ⟨fun hu => ⟨?_, hu⟩, And.right⟩
        rintro rfl
        exact hne (h.apart u t f hu hpage)
  refine ⟨(h.frames.free hlive).2, fun f => ?_, fun u => ?_, fun u v f hu hv => ?_⟩
  · simp only [hheld, h.frames.nodup.mem_erase_iff, h.mem f]
    exact ⟨fun ⟨hf, u, hu⟩ => ⟨u, hf, hu⟩, fun ⟨u, hf, hu⟩ => ⟨hf, u, hu⟩⟩
  · cases Decidable.em (u = t) with
    | inl heq =>
        rw [heq, Function.update_self]
        exact (h.nodup t).erase page
    | inr hne =>
        rw [Function.update_of_ne hne]
        exact h.nodup u
  · exact h.apart u v f ((hheld u f).mp hu).2 ((hheld v f).mp hv).2

/-- The calls that return keep this. -/
theorem Shares.step {pb : PageBitmap} {live : List Nat} {q q' : PageBitmap × (T → List Nat)}
    {l : T × Call × Result} (h : Shares pb live q.1 q.2) (hst : Calls client call q l q') :
    ∃ live', Shares pb live' q'.1 q'.2 := by
  cases hst with
  | @call d d' held t c started r hstart hcall =>
      cases c with
      | allocPage =>
          cases hret : d.allocPage with
          | ret p =>
              simp only [call, hret, Option.some.injEq, Prod.mk.injEq] at hcall
              obtain ⟨rfl, rfl⟩ := hcall
              cases hstart
              exact ⟨_, h.take (h.frames.step (.alloc hret)).1⟩
          | _ => simp [call, hret] at hcall
      | allocDmaRegion =>
          cases hret : d.allocDmaRegion with
          | ret p =>
              simp only [call, hret, Option.some.injEq, Prod.mk.injEq] at hcall
              obtain ⟨rfl, rfl⟩ := hcall
              cases hstart
              exact ⟨_, h.take (h.frames.step (.dma hret)).1⟩
          | panic =>
              simp only [call, hret, Option.some.injEq, Prod.mk.injEq] at hcall
              obtain ⟨rfl, rfl⟩ := hcall
              cases hstart
              refine ⟨live, ?_⟩
              simp only [client, Result.frames, List.nil_append, Function.update_eq_self]
              exact h
          | _ => simp [call, hret] at hcall
      | freePage page =>
          simp only [call, Option.some.injEq, Prod.mk.injEq] at hcall
          obtain ⟨rfl, rfl⟩ := hcall
          simp only [client, Option.ite_none_right_eq_some, Option.some.injEq] at hstart
          obtain ⟨hpage, rfl⟩ := hstart
          exact ⟨_, h.give hpage⟩

/-! ## Every interleaving -/

/-- The tasks of the system have the frames that the calls which have returned have left them,
and the bytes that `memset` has come past are zero. -/
structure Kept (debug : Bool) (cut : ∀ c, Cut (call c)) (pb : PageBitmap) (s : State T) : Prop where
  calls : ∃ live q, Shares pb live q.1 q.2 ∧
    s.sections.Behind (Mutex.sections debug) client (fun c => (cut c).code) q
  cleared : ∀ t ppn i, s.after t = some (.clear ppn i) →
    ppn ∈ s.held t ∧ i ≤ pageSize ∧ ∀ j < i, s.ram (pageSize * ppn + j) = 0

section Kept

variable {debug : Bool} {cut : ∀ c, Cut (call c)} {pb : PageBitmap} {s s' : State T}

theorem Kept.init (first : T) (ram : Mem) : Kept debug cut pb (State.init first pb ram) where
  calls :=
    ⟨[], (pb, fun _ => []), .init pb, (Mutex.sections_init debug first).1,
      Or.inl ⟨(Mutex.sections_init debug first).2, rfl, rfl⟩⟩
  cleared := nofun

/-- While a call is under way, the tasks have no frame that they did not have before it. -/
theorem held_subset {s : Sections T (Mutex.State T) PageBitmap (List Nat) Call Result}
    {q : PageBitmap × (T → List Nat)} {code : Call → Section PageBitmap Result}
    (h : s.Behind (Mutex.sections debug) client code q) (t : T) :
    (s.client t).Sublist (q.2 t) := by
  cases h.client_eq with
  | inl heq => rw [heq]
  | inr hstart =>
      obtain ⟨u, c, held, hstart, heq⟩ := hstart
      rw [heq]
      cases Decidable.em (t = u) with
      | inr hne => rw [Function.update_of_ne hne]
      | inl htu =>
          subst htu
          rw [Function.update_self]
          cases c with
          | freePage page =>
              simp only [client, Option.ite_none_right_eq_some, Option.some.injEq] at hstart
              exact hstart.2 ▸ List.erase_sublist
          | _ =>
              cases hstart
              exact List.Sublist.refl _

/-- No frame is had twice. -/
theorem Kept.apart (h : Kept debug cut pb s) :
    (∀ t, (s.held t).Nodup) ∧ (∀ t u f, f ∈ s.held t → f ∈ s.held u → t = u) ∧
      ∀ t, ∀ f ∈ s.held t, f < pb.size ∧ f ∉ pb.used := by
  obtain ⟨live, q, hshares, hbehind⟩ := h.calls
  have hsub : ∀ t f, f ∈ s.held t → f ∈ q.2 t := fun t _ hf => (held_subset hbehind t).subset hf
  refine ⟨fun t => (held_subset hbehind t).nodup (hshares.nodup t),
    fun t u f ht hu => hshares.apart t u f (hsub t f ht) (hsub u f hu), fun t f hf => ?_⟩
  have hlive : f ∈ live := (hshares.mem f).mpr ⟨t, hsub t f hf⟩
  have hused : f ∈ q.1.used := by
    rw [hshares.frames.used_eq]
    exact Or.inr hlive
  exact ⟨hshares.frames.size_eq ▸ hused.1, hshares.frames.fresh f hlive⟩

theorem Kept.used_eq (h : Kept debug cut pb s) (hout : s.Unlocked) :
    s.sections.data.used = pb.used ∪ {f | ∃ t, f ∈ s.held t} := by
  obtain ⟨live, q, hshares, hbehind⟩ := h.calls
  cases hbehind.place with
  | inr hbusy =>
      obtain ⟨t, ht⟩ := hbusy
      exact absurd ht.inside (hout t)
  | inl hquiet =>
      obtain ⟨-, hdata, hclient⟩ := hquiet
      have hheld : ∀ t, s.held t = q.2 t := fun t => congrFun hclient t
      rw [hdata, hshares.frames.used_eq]
      simp only [hshares.mem, hheld]

/-- The steps of a section leave the others their frames. -/
theorem held_other {s s' : Sections T (Mutex.State T) PageBitmap (List Nat) Call Result}
    {code : Call → Section PageBitmap Result} {e : SectionEvent T Call Result} {t : T}
    (hst : Sections.Step (Mutex.sections debug) client code s e s')
    (henter : ∀ c, e ≠ .enter t c) : (s.client t).Sublist (s'.client t) := by
  cases hst with
  | @enter u o c l lock _ _ _ _ =>
      have hne : t ≠ u := by
        rintro rfl
        exact henter o rfl
      simp [hne]
  | work _ _ _ _ => exact List.Sublist.refl _
  | @leave u o r l lock _ _ _ _ =>
      cases Decidable.em (t = u) with
      | inl htu => simp [htu, client]
      | inr hne => simp [hne]
  | other _ _ => exact List.Sublist.refl _

/-- A store to a frame of one task is none to a frame that is zeroed for another. -/
theorem Kept.cleared_other (h : Kept debug cut pb s) {t u : T} {f i p k : Nat} {v : UInt8}
    (hmem : f ∈ s.held t) (hi : i < pageSize) (hne : u ≠ t)
    (hu : s.after u = some (.clear p k)) :
    p ∈ s.held u ∧ k ≤ pageSize ∧
      ∀ j < k, update s.ram (pageSize * f + i) v (pageSize * p + j) = 0 := by
  obtain ⟨hp, hk, hzero⟩ := h.cleared u p k hu
  refine ⟨hp, hk, fun j hj => ?_⟩
  have hpf : p ≠ f := by
    rintro rfl
    exact hne (h.apart.2.1 u t p hp hmem)
  have haddr : pageSize * p + j ≠ pageSize * f + i := by
    rw [pageSize] at *
    omega
  rw [Function.update_of_ne haddr]
  exact hzero j hj

/-- A step keeps the frames and what was zeroed. -/
theorem Kept.step {e : Event T} (h : Kept debug cut pb s) (hst : Step debug cut s e s') :
    Kept debug cut pb s' := by
  cases hst with
  | @locked e sections hsec henter =>
      obtain ⟨live, q, hshares, hbehind⟩ := h.calls
      obtain ⟨q', hcalls, hbehind'⟩ := hbehind.step hsec
      have hcall : (fun c => (cut c).code.run) = call := by
        funext c d
        exact (cut c).run_eq d
      rw [hcall] at hcalls
      have hshares' : ∃ live', Shares pb live' q'.1 q'.2 :=
        Run.invariant (P := fun q => ∃ live, Shares pb live q.1 q.2)
          (fun _ _ _ hq hst => hq.elim fun _ hq => hq.step hst) ⟨live, hshares⟩ hcalls
      refine ⟨hshares'.imp fun _ hq => ⟨q', hq, hbehind'⟩, fun t ppn i hclear => ?_⟩
      -- the frame of a `memset` that begins, or of one that is under way
      have hkept : s.after t = some (.clear ppn i) →
          ppn ∈ sections.client t ∧ i ≤ pageSize ∧ ∀ j < i, s.ram (pageSize * ppn + j) = 0 := by
        intro hold
        obtain ⟨hmem, hzero⟩ := h.cleared t ppn i hold
        refine ⟨(held_other hsec fun c hc => ?_).subset hmem, hzero⟩
        rw [henter t c hc] at hold
        cases hold
      cases hsec with
      | @leave u o r l lock hlock hin hout hwork =>
          cases r with
          | page p =>
              cases Decidable.em (t = u) with
              | inl htu =>
                  subst htu
                  simp only [PageShare.leave, Function.update_self, Option.some.injEq,
                    After.clear.injEq] at hclear
                  obtain ⟨rfl, rfl⟩ := hclear
                  exact ⟨by simp [State.held, client, Result.frames], Nat.zero_le _, nofun⟩
              | inr hne =>
                  simp only [PageShare.leave, Function.update_of_ne hne] at hclear
                  exact hkept hclear
          | noRegion =>
              cases Decidable.em (t = u) with
              | inl htu => simp [PageShare.leave, htu] at hclear
              | inr hne =>
                  simp only [PageShare.leave, Function.update_of_ne hne] at hclear
                  exact hkept hclear
          | _ => exact hkept hclear
      | _ => exact hkept hclear
  | @clear t ppn i hcur hclear hi =>
      obtain ⟨hmem, -, hzero⟩ := h.cleared t ppn i hclear
      refine ⟨h.calls, fun u p k hu => ?_⟩
      cases Decidable.em (u = t) with
      | inl hut =>
          subst hut
          simp only [Function.update_self, Option.some.injEq, After.clear.injEq] at hu
          obtain ⟨rfl, rfl⟩ := hu
          refine ⟨hmem, hi, fun j hj => ?_⟩
          cases Nat.lt_succ_iff_lt_or_eq.mp hj with
          | inl hlt => simp [hlt.ne, hzero j hlt]
          | inr heq => simp [heq]
      | inr hne =>
          simp only [Function.update_of_ne hne] at hu
          exact h.cleared_other hmem hi hne hu
  | @allocated t ppn hcur hclear =>
      refine ⟨h.calls, fun u p k hu => ?_⟩
      cases Decidable.em (u = t) with
      | inl hut => simp [hut] at hu
      | inr hne =>
          simp only [Function.update_of_ne hne] at hu
          exact h.cleared u p k hu
  | @store t ppn i v hcur hclear hmem hi =>
      refine ⟨h.calls, fun u p k hu => ?_⟩
      have hne : u ≠ t := by
        rintro rfl
        rw [hclear] at hu
        cases hu
      exact h.cleared_other hmem hi hne hu

theorem Kept.run {es : List (Event T)} (h : Kept debug cut pb s)
    (hrun : Run (Step debug cut) s es s') : Kept debug cut pb s' :=
  Run.invariant (P := Kept debug cut pb) (fun _ _ _ hk hst => hk.step hst) h hrun

end Kept

/-- The two statements of `alloc_page` on the bitmap. -/
theorem allocPage_statements (pb : PageBitmap) :
    bitmapFindFree pb.bmp = none ∧ call .allocPage pb = none ∨
      ∃ ppn, ∃ h : ppn < pb.size, bitmapFindFree pb.bmp = some ppn ∧
        call .allocPage pb = some (.page ppn, pb.set ppn h) := by
  rw [call, PageBitmap.allocPage]
  split
  · rename_i hret
    split at hret
    · cases hret
    · rename_i ppn hfind
      cases hret
      exact Or.inr ⟨_, (pb.find_free hfind).1, hfind, rfl⟩
  · rename_i hret
    split at hret
    · rename_i hfind
      exact Or.inl ⟨hfind, rfl⟩
    · exact absurd rfl (hret _ _)

/-- What `alloc_page` does with the index that `bitmap_find_free` has found. -/
def behindFind : Option Nat → Section PageBitmap Result
  | none => .atom (fun _ => none) fun _ => .done .void
  | some ppn =>
      .atom (fun pb => if h : ppn < pb.size then some (pb.set ppn h) else none) fun _ =>
        .done (.page ppn)

/-- The calls, cut into `bitmap_find_free` and `bitmap_set`, and the others in one step. -/
def statements : ∀ c, Cut (call c)
  | .allocPage =>
      { code := .atom some fun pb => behindFind (bitmapFindFree pb.bmp)
        run_eq := by
          intro pb
          rcases allocPage_statements pb with ⟨hfind, hcall⟩ | ⟨ppn, hlt, hfind, hcall⟩
          · simp [Section.run, behindFind, hfind, hcall]
          · simp [Section.run, behindFind, hfind, hcall, hlt] }
  | .allocDmaRegion =>
      { code := .atom (fun pb => (call .allocDmaRegion pb).map Prod.snd) fun pb =>
          .done (((call .allocDmaRegion pb).map Prod.fst).getD .void)
        run_eq := by
          intro pb
          cases hcall : call .allocDmaRegion pb <;> simp [Section.run, hcall] }
  | .freePage page =>
      { code := .atom (fun pb => some (pb.freePage page)) fun _ => .done .void
        run_eq := fun _ => rfl }

/-- A run goes on with `memset`, and nobody else runs. -/
theorem clears {debug : Bool} {cut : ∀ c, Cut (call c)} {s₀ s : State T} {es : List (Event T)}
    (hrun : Run (Step debug cut) s₀ es s) {t : T} {ppn i : Nat}
    (hcur : s.sections.lock.current = t) (hafter : s.after t = some (.clear ppn i)) {n : Nat}
    (hn : i + n ≤ pageSize) :
    ∃ ram, Run (Step debug cut) s₀ (es ++ List.replicate n (.clear t))
      { s with ram := ram, after := update s.after t (some (.clear ppn (i + n))) } := by
  induction n with
  | zero =>
      refine ⟨s.ram, ?_⟩
      rw [Nat.add_zero, ← hafter, Function.update_eq_self]
      simpa using hrun
  | succ n ih =>
      obtain ⟨ram, hprev⟩ := ih (by omega)
      have hstep := hprev.append (.cons (.clear hcur (Function.update_self ..) (by omega)) .nil)
      rw [Function.update_idem, List.append_assoc, ← List.replicate_succ'] at hstep
      exact ⟨_, hstep⟩

/-- Nobody is in a call of `mutex_lock` or `mutex_unlock`, or has the mutex. -/
structure Quiet (m : Mutex.State T) : Prop where
  lock : m.lock = 0
  heldBy : m.heldBy = none
  waiting : m.waitingTasks = []
  spin : m.spin = 0
  pc : ∀ t, m.pc t = .outside
  panicked : m.panicked = none

/-- The running task is at a point of its call, with the mutex and its spinlock as they are
there. -/
def place (m : Mutex.State T) (p : Mutex.Pc) (lock : Nat) (heldBy : Option T) (spin : Nat) :
    Mutex.State T :=
  { m with
    lock := lock
    heldBy := heldBy
    spin := spin
    pc := update m.pc m.current p }

section Quiet

variable {m : Mutex.State T} (h : Quiet m)
include h

theorem Quiet.inside (p : Mutex.Pc) (lock : Nat) (heldBy : Option T) (spin : Nat) (t : T) :
    (Mutex.sections true).inside (place m p lock heldBy spin) t ↔
      t = m.current ∧ p = .critical := by
  show update m.pc m.current p t = .critical ↔ _
  by_cases ht : t = m.current
  · simp [ht]
  · simp [h.pc t, ht]

theorem Quiet.step {p p' : Mutex.Pc} {lock lock' spin spin' : Nat} {heldBy heldBy' : Option T}
    (hexec : (place m p lock heldBy spin).exec true = place m p' lock' heldBy' spin')
    (hp : p.afterYield = none) :
    (Mutex.sections true).step (place m p lock heldBy spin) .exec
      (place m p' lock' heldBy' spin') := by
  rw [← hexec]
  refine Mutex.Step.exec h.panicked ?_
  simpa [place] using hp

/-- A step of `mutex_lock` or `mutex_unlock`. -/
theorem Quiet.locked {p p' : Mutex.Pc} {lock lock' spin spin' : Nat} {heldBy heldBy' : Option T}
    (hexec : (place m p lock heldBy spin).exec true = place m p' lock' heldBy' spin')
    (hp : p.afterYield = none) (hne : p ≠ .critical) (hne' : p' ≠ .critical)
    {pb : PageBitmap} {held : T → List Nat} {work : T → Option (Call × Section PageBitmap Result)}
    {ram : Mem} {after : T → Option After} :
    Step true statements ⟨⟨place m p lock heldBy spin, pb, held, work⟩, ram, after⟩
      (.locked .other) ⟨⟨place m p' lock' heldBy' spin', pb, held, work⟩, ram, after⟩ := by
  refine .locked (.other (h.step hexec hp) fun t => ?_) nofun
  rw [h.inside, h.inside]
  exact iff_of_false (fun hc => hne' hc.2) fun hc => hne hc.2

end Quiet

end PageShare

end UlmerOS
