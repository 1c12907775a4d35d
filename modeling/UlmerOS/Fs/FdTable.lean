import UlmerOS.Fs.Fd
import UlmerOS.Sched.LockedSections

/-!
# File descriptors for many threads

`proc_new_fd` and `proc_get_fd` of `sched/proc.c`, called by any number of threads of a process.
A number is taken with `atomic_add(&process->fd_counter, 1)` before the mutex, so that numbers
get into `fd_list` in any order.  The list is added to and gone through between
`mutex_lock(&process->fd_list_lock)` and `mutex_unlock`, in as many steps as the compiler makes
of it.

`fd_table` says what `open` has to keep: no two calls return the same number, and from then on
the number stands for the descriptor that was opened.
-/

namespace UlmerOS

namespace FdTable

open Transition
open Function (update)

variable {T : Type} [DecidableEq T]

/-! ## The calls -/

/-- What is done between the lock and the unlock. -/
inductive Call where
  /-- `list_add(&process->fd_list, userfd)`. -/
  | add (number : Nat) (fd : Fd)
  /-- The loop of `proc_get_fd`, for a number that is not negative. -/
  | get (number : Nat)

/-- What comes of it. -/
inductive Result where
  | void
  | found (entry : Option (Nat × Fd))

/-- A call on `fd_list`. -/
def call : Call → List (Nat × Fd) → Option (Result × List (Nat × Fd))
  | .add number fd, fdList => some (.void, fdList ++ [(number, fd)])
  | .get number, fdList => some (.found (procGetFd fdList number).1, fdList)

/-- A thread keeps the number it has taken outside of this. -/
def client : Client Unit Call Result where
  start := fun _ _ => some ()
  finish := fun _ _ _ => ()

/-! ## The system -/

/-- The mutex with the list, the counter, and the numbers that are taken and not added yet. -/
structure State (T : Type) where
  sections : Sections T (Mutex.State T) (List (Nat × Fd)) Unit Call Result
  fdCounter : Nat
  pending : T → Option (Nat × Fd)

/-- What happens next. -/
inductive Event (T : Type) where
  /-- `atomic_add(&process->fd_counter, 1)`. -/
  | number (t : T) (fd : Fd)
  /-- A step of the mutex, or of a section between its lock and its unlock. -/
  | locked (e : SectionEvent T Call Result)

/-- A step of the mutex or of a section. -/
def Event.section : Event T → Option (SectionEvent T Call Result)
  | .number _ _ => none
  | .locked e => some e

/-- The calls that have returned. -/
def Event.returned (e : Event T) : Option (T × Call × Result) :=
  e.section.bind SectionEvent.returned

/-- A number is taken. -/
def Event.isNumber : Event T → Bool
  | .number _ _ => true
  | .locked _ => false

/-- A thread enters the lock with what it has at hand. -/
def mayEnter (pending : T → Option (Nat × Fd)) : SectionEvent T Call Result → Prop
  | .enter t (.add number fd) => pending t = some (number, fd)
  | .enter t (.get _) => pending t = none
  | _ => True

/-- `proc_new_fd` is over when its number is in the list. -/
def toAdd (pending : T → Option (Nat × Fd)) : SectionEvent T Call Result → T → Option (Nat × Fd)
  | .leave t (.add _ _) _ => update pending t none
  | _ => pending

/-- The steps.  A thread is in one call at a time. -/
inductive Step (debug : Bool) (cut : ∀ c, Cut (call c)) : State T → Event T → State T → Prop where
  | number {s : State T} {t : T} {fd : Fd} :
      s.sections.lock.current = t → s.pending t = none →
      Step debug cut s (.number t fd)
        { s with
          fdCounter := wrap64 (s.fdCounter + 1)
          pending := update s.pending t (some (s.fdCounter, fd)) }
  | locked {s : State T} {e : SectionEvent T Call Result}
      {sections : Sections T (Mutex.State T) (List (Nat × Fd)) Unit Call Result} :
      Sections.Step (Mutex.sections debug) client (fun c => (cut c).code) s.sections e sections →
      mayEnter s.pending e →
      Step debug cut s (.locked e)
        { s with sections := sections, pending := toAdd s.pending e }

/-- A process that has opened nothing. -/
def State.init (first : T) : State T where
  sections :=
    { lock := Mutex.State.init first
      data := []
      client := fun _ => ()
      work := fun _ => none }
  fdCounter := 0
  pending := fun _ => none

/-- What a call has added. -/
def added : T × Call × Result → Option (Nat × Fd)
  | (_, .add number fd, _) => some (number, fd)
  | _ => none

/-! ## Calls in turn -/

omit [DecidableEq T] in
/-- The number of a call that was added, and of no other call. -/
theorem added_eq_some {l : T × Call × Result} {number : Nat} {fd : Fd} :
    added l = some (number, fd) ↔ l.2.1 = .add number fd := by
  obtain ⟨t, c, r⟩ := l
  cases c <;> simp [added]

/-- The list is what was added, in the order of the calls. -/
theorem calls_list {q q' : List (Nat × Fd) × (T → Unit)} {ls : List (T × Call × Result)}
    (h : Run (Calls client call) q ls q') : q'.1 = q.1 ++ ls.filterMap added := by
  induction h with
  | nil => simp
  | cons hst _ ih =>
      cases hst with
      | @call d d' held t c started r _ hcall =>
          rw [ih]
          cases c with
          | add number fd =>
              cases hcall
              simp [added]
          | get number =>
              cases hcall
              rw [List.filterMap_cons_none rfl]

/-- A lookup finds what was added before it. -/
theorem calls_get {q q' : List (Nat × Fd) × (T → Unit)} {before after : List (T × Call × Result)}
    {u : T} {number : Nat} {r : Result}
    (h : Run (Calls client call) q (before ++ (u, .get number, r) :: after) q') :
    r = .found (procGetFd (q.1 ++ before.filterMap added) number).1 := by
  obtain ⟨m, hbefore, hrest⟩ := h.split
  cases hrest with
  | cons hst _ =>
      cases hst with
      | call _ hcall =>
          cases hcall
          rw [← calls_list hbefore]

/-- A number that is in the list once stands for one descriptor. -/
theorem procGetFd_of_mem {fdList : List (Nat × Fd)} {number : Nat} {fd : Fd}
    (hnodup : (fdList.map Prod.fst).Nodup) (hmem : (number, fd) ∈ fdList) :
    (procGetFd fdList number).1 = some (number, fd) := by
  induction fdList with
  | nil => cases hmem
  | cons entry fdList ih =>
      obtain ⟨hfresh, hrest⟩ := List.nodup_cons.mp hnodup
      have hneg : ¬ (number : Int) < 0 := by omega
      simp only [procGetFd, if_neg hneg, List.find?_cons, Nat.cast_inj] at ih ⊢
      cases List.mem_cons.mp hmem with
      | inl heq => simp [← heq]
      | inr hin =>
          have hne : entry.1 ≠ number := by
            rintro rfl
            exact hfresh (List.mem_map.mpr ⟨_, hin, rfl⟩)
          simpa [hne] using ih hrest hin

/-- What a lookup finds is in the list, under its number. -/
theorem mem_of_procGetFd {fdList : List (Nat × Fd)} {number n : Nat} {fd : Fd}
    (h : (procGetFd fdList number).1 = some (n, fd)) : n = number ∧ (n, fd) ∈ fdList := by
  have hneg : ¬ (number : Int) < 0 := by omega
  simp only [procGetFd, if_neg hneg] at h
  exact ⟨by simpa using List.find?_some h, List.mem_of_find?_eq_some h⟩

/-! ## The numbers -/

/-- The numbers that were taken: those in the list, and those on their way to it. -/
structure Numbered (s : State T) (taken : Nat) (numbers : List Nat) : Prop where
  counter : s.fdCounter = taken
  nodup : numbers.Nodup
  below : ∀ n ∈ numbers, n < taken
  pending : ∀ t n fd, s.pending t = some (n, fd) → n < taken ∧ n ∉ numbers
  apart : ∀ t u n fd fd', s.pending t = some (n, fd) → s.pending u = some (n, fd') → t = u
  working : ∀ t n fd p, s.sections.work t = some (.add n fd, p) → s.pending t = some (n, fd)

omit [DecidableEq T] in
theorem Numbered.init (first : T) : Numbered (State.init first) 0 [] where
  counter := rfl
  nodup := List.nodup_nil
  below := nofun
  pending := nofun
  apart := nofun
  working := nofun

/-- The number that a step adds to the list. -/
def Event.opened (e : Event T) : List Nat := ((e.returned.bind added).map Prod.fst).toList

omit [DecidableEq T] in
@[simp] theorem opened_number (t : T) (fd : Fd) : (Event.number t fd).opened = [] := rfl
omit [DecidableEq T] in
@[simp] theorem opened_enter (t : T) (c : Call) :
    (Event.locked (.enter t c)).opened = ([] : List Nat) := rfl
omit [DecidableEq T] in
@[simp] theorem opened_work (t : T) :
    (Event.locked (.work t)).opened = ([] : List Nat) := rfl
omit [DecidableEq T] in
@[simp] theorem opened_add (t : T) (n : Nat) (fd : Fd) (r : Result) :
    (Event.locked (.leave t (.add n fd) r)).opened = [n] := rfl
omit [DecidableEq T] in
@[simp] theorem opened_get (t : T) (n : Nat) (r : Result) :
    (Event.locked (.leave t (.get n) r)).opened = ([] : List Nat) := rfl
omit [DecidableEq T] in
@[simp] theorem opened_other : (Event.locked (.other : SectionEvent T Call Result)).opened = [] :=
  rfl

section Steps

variable {debug : Bool} {cut : ∀ c, Cut (call c)} {s s' : State T} {taken : Nat}
  {numbers : List Nat}

/-- `atomic_add` gives a number that nobody has. -/
theorem Numbered.number (h : Numbered s taken numbers) (hroom : taken + 1 < word) {t : T} {fd : Fd}
    (ht : s.pending t = none) :
    Numbered { s with
      fdCounter := wrap64 (s.fdCounter + 1)
      pending := update s.pending t (some (s.fdCounter, fd)) } (taken + 1) numbers := by
  have hpending : ∀ u n fd', update s.pending t (some (s.fdCounter, fd)) u = some (n, fd') →
      u = t ∧ n = taken ∨ s.pending u = some (n, fd') := by
    intro u n fd' hu
    cases Decidable.em (u = t) with
    | inl hut =>
        subst hut
        rw [Function.update_self, h.counter] at hu
        cases hu
        exact Or.inl ⟨rfl, rfl⟩
    | inr hne =>
        rw [Function.update_of_ne hne] at hu
        exact Or.inr hu
  refine ⟨?_, h.nodup, fun n hn => (h.below n hn).trans (Nat.lt_succ_self _), ?_, ?_, ?_⟩
  · dsimp only
    rw [h.counter, wrap64_of_lt hroom]
  · intro u n fd' hu
    cases hpending u n fd' hu with
    | inl hnew =>
        obtain ⟨rfl, rfl⟩ := hnew
        exact ⟨Nat.lt_succ_self _, fun hn => lt_irrefl _ (h.below _ hn)⟩
    | inr hold => exact (h.pending u n fd' hold).imp_left fun hlt => hlt.trans (Nat.lt_succ_self _)
  · intro u v n fd' fd'' hu hv
    cases hpending u n fd' hu with
    | inl hnew =>
        cases hpending v n fd'' hv with
        | inl hnew' => exact hnew.1.trans hnew'.1.symm
        | inr hold => exact absurd (h.pending v n fd'' hold).1 (hnew.2 ▸ lt_irrefl _)
    | inr hold =>
        cases hpending v n fd'' hv with
        | inl hnew' => exact absurd (h.pending u n fd' hold).1 (hnew'.2 ▸ lt_irrefl _)
        | inr hold' => exact h.apart u v n fd' fd'' hold hold'
  · intro u n fd' p hu
    have hold := h.working u n fd' p hu
    have hne : u ≠ t := by
      rintro rfl
      rw [ht] at hold
      cases hold
    exact (Function.update_of_ne hne ..).trans hold

/-- `list_add` puts the number of its thread into the list. -/
theorem Numbered.add (h : Numbered s taken numbers) {t : T} {n : Nat} {fd : Fd}
    {sections : Sections T (Mutex.State T) (List (Nat × Fd)) Unit Call Result}
    (ht : s.pending t = some (n, fd))
    (hwork : sections.work = update s.sections.work t none) :
    Numbered { s with sections := sections, pending := update s.pending t none } taken
      (numbers ++ [n]) := by
  obtain ⟨hlt, hfresh⟩ := h.pending t n fd ht
  have hother : ∀ u n' fd', update s.pending t none u = some (n', fd') →
      u ≠ t ∧ s.pending u = some (n', fd') := by
    intro u n' fd' hu
    cases Decidable.em (u = t) with
    | inl hut =>
        rw [hut, Function.update_self] at hu
        cases hu
    | inr hne => exact ⟨hne, by rwa [Function.update_of_ne hne] at hu⟩
  refine ⟨h.counter, ?_, ?_, ?_, ?_, ?_⟩
  · simpa [List.nodup_append, h.nodup] using fun m hm => ne_of_mem_of_not_mem hm hfresh
  · intro m hm
    cases List.mem_append.mp hm with
    | inl hm => exact h.below m hm
    | inr hm => exact List.mem_singleton.mp hm ▸ hlt
  · intro u m fd' hu
    obtain ⟨hne, hu⟩ := hother u m fd' hu
    obtain ⟨hlt', hfresh'⟩ := h.pending u m fd' hu
    refine ⟨hlt', fun hm => ?_⟩
    cases List.mem_append.mp hm with
    | inl hm => exact hfresh' hm
    | inr hm =>
        obtain rfl := List.mem_singleton.mp hm
        exact hne (h.apart u t m fd' fd hu ht)
  · exact fun u v m fd' fd'' hu hv =>
      h.apart u v m fd' fd'' (hother u m fd' hu).2 (hother v m fd'' hv).2
  · intro u m fd' p hu
    dsimp only at hu
    rw [hwork] at hu
    cases Decidable.em (u = t) with
    | inl hut => simp [hut] at hu
    | inr hne =>
        rw [Function.update_of_ne hne] at hu
        exact (Function.update_of_ne hne ..).trans (h.working u m fd' p hu)

omit [DecidableEq T] in
/-- A step of the mutex or of a section that adds nothing. -/
theorem Numbered.congr (h : Numbered s taken numbers)
    {sections : Sections T (Mutex.State T) (List (Nat × Fd)) Unit Call Result}
    (hwork : ∀ t n fd p, sections.work t = some (.add n fd, p) → s.pending t = some (n, fd)) :
    Numbered { s with sections := sections } taken numbers :=
  { h with working := hwork }

/-- A step of the mutex or of a section. -/
theorem Numbered.locked {e : SectionEvent T Call Result} (h : Numbered s taken numbers)
    {sections : Sections T (Mutex.State T) (List (Nat × Fd)) Unit Call Result}
    (hsec : Sections.Step (Mutex.sections debug) client (fun c => (cut c).code) s.sections e
      sections) (hmay : mayEnter s.pending e) :
    Numbered { s with sections := sections, pending := toAdd s.pending e } taken
      (numbers ++ (Event.locked e).opened) := by
  cases hsec with
  | @enter t o c l lock hlock hout hin hstart =>
      simp only [opened_enter, List.append_nil, toAdd]
      refine h.congr fun u n fd p hu => ?_
      cases Decidable.em (u = t) with
      | inl hut =>
          subst hut
          simp only [Function.update_self, Option.some.injEq, Prod.mk.injEq] at hu
          obtain ⟨rfl, -⟩ := hu
          exact hmay
      | inr hne =>
          simp only [Function.update_of_ne hne] at hu
          exact h.working u n fd p hu
  | @work t o f k d hin hactive hwork hf =>
      simp only [opened_work, List.append_nil, toAdd]
      refine h.congr fun u n fd p hu => ?_
      cases Decidable.em (u = t) with
      | inl hut =>
          subst hut
          simp only [Function.update_self, Option.some.injEq, Prod.mk.injEq] at hu
          obtain ⟨rfl, -⟩ := hu
          exact h.working u n fd _ hwork
      | inr hne =>
          simp only [Function.update_of_ne hne] at hu
          exact h.working u n fd p hu
  | @leave t o r l lock hlock hin hout hwork =>
      cases o with
      | add n fd =>
          rw [opened_add]
          exact h.add (h.working t n fd _ hwork) rfl
      | get n =>
          simp only [opened_get, List.append_nil, toAdd]
          refine h.congr fun u m fd p hu => ?_
          cases Decidable.em (u = t) with
          | inl hut => simp [hut] at hu
          | inr hne =>
              simp only [Function.update_of_ne hne] at hu
              exact h.working u m fd p hu
  | other _ _ =>
      simp only [opened_other, List.append_nil, toAdd]
      exact h.congr h.working

theorem Numbered.step {e : Event T} (h : Numbered s taken numbers)
    (hroom : taken + [e].countP Event.isNumber < word) (hst : Step debug cut s e s') :
    Numbered s' (taken + [e].countP Event.isNumber) (numbers ++ e.opened) := by
  cases hst with
  | number hcur ht =>
      rw [opened_number, List.append_nil]
      exact h.number hroom ht
  | locked hsec hmay => exact h.locked hsec hmay

theorem Numbered.run {es : List (Event T)} (h : Numbered s taken numbers)
    (hrun : Run (Step debug cut) s es s') (hroom : taken + es.countP Event.isNumber < word) :
    Numbered s' (taken + es.countP Event.isNumber) (numbers ++ es.flatMap Event.opened) := by
  induction hrun generalizing taken numbers with
  | nil => simpa using h
  | @cons s m s' e es hst _ ih =>
      have hsplit : (e :: es).countP Event.isNumber =
          [e].countP Event.isNumber + es.countP Event.isNumber :=
        by rw [← List.countP_append, List.singleton_append]
      rw [hsplit] at hroom ⊢
      have hm := h.step (by omega) hst
      have hs := ih hm (by omega)
      rwa [List.append_assoc, ← List.flatMap_cons, Nat.add_assoc] at hs

/-- The steps of the mutex and of the sections are a run of their own. -/
theorem sections_run {es : List (Event T)} (hrun : Run (Step debug cut) s es s') :
    Run (Sections.Step (Mutex.sections debug) client (fun c => (cut c).code)) s.sections
      (es.filterMap Event.section) s'.sections := by
  induction hrun with
  | nil => exact .nil
  | cons hst _ ih =>
      cases hst with
      | number _ _ => exact ih
      | locked hsec _ => exact .cons hsec ih

end Steps

/-! ## Every interleaving -/

omit [DecidableEq T] in
/-- The numbers that were added, from the calls that have returned. -/
theorem flatMap_opened (es : List (Event T)) :
    es.flatMap Event.opened = ((es.filterMap Event.returned).filterMap added).map Prod.fst := by
  induction es with
  | nil => rfl
  | cons e es ih =>
      rw [List.flatMap_cons, ih, Event.opened]
      cases hret : e.returned with
      | none => simp [hret]
      | some l => cases hadd : added l <;> simp [hret, hadd]

/-- What the calls that have returned have to look like: the numbers differ and fit into an
`int`, a number that was returned is found from then on, and nothing else is. -/
structure Consistent (hist : List (T × Call × Result)) : Prop where
  distinct : ((hist.filterMap added).map Prod.fst).Nodup
  small : ∀ n ∈ (hist.filterMap added).map Prod.fst, n < 2 ^ 31
  found : ∀ before after t number fd r u r',
    hist = before ++ (t, .add number fd, r) :: after → (u, .get number, r') ∈ after →
      r' = .found (some (number, fd))
  only : ∀ before after u number n fd,
    hist = before ++ (u, .get number, .found (some (n, fd))) :: after →
      n = number ∧ ∃ t r, (t, .add number fd, r) ∈ before

/-- **Descriptors of concurrent threads.**  For any number of threads, any way to cut the
sections and any interleaving, the descriptors that a process opens get different numbers, and
each number stands for its descriptor from the return of its `open` on. -/
theorem fd_table (debug : Bool) (cut : ∀ c, Cut (call c)) (first : T) {es : List (Event T)}
    {s : State T} (hrun : Run (Step debug cut) (State.init first) es s)
    (hmany : es.countP Event.isNumber ≤ 2 ^ 31) : Consistent (es.filterMap Event.returned) := by
  have hnumbered := (Numbered.init first).run hrun (by rw [word]; omega)
  rw [List.nil_append, Nat.zero_add, flatMap_opened] at hnumbered
  obtain ⟨hinv, hout⟩ := Mutex.sections_init debug first
  obtain ⟨q, hcalls, -⟩ := Sections.serial cut hinv hout (sections_run hrun)
  rw [List.filterMap_filterMap] at hcalls
  obtain ⟨hist, hhist⟩ : ∃ hist, hist = es.filterMap Event.returned := ⟨_, rfl⟩
  have hsame : es.filterMap (fun e => e.section.bind SectionEvent.returned) = hist := hhist.symm
  rw [hsame] at hcalls
  rw [← hhist] at hnumbered ⊢
  refine ⟨hnumbered.nodup, fun n hn => (hnumbered.below n hn).trans_le hmany, ?_, ?_⟩
  · intro before after t number fd r u r' heq hget
    obtain ⟨mid, rest, rfl⟩ := List.append_of_mem hget
    have hparts : hist =
        (before ++ (t, .add number fd, r) :: mid) ++ (u, .get number, r') :: rest := by
      rw [heq, List.append_assoc, List.cons_append]
    rw [hparts] at hcalls
    have hlookup := calls_get hcalls
    rw [hlookup]
    have hinit : (before ++ (t, .add number fd, r) :: mid).Sublist hist := by
      rw [heq, ← List.cons_append, ← List.append_assoc]
      exact List.sublist_append_left ..
    refine congrArg Result.found (procGetFd_of_mem ?_ (by simp [added]))
    exact ((hinit.filterMap added).map Prod.fst).nodup hnumbered.nodup
  · intro before after u number n fd heq
    have hlookup := calls_get (heq ▸ hcalls)
    obtain ⟨hn, hmem⟩ := mem_of_procGetFd (Result.found.inj hlookup).symm
    obtain ⟨⟨t, c, r⟩, hl, hadded⟩ := List.mem_filterMap.mp hmem
    have hc : c = .add number fd := hn ▸ added_eq_some.mp hadded
    exact ⟨hn, t, r, hc ▸ hl⟩

/-- The calls in one step each. -/
def whole : ∀ c, Cut (call c)
  | .add number fd =>
      { code := .atom (fun fdList => some (fdList ++ [(number, fd)])) fun _ => .done .void
        run_eq := fun _ => rfl }
  | .get number =>
      { code := .atom some fun fdList => .done (.found (procGetFd fdList number).1)
        run_eq := fun _ => rfl }

/-- A descriptor without a driver. -/
def noDriver : Fd := ⟨0, 0, ⟨none, none⟩⟩

/-- Two threads take their numbers, and the second one is the first to add it. -/
theorem fd_table_two : ∃ (es : List (Event (Fin 2))) (s : State (Fin 2)),
    Run (Step false whole) (State.init 0) es s ∧
      (es.filterMap Event.returned).filterMap added = [(1, noDriver)] ∧
      Consistent (es.filterMap Event.returned) := by
  have hrun : Run (Step false whole) (State.init (0 : Fin 2))
      [.number 0 noDriver, .locked .other, .number 1 noDriver, .locked .other, .locked .other,
        .locked .other, .locked (.enter 1 (.add 1 noDriver)), .locked (.work 1),
        .locked (.leave 1 (.add 1 noDriver) .void)] _ :=
    .cons (.number rfl rfl)
      (.cons (.locked (.other (.tick (t := 1) rfl rfl) (by decide)) trivial)
      (.cons (.number rfl rfl)
      (.cons (.locked (.other (.exec rfl rfl) (by decide)) trivial)
      (.cons (.locked (.other (.exec rfl rfl) (by decide)) trivial)
      (.cons (.locked (.other (.exec rfl rfl) (by decide)) trivial)
      (.cons (.locked (.enter (.exec rfl rfl) (by decide) (by decide) rfl) rfl)
      (.cons (.locked (.work (by decide) (by decide) rfl rfl) trivial)
      (.cons (.locked (.leave (.exec rfl rfl) (by decide) (by decide) rfl) trivial) .nil))))))))
  exact ⟨_, _, hrun, rfl, fd_table false whole 0 hrun (by decide)⟩

end FdTable

end UlmerOS
