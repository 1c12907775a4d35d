import UlmerOS.Proc.Proc

/-!
# What a page fault asks for

The three loaders differ in how they decide and in what they put in a page, and do
the same otherwise: they allocate a frame, fill it, and map it.  `Proc.demand` is the
decision for an address and `mapFresh` the rest, so that `page_fault` is one after
the other (`pageFault_eq`).

`mapFresh_cases` is what can come of it.
-/

namespace UlmerOS

open ByteMem

/-- What `page_fault` does with an address. -/
inductive Demand where
  /-- No loader takes the address. -/
  | nothing
  /-- The lock of the loader is never released. -/
  | stuck
  /-- A page with these bytes and flags, unless reading them returned an error. -/
  | page (ret : Int) (bytes : List UInt8) (flags : Nat)
deriving DecidableEq

/-- What `loader_load` does with a page. -/
def Loader.demand (ldr : Loader) (virtPage : Nat) : Demand :=
  if ldr.locked then .stuck
  else if ldr.ready.1 < 0 then .nothing
  else
    match ldr.ready.2.pht.bind fun pht => ldr.ready.2.segment pht virtPage with
    | none => .nothing
    | some phte =>
        let (ret, bytes) := phte.contents ldr.ready.2.file virtPage
        .page ret bytes phte.pageFlags

/-- What `page_fault` does with an address of a process. -/
def Proc.demand (proc : Proc) (address : Nat) : Demand :=
  if proc.stackList.any fun stack => stack.covers (address >>> pageShift) then
    .page 0 [] (pgNoexec ||| pgUser ||| pgWrite)
  else if address ≥ proc.loader.minHeapBreak ∧ address < proc.heapBrk then
    .page 0 [] (pgWrite ||| pgUser)
  else proc.loader.demand (address >>> pageShift)

/-- The loader of a process after a fault that it was asked about. -/
def Loader.faulted (ldr : Loader) : Loader :=
  if ldr.ready.1 < 0 then { ldr.ready.2 with locked := true } else ldr.ready.2

/-- The stacks after a fault: the first that covers the page has one page more. -/
def countPage (virtPage : Nat) : List Userstack → List Userstack
  | [] => []
  | stack :: rest =>
      if stack.covers virtPage then
        { stack with pagesMapped := wrap64 (stack.pagesMapped + 1) } :: rest
      else stack :: countPage virtPage rest

/-- The process after a fault that was not stuck. -/
def Proc.faulted (proc : Proc) (address : Nat) : Proc :=
  if proc.stackList.any fun stack => stack.covers (address >>> pageShift) then
    { proc with stackList := countPage (address >>> pageShift) proc.stackList }
  else if address ≥ proc.loader.minHeapBreak ∧ address < proc.heapBrk then proc
  else { proc with loader := proc.loader.faulted }

@[simp] theorem Proc.faulted_vspace (proc : Proc) (address : Nat) :
    (proc.faulted address).vspace = proc.vspace := by
  rw [faulted]
  split
  · rfl
  · split <;> rfl

@[simp] theorem Proc.faulted_heapBrk (proc : Proc) (address : Nat) :
    (proc.faulted address).heapBrk = proc.heapBrk := by
  rw [faulted]
  split
  · rfl
  · split <;> rfl

@[simp] theorem Loader.faulted_file (ldr : Loader) : ldr.faulted.file = ldr.file := by
  rw [faulted]
  split <;> exact ldr.ready_file

@[simp] theorem Proc.faulted_file (proc : Proc) (address : Nat) :
    (proc.faulted address).loader.file = proc.loader.file := by
  rw [faulted]
  split
  · rfl
  · split
    · rfl
    · exact proc.loader.faulted_file

/-- A frame is allocated and filled, and mapped unless reading returned an error. -/
def mapFresh (m : PhysMem) (vs : Vspace) (virtPage : Nat) (ret : Int) (bytes : List UInt8)
    (flags : Nat) : Outcome (Bool × PhysMem) := do
  let (ppn, m) ← allocPage m
  let m := { m with ram := write m.ram (pageSize * ppn) bytes }
  if ret < 0 then .ret (false, freePage m ppn)
  else do
    let m ← vspaceMap m vs virtPage ppn flags
    .ret (true, m)

/-- What a demand comes to. -/
def Demand.serve (d : Demand) (m : PhysMem) (vs : Vspace) (virtPage : Nat) :
    Outcome (Bool × PhysMem) :=
  match d with
  | .nothing => .ret (false, m)
  | .stuck => .blocked
  | .page ret bytes flags => mapFresh m vs virtPage ret bytes flags

/-! ## `page_fault` in two parts -/

/-- A page without contents. -/
theorem mapFresh_zero (m : PhysMem) (vs : Vspace) (virtPage flags : Nat) :
    mapFresh m vs virtPage 0 [] flags = (do
      let (ppn, m) ← allocPage m
      let m ← vspaceMap m vs virtPage ppn flags
      .ret (true, m)) := by
  simp only [mapFresh, write_nil, Int.lt_irrefl, if_false]

theorem stackLoadList_of_covers {m : PhysMem} {vs : Vspace} {virtPage : Nat}
    {stackList : List Userstack} (h : stackList.any (fun stack => stack.covers virtPage) = true) :
    stackLoadList m vs virtPage stackList = (do
      let (_, m) ← mapFresh m vs virtPage 0 [] (pgNoexec ||| pgUser ||| pgWrite)
      .ret (0, countPage virtPage stackList, m)) := by
  rw [mapFresh_zero]
  induction stackList with
  | nil => cases h
  | cons stack rest ih =>
      rw [stackLoadList, countPage]
      by_cases hc : stack.covers virtPage
      · rw [if_pos hc, if_pos hc]
        cases allocPage m with
        | ret r =>
            simp only [Outcome.ret_bind]
            cases vspaceMap r.2 vs virtPage r.1 (pgNoexec ||| pgUser ||| pgWrite) <;> rfl
        | _ => rfl
      · have hrest : rest.any (fun stack => stack.covers virtPage) = true := by
          rw [List.any_cons, Bool.or_eq_true] at h
          exact h.resolve_left hc
        rw [if_neg hc, if_neg hc, ih hrest]
        cases allocPage m with
        | ret r =>
            simp only [Outcome.ret_bind]
            cases vspaceMap r.2 vs virtPage r.1 (pgNoexec ||| pgUser ||| pgWrite) <;> rfl
        | _ => rfl

theorem stackLoadList_of_not_covers {m : PhysMem} {vs : Vspace} {virtPage : Nat}
    {stackList : List Userstack} (h : stackList.any (fun stack => stack.covers virtPage) = false) :
    stackLoadList m vs virtPage stackList = .ret (-enoent, stackList, m) := by
  induction stackList with
  | nil => rfl
  | cons stack rest ih =>
      rw [List.any_cons, Bool.or_eq_false_iff] at h
      rw [stackLoadList, if_neg (by rw [h.1]; nofun), ih h.2]
      rfl

/-- A loader that is ready has its table. -/
theorem Loader.ready_pht (ldr : Loader) (h : ¬ ldr.ready.1 < 0) :
    ∃ pht, ldr.ready.2.pht = some pht := by
  rcases ldr.ready_cases with hready | ⟨pht, hready⟩
  · rw [hready] at h
    exact absurd (show -enoexec < 0 by decide) h
  · exact ⟨pht, by rw [hready]⟩

theorem loaderMapPage_eq (m : PhysMem) (file : File) (phte : Phte) (virtPage : Nat) (vs : Vspace) :
    loaderMapPage m file phte virtPage vs = (do
      let (ok, m) ← mapFresh m vs virtPage (phte.contents file virtPage).1
        (phte.contents file virtPage).2 phte.pageFlags
      .ret (if ok then 0 else -eio, m)) := by
  rw [loaderMapPage, mapFresh]
  cases allocPage m with
  | ret r =>
      simp only [Outcome.ret_bind]
      by_cases hret : (phte.contents file virtPage).1 < 0
      · simp only [hret, if_true]
        rfl
      · simp only [hret, if_false]
        cases vspaceMap _ vs virtPage r.1 phte.pageFlags <;> rfl
  | _ => rfl

/-- `loader_load` in the same two parts. -/
theorem loaderLoad_eq (m : PhysMem) (ldr : Loader) (virtPage : Nat) (vs : Vspace) :
    ∃ status : Bool → Int, (∀ ok, 0 ≤ status ok ↔ ok = true) ∧
      loaderLoad m ldr virtPage vs = (do
        let (ok, m) ← (ldr.demand virtPage).serve m vs virtPage
        .ret (status ok, ldr.faulted, m)) := by
  have hok : ∀ e : Int, e < 0 → ∀ ok : Bool, 0 ≤ (if ok then 0 else e) ↔ ok = true := by
    intro e he ok
    cases ok with
    | true => simp
    | false => simp; omega
  by_cases hlock : ldr.locked
  · refine ⟨fun ok => if ok then 0 else -1, hok _ (by decide), ?_⟩
    simp only [loaderLoad, Loader.demand, hlock, if_true]
    rfl
  · by_cases hready : ldr.ready.1 < 0
    · refine ⟨fun ok => if ok then 0 else ldr.ready.1, hok _ hready, ?_⟩
      simp only [loaderLoad, Loader.demand, Loader.faulted, hlock, hready, if_true]
      rfl
    · obtain ⟨pht, hpht⟩ := ldr.ready_pht hready
      simp only [loaderLoad, Loader.demand, Loader.faulted, hlock, hready, if_false, hpht,
        Option.bind_some]
      cases ldr.ready.2.segment pht virtPage with
      | none => exact ⟨fun ok => if ok then 0 else -enoent, hok _ (by decide), rfl⟩
      | some phte =>
          refine ⟨fun ok => if ok then 0 else -eio, hok _ (by decide), ?_⟩
          simp only [loaderMapPage_eq, Demand.serve, Bool.false_eq_true, if_false]
          cases mapFresh m vs virtPage (phte.contents ldr.ready.2.file virtPage).1
            (phte.contents ldr.ready.2.file virtPage).2 phte.pageFlags <;> rfl

/-- `page_fault` is what is done with the address and the process that counts it. -/
theorem pageFault_eq (m : PhysMem) (proc : Proc) (address : Nat) (bits : FaultBits) :
    pageFault m proc address bits = (do
      let (ok, m) ← (proc.demand address).serve m proc.vspace (address >>> pageShift)
      .ret (ok, proc.faulted address, m)) := by
  rw [pageFault, stackLoad, Proc.demand, Proc.faulted]
  by_cases hstack : proc.stackList.any fun stack => stack.covers (address >>> pageShift)
  · rw [if_pos hstack, if_pos hstack, stackLoadList_of_covers hstack, Demand.serve]
    simp only [mapFresh_zero]
    cases allocPage m with
    | ret r =>
        simp only [Outcome.ret_bind]
        cases vspaceMap r.2 proc.vspace (address >>> pageShift) r.1
            (pgNoexec ||| pgUser ||| pgWrite) <;> rfl
    | _ => rfl
  · rw [if_neg hstack, if_neg hstack,
      stackLoadList_of_not_covers (by rw [← Bool.not_eq_true]; exact hstack)]
    simp only [Outcome.ret_bind, show ¬ (-enoent ≥ 0) by decide, if_false, heapLoad]
    by_cases hheap : address ≥ proc.loader.minHeapBreak ∧ address < proc.heapBrk
    · simp only [if_pos hheap, Demand.serve, mapFresh_zero]
      cases allocPage m with
      | ret r =>
          simp only [Outcome.ret_bind]
          cases vspaceMap r.2 proc.vspace (address >>> pageShift) r.1 (pgWrite ||| pgUser) <;> rfl
      | _ => rfl
    · obtain ⟨status, hstatus, hload⟩ :=
        loaderLoad_eq m proc.loader (address >>> pageShift) proc.vspace
      simp only [if_neg hheap, Outcome.ret_bind, show ¬ (-enoent ≥ 0) by decide, if_false, hload]
      cases (proc.loader.demand (address >>> pageShift)).serve m proc.vspace
          (address >>> pageShift) with
      | ret r =>
          have hr : decide (status r.1 ≥ 0) = r.1 := by
            rw [Bool.eq_iff_iff, decide_eq_true_iff]
            exact hstatus r.1
          simp only [Outcome.ret_bind, hr]
      | _ => rfl

/-! ## A fresh page -/

/-- A frame was allocated and has these bytes, and zeroes behind them. -/
structure Filled (m : PhysMem) (p : Nat) (bytes : List UInt8) (m' : PhysMem) : Prop where
  free : m.Free p
  free_iff : ∀ f, m'.Free f ↔ m.Free f ∧ f ≠ p
  size_eq : m'.size = m.size
  calls_eq : m'.calls = .alloc p :: m.calls
  ram_keep : ∀ x, x / pageSize ≠ p → m'.ram x = m.ram x
  ram_page : ∀ i, i < pageSize → m'.ram (pageSize * p + i) = bytes.getD i 0

theorem filled_of_alloc {m m1 : PhysMem} {p : Nat} {bytes : List UInt8} (h : Allocated m p m1)
    (hlen : bytes.length ≤ pageSize) :
    Filled m p bytes { m1 with ram := write m1.ram (pageSize * p) bytes } where
  free := h.free
  free_iff := h.free_iff
  size_eq := h.size_eq
  calls_eq := h.calls_eq
  ram_keep := by
    intro x hx
    rw [pageSize] at *
    simp only [write]
    rw [if_neg (by omega), h.ram_eq]
    exact fill_ram m.ram hx
  ram_page := by
    intro i hi
    simp only [write, Nat.add_sub_cancel_left]
    split
    · rfl
    · rename_i hout
      rw [h.ram_eq, fill_of_mem (by omega) (by omega), List.getD_eq_default _ _ (by omega)]

namespace Filled

variable {m m' : PhysMem} {vs : Vspace} {p : Nat} {bytes : List UInt8}

/-- The frame was not a table. -/
theorem ram_table (h : Filled m p bytes m') (hused : TablesUsed m vs) {x : Nat}
    (hx : IsTable m vs (x / pageSize)) : m'.ram x = m.ram x := by
  refine h.ram_keep x ?_
  rintro rfl
  exact hused _ hx h.free

theorem walk_eq (h : Filled m p bytes m') (hused : TablesUsed m vs) {q : Path}
    (hq : q.length ≤ 4) : walk m' vs q = walk m vs q :=
  walk_congr (fun _ => h.ram_table hused) hq

theorem entry_eq (h : Filled m p bytes m') (hused : TablesUsed m vs) {q : Path}
    (hq : q.length ≤ 3) (i : Fin 512) : entry m' vs q i = entry m vs q i :=
  entry_congr (fun _ => h.ram_table hused) hq i

theorem translation_eq (h : Filled m p bytes m') (hused : TablesUsed m vs) (virt : Nat) :
    translation m' vs virt = translation m vs virt :=
  translation_congr (fun _ => h.ram_table hused) virt

theorem separated (h : Filled m p bytes m') (hused : TablesUsed m vs) (hsep : Separated m vs) :
    Separated m' vs :=
  Radix.Separated.of_node_eq hsep fun _ hq => h.walk_eq hused (by omega)

theorem isTable_iff (h : Filled m p bytes m') (hused : TablesUsed m vs) {f : Nat} :
    IsTable m' vs f ↔ IsTable m vs f := by
  constructor
  · rintro ⟨q, hq, hw⟩
    exact ⟨q, hq, (h.walk_eq hused (by omega)).symm.trans hw⟩
  · rintro ⟨q, hq, hw⟩
    exact ⟨q, hq, (h.walk_eq hused (by omega)).trans hw⟩

theorem tablesUsed (h : Filled m p bytes m') (hused : TablesUsed m vs) : TablesUsed m' vs := by
  intro f hf hfree
  exact hused f ((h.isTable_iff hused).mp hf) ((h.free_iff f).mp hfree).1

end Filled

/-- A frame was allocated and filled, and given back or mapped. -/
inductive MapFresh (vs : Vspace) (m : PhysMem) (virt : Nat) (ret : Int) (bytes : List UInt8)
    (flags : Nat) : Bool → PhysMem → Prop where
  | failed {m1 : PhysMem} {p : Nat} : ret < 0 → Filled m p bytes m1 →
      MapFresh vs m virt ret bytes flags false (freePage m1 p)
  | mapped {m1 m' : PhysMem} {p : Nat} : 0 ≤ ret → Filled m p bytes m1 →
      Mapped vs m1 virt p flags m' → MapFresh vs m virt ret bytes flags true m'

/-- A fresh page is mapped or reading it failed, or no frame is left. -/
theorem mapFresh_cases {vs : Vspace} {m : PhysMem} (virt : Nat) (ret : Int) {bytes : List UInt8}
    (flags : Nat) (hlen : bytes.length ≤ pageSize) (hsep : Separated m vs)
    (hused : TablesUsed m vs) :
    mapFresh m vs virt ret bytes flags = .panic "alloc_page() out of memory" ∨
      ∃ ok m', mapFresh m vs virt ret bytes flags = .ret (ok, m') ∧
        MapFresh vs m virt ret bytes flags ok m' := by
  rw [mapFresh]
  rcases allocPage_cases m with ha | ⟨p, m1, ha, hal⟩
  · exact .inl (by rw [ha]; rfl)
  · have hfill := filled_of_alloc hal hlen
    rw [ha]
    simp only [Outcome.ret_bind]
    by_cases hret : ret < 0
    · rw [if_pos hret]
      exact .inr ⟨_, _, rfl, .failed hret hfill⟩
    · rw [if_neg hret]
      rcases vspaceMap_cases virt p flags (hfill.separated hused hsep) (hfill.tablesUsed hused) with
        hm | ⟨m', hm, hmapped⟩
      · exact .inl (by rw [hm]; rfl)
      · rw [hm]
        exact .inr ⟨_, _, rfl, .mapped (by omega) hfill hmapped⟩

/-- A page is mapped to the frame that was just allocated. -/
theorem mapFresh_of_map {m m1 m' : PhysMem} {vs : Vspace} {virt ppn flags : Nat}
    (hsep : Separated m vs) (hused : TablesUsed m vs) (halloc : allocPage m = .ret (ppn, m1))
    (hmap : vspaceMap m1 vs virt ppn flags = .ret m') :
    MapFresh vs m virt 0 [] flags true m' := by
  have hret : mapFresh m vs virt 0 [] flags = .ret (true, m') := by
    rw [mapFresh_zero, halloc, Outcome.ret_bind]
    simp only [hmap, Outcome.ret_bind]
  have hlen : ([] : List UInt8).length ≤ pageSize := Nat.zero_le pageSize
  rcases mapFresh_cases virt 0 flags hlen hsep hused with hp | ⟨ok, m2, heq, hfresh⟩
  · rw [hp] at hret
    cases hret
  · rw [heq] at hret
    cases hret
    exact hfresh

/-- A page that was not mapped is mapped to a frame with the bytes it was given. -/
theorem MapFresh.frame {vs : Vspace} {m m' : PhysMem} {virt : Nat} {ret : Int} {bytes : List UInt8}
    {flags : Nat} (h : MapFresh vs m virt ret bytes flags true m') (hused : TablesUsed m vs)
    (hnone : translation m vs virt = none) :
    ∃ p, translation m' vs virt = some (Mapping.ofFlags p flags) ∧
      ∀ i, i < pageSize → m'.ram (pageSize * p + i) = bytes.getD i 0 := by
  cases h with
  | @mapped m1 _ p _ hfill hmapped =>
      cases hmapped with
      | present hne => exact absurd (by rw [hfill.translation_eq hused]; exact hnone) hne
      | @added m2 _ e _ hg hset _ _ =>
          have hlt : p < 2 ^ 32 := Nat.lt_of_lt_of_le hfill.free.1 m.freePages.small
          have hp1 : ¬ m1.Free p := fun hfree => ((hfill.free_iff p).mp hfree).2 rfl
          have hp2 : ¬ IsTable m1 vs p := fun ht =>
            hused p ((hfill.isTable_iff hused).mp ht) hfill.free
          obtain ⟨hp3, hram⟩ := hg.keeps hp1 hp2
          refine ⟨p, ?_, fun i hi => ?_⟩
          · rw [hset.translation_eq, if_pos rfl, pageEntry_mapping e flags (by omega)]
          · have hx : (pageSize * p + i) / pageSize = p := by
              rw [pageSize] at *
              omega
            rw [hset.ram_keep _ (by rw [hx]; exact hp3), hram _ hx]
            exact hfill.ram_page i hi

/-! ## What comes of a page fault -/

/-- No more than a page is read for a page. -/
theorem Phte.contents_length (phte : Phte) {file : File} (hfile : file.Bounded) (virtPage : Nat) :
    (phte.contents file virtPage).2.length ≤ pageSize := by
  rw [contents]
  split
  · rename_i hend
    refine (hfile _ _).trans ?_
    have hlt := wrap64_lt (virtPage <<< pageShift)
    have hword : word = 4096 * 2 ^ 52 := rfl
    have halign : wrap64 (virtPage <<< pageShift) % 4096 = 0 := by
      rw [wrap64, pageShift, Nat.shiftLeft_eq, hword]
      omega
    rw [readSize, pageSize]
    split
    · rename_i hlast
      rw [wrap64, hword] at hlast
      rw [wrap64, hword]
      rw [hword] at hlt
      omega
    · exact Nat.le_refl _
  · exact Nat.zero_le _

/-- A page is asked for with no more bytes than it has. -/
theorem Proc.demand_length {proc : Proc} {address : Nat} {ret : Int} {bytes : List UInt8}
    {flags : Nat} (hfile : proc.loader.file.Bounded)
    (h : proc.demand address = .page ret bytes flags) : bytes.length ≤ pageSize := by
  rw [demand] at h
  split at h
  · cases h
    exact Nat.zero_le _
  split at h
  · cases h
    exact Nat.zero_le _
  rw [Loader.demand, Loader.ready_file] at h
  split at h
  · cases h
  split at h
  · cases h
  split at h
  · cases h
  · cases h
    exact Phte.contents_length _ hfile _

/-- What comes of a demand that is not stuck. -/
inductive Served (vs : Vspace) (m : PhysMem) (virt : Nat) : Demand → Bool → PhysMem → Prop where
  | nothing : Served vs m virt .nothing false m
  | page {ret : Int} {bytes : List UInt8} {flags : Nat} {ok : Bool} {m' : PhysMem} :
      MapFresh vs m virt ret bytes flags ok m' → Served vs m virt (.page ret bytes flags) ok m'

/-- `page_fault` waits for the lock of the loader, or no frame is left, or it returns. -/
theorem pageFault_cases {m : PhysMem} {proc : Proc} (address : Nat) (bits : FaultBits)
    (hfile : proc.loader.file.Bounded) (hsep : Separated m proc.vspace)
    (hused : TablesUsed m proc.vspace) :
    (proc.demand address = .stuck ∧ pageFault m proc address bits = .blocked) ∨
      pageFault m proc address bits = .panic "alloc_page() out of memory" ∨
      ∃ ok m', pageFault m proc address bits = .ret (ok, proc.faulted address, m') ∧
        Served proc.vspace m (address >>> pageShift) (proc.demand address) ok m' := by
  rw [pageFault_eq]
  cases hd : proc.demand address with
  | nothing => exact .inr (.inr ⟨_, _, rfl, .nothing⟩)
  | stuck => exact .inl ⟨rfl, rfl⟩
  | page ret bytes flags =>
      rw [Demand.serve]
      rcases mapFresh_cases (address >>> pageShift) ret flags (Proc.demand_length hfile hd) hsep
        hused with hm | ⟨ok, m', hm, hmap⟩
      · exact .inr (.inl (by rw [hm]; rfl))
      · exact .inr (.inr ⟨ok, m', by rw [hm]; rfl, .page hmap⟩)

/-- What a page fault that returned has done. -/
theorem pageFault_ret {m m' : PhysMem} {proc proc' : Proc} {address : Nat} {bits : FaultBits}
    {ok : Bool} (hfile : proc.loader.file.Bounded) (hsep : Separated m proc.vspace)
    (hused : TablesUsed m proc.vspace)
    (h : pageFault m proc address bits = .ret (ok, proc', m')) :
    proc' = proc.faulted address ∧
      Served proc.vspace m (address >>> pageShift) (proc.demand address) ok m' := by
  rcases pageFault_cases address bits hfile hsep hused with
    ⟨-, hb⟩ | hp | ⟨ok', m1, heq, hserved⟩
  · rw [hb] at h
    cases h
  · rw [hp] at h
    cases h
  · rw [heq] at h
    cases h
    exact ⟨rfl, hserved⟩

end UlmerOS
