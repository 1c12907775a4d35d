import UlmerOS.Proc.Demand

/-!
# Progress of a page fault

When `page_fault` returns true the access is made again.  It does not fault in the
same way if every entry on the way to the page is present and allows it (`Permits`).

`vspace_map` leaves an entry alone that is present, and no loader looks at the error
bits.  `FaultOk` is when this does no harm, and `page_fault_progress` says that a
fault makes progress exactly then.
-/

namespace UlmerOS

/-- The permissions in an entry allow the access. -/
def Gpte.Allows (e : Gpte) (bits : FaultBits) : Prop :=
  (bits.write = true → e.write = true) ∧ (bits.user = true → e.user = true) ∧
    (bits.exec = true → e.noExec = false)

/-- The processor finds the page and allows the access on all four levels. -/
def Permits (m : PhysMem) (vs : Vspace) (virt : Nat) (bits : FaultBits) : Prop :=
  ∀ q i, q ++ [i] <+: pagePath virt →
    ∃ e, entry m vs q i = some e ∧ e.present = true ∧ e.Allows bits

/-- The access is allowed by the permissions that a page is mapped with. -/
def FlagsAllow (flags : Nat) (bits : FaultBits) : Prop :=
  (bits.write = true → flags &&& pgWrite ≠ 0) ∧ (bits.user = true → flags &&& pgUser ≠ 0) ∧
    (bits.exec = true → flags &&& pgNoexec = 0)

/-- The entry allows the access, or will when `vspace_map` has put a table below it. -/
def Gpte.WillAllow (e : Gpte) (bits : FaultBits) : Prop :=
  (e.present = true → e.Allows bits) ∧ (bits.exec = true → e.noExec = false)

/-- The entries there are above the one of the page will allow the access. -/
def TablesAllow (m : PhysMem) (vs : Vspace) (virt : Nat) (bits : FaultBits) : Prop :=
  ∀ q i e, q ++ [i] <+: ptblPath virt → entry m vs q i = some e → e.WillAllow bits

/-- When a fault makes progress: it is refused, or the page is mapped and allows the
access already, or it is not mapped and the loader that takes the address maps it with
permissions that allow the access, below tables that do. -/
inductive FaultOk (m : PhysMem) (proc : Proc) (address : Nat) (bits : FaultBits) : Prop where
  | refused : proc.demand address = .nothing → FaultOk m proc address bits
  | unreadable {ret : Int} {bytes : List UInt8} {flags : Nat} :
      proc.demand address = .page ret bytes flags → ret < 0 → FaultOk m proc address bits
  | spurious {ret : Int} {bytes : List UInt8} {flags : Nat} :
      proc.demand address = .page ret bytes flags →
      Permits m proc.vspace (address >>> pageShift) bits → FaultOk m proc address bits
  | fresh {ret : Int} {bytes : List UInt8} {flags : Nat} :
      proc.demand address = .page ret bytes flags →
      translation m proc.vspace (address >>> pageShift) = none → FlagsAllow flags bits →
      TablesAllow m proc.vspace (address >>> pageShift) bits → FaultOk m proc address bits

/-- An entry on a path is in a table above the end of the path. -/
theorem length_lt_of_entry {q path : Path} {i : Fin 512} (h : q ++ [i] <+: path) :
    q.length < path.length := by
  have hle := h.length_le
  rw [List.length_append, List.length_singleton] at hle
  exact hle

/-! ## Tables that are added -/

theorem tableEntry_willAllow {e : Gpte} (g : Nat) {bits : FaultBits} (h : e.present = false) :
    (tableEntry e g).WillAllow bits ↔ e.WillAllow bits := by
  simp only [Gpte.WillAllow, Gpte.Allows, tableEntry, h]
  simp

theorem noGpte_willAllow (bits : FaultBits) : noGpte.WillAllow bits :=
  ⟨nofun, fun _ => rfl⟩

theorem Installed.tablesAllow_iff {vs : Vspace} {m m' : PhysMem} {p : Path} {i : Fin 512}
    {g virt : Nat} {bits : FaultBits} (h : Installed vs m p i g m') :
    TablesAllow m' vs virt bits ↔ TablesAllow m vs virt bits := by
  obtain ⟨e, he, he'⟩ := h.entry_self
  have habsent : e.present = false := by
    have hempty := h.empty
    rw [walk_snoc_entry, he, Option.bind_some, Gpte.child] at hempty
    cases hp : e.present with
    | false => rfl
    | true => rw [hp, if_pos rfl] at hempty; cases hempty
  have hlen : ∀ q : Path, ∀ j, q ++ [j] <+: ptblPath virt → q.length ≤ 3 :=
    fun q j hq => (length_lt_of_entry hq).le
  constructor
  · intro hall q j e0 hq he0
    by_cases hself : q = p ∧ j = i
    · obtain ⟨rfl, rfl⟩ := hself
      rw [he] at he0
      obtain rfl := Option.some.inj he0
      exact (tableEntry_willAllow g habsent).mp (hall q j _ hq he')
    · by_cases hnew : q = p ++ [i]
      · rw [hnew, entry_eq, h.empty] at he0
        cases he0
      · exact hall q j e0 hq (by rw [h.entry_keep q j (hlen q j hq) hself hnew]; exact he0)
  · intro hall q j e0 hq he0
    by_cases hself : q = p ∧ j = i
    · obtain ⟨rfl, rfl⟩ := hself
      rw [he'] at he0
      obtain rfl := Option.some.inj he0
      exact (tableEntry_willAllow g habsent).mpr (hall q j e hq he)
    · by_cases hnew : q = p ++ [i]
      · rw [hnew, h.entry_new] at he0
        obtain rfl := Option.some.inj he0
        exact noGpte_willAllow bits
      · exact hall q j e0 hq (by rw [← h.entry_keep q j (hlen q j hq) hself hnew]; exact he0)

theorem Grows.tablesAllow_iff {vs : Vspace} {m m' : PhysMem} {path : Path} {virt : Nat}
    {bits : FaultBits} (h : Grows vs path m m') :
    TablesAllow m' vs virt bits ↔ TablesAllow m vs virt bits := by
  induction h with
  | refl => exact Iff.rfl
  | install hi _ _ ih => exact ih.trans hi.tablesAllow_iff

/-! ## The page that is mapped -/

theorem pageEntry_allows (e : Gpte) (phys flags : Nat) (bits : FaultBits) :
    (pageEntry e phys flags).Allows bits ↔ FlagsAllow flags bits := by
  simp only [pageEntry, Gpte.Allows, FlagsAllow, decide_eq_true_eq, decide_eq_false_iff_not,
    not_not, ne_eq]

/-- A page whose entry was just written allows what it was mapped for. -/
theorem EntrySet.permits_iff {vs : Vspace} {m m' : PhysMem} {virt phys flags : Nat} {e : Gpte}
    {bits : FaultBits} (h : EntrySet vs m virt (pageEntry e phys flags) m') :
    Permits m' vs virt bits ↔ TablesAllow m vs virt bits ∧ FlagsAllow flags bits := by
  have hkeep : ∀ q i, q ++ [i] <+: ptblPath virt → entry m' vs q i = entry m vs q i := by
    intro q i hq
    have hlt := length_lt_of_entry hq
    refine h.entry_keep q i hlt.le ?_
    rintro ⟨rfl, -⟩
    exact Nat.lt_irrefl _ hlt
  constructor
  · intro hper
    refine ⟨fun q i e0 hq he0 => ?_, ?_⟩
    · obtain ⟨e1, he1, hpres, hall⟩ := hper q i (hq.trans ⟨[_], rfl⟩)
      rw [hkeep q i hq, he0] at he1
      obtain rfl := Option.some.inj he1
      exact ⟨fun _ => hall, hall.2.2⟩
    · obtain ⟨e1, he1, -, hall⟩ := hper (ptblPath virt) (tableIndex virt 0) (List.prefix_refl _)
      rw [h.entry_self] at he1
      obtain rfl := Option.some.inj he1
      exact (pageEntry_allows e phys flags bits).mp hall
  · rintro ⟨htab, hflags⟩ q i hq
    rw [pagePath_eq] at hq
    rcases List.prefix_concat_iff.mp hq with heq | hpre
    · obtain ⟨rfl, hi⟩ := List.append_inj' heq rfl
      obtain rfl := (List.cons.inj hi).1
      exact ⟨_, h.entry_self, rfl, (pageEntry_allows e phys flags bits).mpr hflags⟩
    · -- the table below this entry was found, so that the entry is present
      have hself := h.entry_self
      rw [entry_eq] at hself
      cases hw : walk m' vs (ptblPath virt) with
      | none => rw [hw] at hself; cases hself
      | some t =>
          obtain ⟨f, hf⟩ := Radix.node_prefix hpre hw
          have hf' : walk m' vs (q ++ [i]) = some f := hf
          rw [walk_snoc_entry, hkeep q i hpre] at hf'
          rw [hkeep q i hpre]
          cases he0 : entry m vs q i with
          | none => rw [he0] at hf'; cases hf'
          | some e0 =>
              rw [he0, Option.bind_some, Gpte.child] at hf'
              cases hp : e0.present with
              | false => rw [hp] at hf'; cases hf'
              | true => exact ⟨e0, rfl, hp, (htab q i e0 hpre he0).1 hp⟩

/-- A page that can be used is mapped. -/
theorem Permits.mapped {m : PhysMem} {vs : Vspace} {virt : Nat} {bits : FaultBits}
    (h : Permits m vs virt bits) : ∃ mp, translation m vs virt = some mp ∧
      (bits.write = true → mp.write = true) ∧ (bits.user = true → mp.user = true) ∧
      (bits.exec = true → mp.noExec = false) := by
  obtain ⟨e, he, hpres, hall⟩ := h (ptblPath virt) (tableIndex virt 0) (List.prefix_refl _)
  refine ⟨⟨e.ppn, e.write, e.user, e.noExec⟩, ?_, hall⟩
  rw [translation_eq, he, Option.bind_some, Gpte.mapping, if_pos hpres]

/-! ## The page that is filled -/

theorem Filled.permits_iff {vs : Vspace} {m m' : PhysMem} {p virt : Nat} {bytes : List UInt8}
    {bits : FaultBits} (h : Filled m p bytes m') (hused : TablesUsed m vs) :
    Permits m' vs virt bits ↔ Permits m vs virt bits := by
  have heq : ∀ q i, q ++ [i] <+: pagePath virt → entry m' vs q i = entry m vs q i := by
    intro q i hq
    exact h.entry_eq hused (Nat.le_of_lt_succ (length_lt_of_entry hq)) i
  constructor
  · intro hper q i hq
    rw [← heq q i hq]
    exact hper q i hq
  · intro hper q i hq
    rw [heq q i hq]
    exact hper q i hq

theorem Filled.tablesAllow_iff {vs : Vspace} {m m' : PhysMem} {p virt : Nat} {bytes : List UInt8}
    {bits : FaultBits} (h : Filled m p bytes m') (hused : TablesUsed m vs) :
    TablesAllow m' vs virt bits ↔ TablesAllow m vs virt bits := by
  have heq : ∀ q i, q ++ [i] <+: ptblPath virt → entry m' vs q i = entry m vs q i := by
    intro q i hq
    exact h.entry_eq hused (length_lt_of_entry hq).le i
  constructor
  · intro hall q i e hq he
    exact hall q i e hq (by rw [heq q i hq]; exact he)
  · intro hall q i e hq he
    exact hall q i e hq (by rw [← heq q i hq]; exact he)

/-- What can be done with a page after a loader has mapped it. -/
theorem MapFresh.permits_iff {vs : Vspace} {m m' : PhysMem} {virt : Nat} {ret : Int}
    {bytes : List UInt8} {flags : Nat} (h : MapFresh vs m virt ret bytes flags true m')
    (hused : TablesUsed m vs) (bits : FaultBits) :
    Permits m' vs virt bits ↔ Permits m vs virt bits ∨
      (translation m vs virt = none ∧ FlagsAllow flags bits ∧ TablesAllow m vs virt bits) := by
  cases h with
  | mapped _ hfill hmapped =>
      cases hmapped with
      | present hne =>
          rw [hfill.translation_eq hused] at hne
          rw [hfill.permits_iff hused]
          exact ⟨Or.inl, fun hor => hor.elim id fun hc => absurd hc.1 hne⟩
      | added hnone hg hset _ _ =>
          rw [hfill.translation_eq hused] at hnone
          rw [hset.permits_iff, hg.tablesAllow_iff, hfill.tablesAllow_iff hused]
          constructor
          · rintro ⟨htab, hflags⟩
            exact .inr ⟨hnone, hflags, htab⟩
          · rintro (hper | ⟨-, hflags, htab⟩)
            · obtain ⟨mp, hmp, -⟩ := hper.mapped
              rw [hnone] at hmp
              cases hmp
            · exact ⟨htab, hflags⟩

/-! ## Progress -/

/-- The lock of the loader is not waited for. -/
theorem FaultOk.not_stuck {m : PhysMem} {proc : Proc} {address : Nat} {bits : FaultBits}
    (h : FaultOk m proc address bits) : proc.demand address ≠ .stuck := by
  intro hstuck
  cases h with
  | refused hd => rw [hstuck] at hd; cases hd
  | unreadable hd _ => rw [hstuck] at hd; cases hd
  | spurious hd _ => rw [hstuck] at hd; cases hd
  | fresh hd _ _ _ => rw [hstuck] at hd; cases hd

/-- What was done for a fault lets the access through exactly if the fault was one that
makes progress. -/
theorem Served.progress_iff {m m' : PhysMem} {proc : Proc} {address : Nat} {ok : Bool}
    (h : Served proc.vspace m (address >>> pageShift) (proc.demand address) ok m')
    (hused : TablesUsed m proc.vspace) (bits : FaultBits) :
    (ok = true → Permits m' proc.vspace (address >>> pageShift) bits) ↔
      FaultOk m proc address bits := by
  generalize hd : proc.demand address = d at h
  cases h with
  | nothing => exact ⟨fun _ => .refused hd, fun _ => nofun⟩
  | @page ret bytes flags ok m' hmap =>
      cases ok with
      | false =>
          cases hmap with
          | failed hneg _ => exact ⟨fun _ => .unreadable hd hneg, fun _ => nofun⟩
      | true =>
          have hper := hmap.permits_iff hused bits
          constructor
          · intro hok
            rcases hper.mp (hok rfl) with hbefore | ⟨hnone, hflags, htab⟩
            · exact .spurious hd hbefore
            · exact .fresh hd hnone hflags htab
          · intro hok _
            refine hper.mpr ?_
            cases hok with
            | refused hd' => rw [hd] at hd'; cases hd'
            | unreadable hd' hneg =>
                rw [hd] at hd'
                cases hd'
                cases hmap with
                | mapped hpos _ _ => omega
            | spurious _ hbefore => exact .inl hbefore
            | fresh hd' hnone hflags htab =>
                rw [hd] at hd'
                cases hd'
                exact .inr ⟨hnone, hflags, htab⟩

/-- **A page fault makes progress** exactly if it is refused, if the page allows the
access already, or if it is not mapped and is mapped with what the access needs. -/
theorem page_fault_progress {m : PhysMem} {proc : Proc} (address : Nat) (bits : FaultBits)
    (hfile : proc.loader.file.Bounded) (hsep : Separated m proc.vspace)
    (hused : TablesUsed m proc.vspace)
    (hmem : pageFault m proc address bits ≠ .panic "alloc_page() out of memory") :
    (∃ ok proc' m', pageFault m proc address bits = .ret (ok, proc', m') ∧
      (ok = true → Permits m' proc'.vspace (address >>> pageShift) bits)) ↔
      FaultOk m proc address bits := by
  rcases pageFault_cases address bits hfile hsep hused with
    ⟨hstuck, hblocked⟩ | hpanic | ⟨ok, m', hret, hserved⟩
  · constructor
    · rintro ⟨_, _, _, hret, -⟩
      rw [hblocked] at hret
      cases hret
    · intro hok
      exact absurd hstuck hok.not_stuck
  · exact absurd hpanic hmem
  · have hiff : (∃ ok proc' m', pageFault m proc address bits = .ret (ok, proc', m') ∧
        (ok = true → Permits m' proc'.vspace (address >>> pageShift) bits)) ↔
        (ok = true → Permits m' proc.vspace (address >>> pageShift) bits) := by
      rw [hret]
      constructor
      · rintro ⟨_, _, _, heq, hper⟩
        cases heq
        rw [Proc.faulted_vspace] at hper
        exact hper
      · intro hper
        exact ⟨ok, _, m', rfl, by rw [Proc.faulted_vspace]; exact hper⟩
    rw [hiff]
    exact hserved.progress_iff hused bits

/-- An exception that the task goes on after was a page fault of a process, and the
access is let through exactly if the fault was one that makes progress. -/
theorem x86Exception_handled {m m' : PhysMem} {process process' : Option Proc}
    {exc error cr2 : Nat} (hfile : ∀ proc ∈ process, proc.loader.file.Bounded)
    (hsep : ∀ proc ∈ process, Separated m proc.vspace)
    (hused : ∀ proc ∈ process, TablesUsed m proc.vspace)
    (h : x86Exception m process exc error cr2 = .ret (true, process', m')) :
    exc = excPageFault ∧ ∃ proc, process = some proc ∧ process' = some (proc.faulted cr2) ∧
      (Permits m' proc.vspace (cr2 >>> pageShift) (FaultBits.ofError error) ↔
        FaultOk m proc cr2 (FaultBits.ofError error)) := by
  unfold x86Exception at h
  split at h
  · rename_i hexc
    cases process with
    | none => cases h
    | some proc =>
        obtain ⟨⟨ok, proc', m1⟩, hfault, hret⟩ := Outcome.bind_eq_ret.mp h
        cases hret
        obtain ⟨rfl, hserved⟩ :=
          pageFault_ret (hfile proc rfl) (hsep proc rfl) (hused proc rfl) hfault
        refine ⟨hexc, proc, rfl, rfl, ?_⟩
        rw [← hserved.progress_iff (hused proc rfl)]
        exact ⟨fun hper _ => hper, fun hper => hper rfl⟩
  · cases h

/-- A new address space has no tables that could forbid an access of the user. -/
theorem Created.tablesAllow {m m' : PhysMem} {kernel vs : Vspace} {virt : Nat} {bits : FaultBits}
    (h : Created m kernel vs m') (hused : TablesUsed m kernel)
    (huser : (tableIndex virt 27).val < 256) : TablesAllow m' vs virt bits := by
  intro q i e hq he
  cases q with
  | nil =>
      obtain rfl : i = tableIndex virt 27 := (List.cons_prefix_cons.mp hq).1
      rw [entry_eq, walk, Radix.node_nil, Option.map_some, h.tables_eq, if_pos rfl,
        if_neg (by omega)] at he
      obtain rfl := Option.some.inj he
      exact noGpte_willAllow bits
  | cons j q =>
      rw [List.cons_append] at hq
      obtain ⟨rfl, htail⟩ := List.cons_prefix_cons.mp hq
      rw [h.entry_cons hused _ _ (length_lt_of_entry htail).le, if_neg (by omega)] at he
      cases he

/-- A new process writes to its stack. -/
theorem page_fault_progress_first_push : ∃ proc m ok proc' m',
    boot textElf = .ret (proc, m) ∧
      pageFault m proc 0x7ffffdfffff8 ⟨false, true, true, false⟩ = .ret (ok, proc', m') ∧
      (ok = true → Permits m' proc'.vspace 0x7ffffdfff ⟨false, true, true, false⟩) := by
  have hcompute : (do
      let booted ← boot textElf
      let faulted ← pageFault booted.2 booted.1 0x7ffffdfffff8 ⟨false, true, true, false⟩
      .ret (faulted.1, booted.1.demand 0x7ffffdfffff8,
        (translation booted.2 booted.1.vspace 0x7ffffdfff).map Mapping.ppn)) =
      .ret (true, .page 0 [] 7, none) := by decide +kernel
  obtain ⟨⟨proc, m⟩, hboot, hrest⟩ := Outcome.bind_eq_ret.mp hcompute
  obtain ⟨⟨ok, r⟩, hfault, hvals⟩ := Outcome.bind_eq_ret.mp hrest
  obtain ⟨ldr, -, hstart⟩ := boot_ret hboot
  have hc := (procStart_ret emptyMachine_kernel.used hstart).1
  simp only [Outcome.ret.injEq, Prod.mk.injEq, Option.map_eq_none_iff] at hvals
  obtain ⟨-, hdemand, hnone⟩ := hvals
  have hok : FaultOk m proc 0x7ffffdfffff8 ⟨false, true, true, false⟩ := by
    refine .fresh hdemand hnone ⟨?_, ?_, ?_⟩ (hc.tablesAllow emptyMachine_kernel.used ?_)
    · exact fun _ => by decide
    · exact fun _ => by decide
    · exact fun hbit => absurd hbit Bool.false_ne_true
    · rw [tableIndex]
      decide
  obtain ⟨ok, proc', m', hret, hper⟩ := (page_fault_progress 0x7ffffdfffff8
    ⟨false, true, true, false⟩ (boot_bounded hboot) (hc.separated emptyMachine_kernel)
    (hc.tablesUsed emptyMachine_kernel.used) (by rw [hfault]; simp)).mpr hok
  exact ⟨proc, m, ok, proc', m', hboot, hret, hper⟩

/-- A write to the text of a new process is handled, and the page that is mapped for
it is one that cannot be written to. -/
theorem text_write_repeats : ∃ proc m proc' m',
    boot textElf = .ret (proc, m) ∧
      proc.loader.file.Bounded ∧ Separated m proc.vspace ∧ TablesUsed m proc.vspace ∧
      pageFault m proc 0x400000 ⟨false, true, true, false⟩ = .ret (true, proc', m') ∧
      ¬ Permits m' proc'.vspace (0x400000 >>> pageShift) ⟨false, true, true, false⟩ := by
  have hcompute : (do
      let booted ← boot textElf
      let faulted ← pageFault booted.2 booted.1 0x400000 ⟨false, true, true, false⟩
      .ret (faulted.1,
        (translation faulted.2.2 faulted.2.1.vspace (0x400000 >>> pageShift)).map
          Mapping.write)) =
      .ret (true, some false) := by decide +kernel
  obtain ⟨⟨proc, m⟩, hboot, hrest⟩ := Outcome.bind_eq_ret.mp hcompute
  obtain ⟨⟨ok, proc', m'⟩, hfault, hvals⟩ := Outcome.bind_eq_ret.mp hrest
  obtain ⟨ldr, -, hstart⟩ := boot_ret hboot
  have hc := (procStart_ret emptyMachine_kernel.used hstart).1
  simp only [Outcome.ret.injEq, Prod.mk.injEq] at hvals
  obtain ⟨rfl, hwrite⟩ := hvals
  refine ⟨proc, m, proc', m', hboot, boot_bounded hboot, hc.separated emptyMachine_kernel,
    hc.tablesUsed emptyMachine_kernel.used, hfault, fun hper => ?_⟩
  obtain ⟨mp, hmp, hw, -⟩ := hper.mapped
  rw [hmp, Option.map_some, hw rfl] at hwrite
  cases hwrite

end UlmerOS
