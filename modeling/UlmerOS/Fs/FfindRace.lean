import UlmerOS.Fs.FfindCreate
import UlmerOS.Fs.FfindRoot
import UlmerOS.Lib.Run

/-!
# Creations of one path at the same time

`vfs_mkdir` and `vfs_mknod` test for the path and create it in two lookups, and take the tree
lock for each of them.  A run here is any interleaving of such calls, cut where a call holds no
lock: the first lookup, the allocation, the second lookup, and `kfree`.

The second lookup has the address of the variable `file` for its node.  If it finds the path,
it stores the file that is there, and the caller frees that one.  And it does not notice what
another call has created, since that is not found by its name.  So a call can free what is not
its own, and two calls can return `SUCCESS`.

Neither happens if the path is not created between the two lookups of a call, and is found
once it has been created (`creations_race`).  `Inv` carries this: a call that is on its way
began when none had created the path, and its `file_t` is its own and in no directory.
-/

namespace UlmerOS.Fs

open Transition

/-! ## What directories lead to -/

/-- A payload leads to a `file_t`. -/
def Slot.Leads : Slot → Nat → Prop
  | .dentry entry, a => entry.file = a ∧ a ≠ 0
  | .file f, a => f = a

/-- The entry of a directory leads to a `file_t`: it is a node of the tree. -/
def Listed (s : Vfs) (a : Nat) : Prop :=
  ∃ dir d slot, s.dirs dir = some d ∧ slot ∈ d.files ∧ slot.Leads a

/-- No directory leads to a `file_t` that is not there. -/
def Closed (s : Vfs) : Prop := ∀ a, Listed s a → (s.files a).isSome

/-- The tree grows by new files. -/
structure Grows (s s' : Vfs) : Prop where
  root : s'.root = s.root
  files : ∀ a, (s.files a).isSome → (s'.files a).isSome
  listed : ∀ a, Listed s' a → Listed s a ∨ s.files a = none ∧ (s'.files a).isSome

theorem Grows.refl (s : Vfs) : Grows s s := ⟨rfl, fun _ h => h, fun _ h => .inl h⟩

theorem Grows.trans {s₁ s₂ s₃ : Vfs} (h : Grows s₁ s₂) (h' : Grows s₂ s₃) : Grows s₁ s₃ := by
  refine ⟨h'.root.trans h.root, fun a ha => h'.files a (h.files a ha), fun a ha => ?_⟩
  rcases h'.listed a ha with ha | ⟨hnone, hsome⟩
  · rcases h.listed a ha with ha | ⟨hnone, hsome⟩
    · exact .inl ha
    · exact .inr ⟨hnone, h'.files a hsome⟩
  · refine .inr ⟨?_, hsome⟩
    by_contra hne
    have := h.files a (Option.isSome_iff_ne_none.mpr hne)
    rw [hnone] at this
    cases this

theorem Grows.closed {s s' : Vfs} (h : Grows s s') (hs : Closed s) : Closed s' := by
  intro a ha
  rcases h.listed a ha with ha | ⟨-, hsome⟩
  · exact h.files a (hs a ha)
  · exact hsome

/-- A file that is there and in no directory stays so. -/
theorem Grows.unlisted {s s' : Vfs} (h : Grows s s') {a : Nat} (hfile : (s.files a).isSome)
    (ha : ¬ Listed s a) : (s'.files a).isSome ∧ ¬ Listed s' a := by
  refine ⟨h.files a hfile, fun hlisted => ?_⟩
  rcases h.listed a hlisted with hold | ⟨hnone, -⟩
  · exact ha hold
  · rw [hnone] at hfile
    cases hfile

theorem grows_setFile (s : Vfs) (a : Nat) (f : FileT) : Grows s (s.setFile a f) :=
  ⟨rfl, fun _ hb => isSome_setFile hb, fun _ hb => .inl hb⟩

/-- The file systems attach new files only. -/
def GrownBy (fetch : Fetch) : Prop :=
  ∀ fstype s a i s', fetch fstype s a i = .ret s' → Grows s s'

section

variable {debug : Bool} {fetch : Fetch} (hfetch : GrownBy fetch) {s s' : Vfs}
include hfetch

theorem fsFetch_grows {a i : Nat} (h : fsFetch debug fetch s a i = .ret s') : Grows s s' := by
  rcases fsFetch_cases h with rfl | ⟨fstype, s₁, b, f, hs₁, -, rfl⟩
  · exact Grows.refl s'
  · exact (hfetch _ _ _ _ _ hs₁).trans (grows_setFile s₁ b _)

theorem Fetched.grows (h : Fetched debug fetch s s') : Grows s s' := by
  induction h with
  | refl => exact Grows.refl s
  | tail _ hstep ih =>
      obtain ⟨a, i, hs⟩ := hstep
      exact ih.trans (fsFetch_grows hfetch hs)

end

/-! ## What a lookup leaves -/

section

variable {debug : Bool} {fetch : Fetch} {s s' : Vfs} {node node' : Option Nat} {create : Bool}
  {status : Status} {str : CString}

/-- What a lookup that returns has done: it added the file of the node to a directory, or the
tree has only grown.  Then the node is as before unless the path is found. -/
def Left (s : Vfs) (node : Option Nat) (create : Bool) (status : Status) (node' : Option Nat)
    (s' : Vfs) (lookup : Outcome (Status × Option Nat × Vfs)) : Prop :=
  (create = true ∧ node' = node ∧
      ∃ s₁ a, Grows s s₁ ∧ ffindNoent s₁ a true (node.getD 0) = .ret (status, s')) ∨
    Grows s s' ∧ (create = true → status ≠ .success) ∧
      (node' = node ∨ lookup = .ret (.success, node', s'))

theorem Left.of_grows {s₁ : Vfs} {lookup : Outcome (Status × Option Nat × Vfs)}
    (h : Left s₁ node create status node' s' lookup) (hgrows : Grows s s₁) :
    Left s node create status node' s' lookup := by
  rcases h with ⟨hcreate, hnode, s₂, a, hgrows', hadd⟩ | ⟨hgrows', hstatus, hfound⟩
  · exact .inl ⟨hcreate, hnode, s₂, a, hgrows.trans hgrows', hadd⟩
  · exact .inr ⟨hgrows.trans hgrows', hstatus, hfound⟩

theorem noent_left {dir : Nat} (lookup : Outcome (Status × Option Nat × Vfs))
    (h : noent s dir node create (node.getD 0) = .ret (status, node', s')) :
    Left s node create status node' s' lookup := by
  obtain ⟨⟨st, s₁⟩, hadd, h⟩ := Outcome.bind_eq_ret.1 h
  cases h
  cases create with
  | true => exact .inl ⟨rfl, rfl, s, dir, Grows.refl s, hadd⟩
  | false =>
      cases hadd
      exact .inr ⟨Grows.refl _, nofun, .inl rfl⟩

theorem giveUp_left {dir : Nat} (lookup : Outcome (Status × Option Nat × Vfs))
    (h : giveUp s dir node create = .ret (status, node', s')) :
    Left s node create status node' s' lookup := by
  cases node with
  | none => cases h
  | some file => exact noent_left lookup h

theorem storeNode_left {file : Nat}
    (h : storeNode s file node create = .ret (status, node', s')) :
    Left s node create status node' s' (storeNode s file node false) := by
  cases node with
  | none => cases h
  | some target =>
      cases h
      refine .inr ⟨Grows.refl s, ?_, .inr rfl⟩
      rintro rfl
      nofun

theorem ffindLast_left {rem file : Nat}
    (h : ffindLast s str rem file node create = .ret (status, node', s')) :
    Left s node create status node' s' (ffindLast s str rem file node false) := by
  unfold ffindLast at h ⊢
  obtain ⟨c, hc, h⟩ := Outcome.bind_eq_ret.1 h
  rw [hc, Outcome.ret_bind]
  split at h
  next hslash =>
    rw [if_pos hslash]
    obtain ⟨f, hf, h⟩ := Outcome.bind_eq_ret.1 h
    rw [hf, Outcome.ret_bind]
    split at h
    · cases h
      exact .inr ⟨Grows.refl s, nofun, .inl rfl⟩
    next htype =>
      rw [if_neg htype]
      exact storeNode_left h
  next hslash =>
    rw [if_neg hslash]
    exact storeNode_left h

theorem ffindRecursiveWith_left (hfetch : GrownBy fetch) (fuel : Nat) :
    ∀ {s : Vfs} {pathname dir : Nat},
      ffindRecursiveWith debug fetch fuel s str pathname dir node create =
        .ret (status, node', s') →
      Left s node create status node' s'
        (ffindRecursiveWith debug fetch fuel s str pathname dir node false) := by
  induction fuel with
  | zero =>
      intro s pathname dir h
      cases h
  | succ fuel ih =>
      intro s pathname dir h
      cases ffindRecursiveWith_level h with
      | tooLong hlevel =>
          rw [hlevel] at h
          cases h
          exact .inr ⟨Grows.refl _, nofun, .inl rfl⟩
      | noEntry hlevel =>
          rw [hlevel] at h
          exact noent_left _ h
      | giveUp hs hlevel =>
          rw [hlevel] at h
          exact (giveUp_left _ h).of_grows (hs.grows hfetch)
      | last hs hlevel =>
          rw [hlevel] at h ⊢
          exact (ffindLast_left h).of_grows (hs.grows hfetch)
      | next hs hlevel =>
          rw [hlevel] at h ⊢
          exact (ih h).of_grows (hs.grows hfetch)

/-- The same of a whole lookup. -/
theorem ffind_left (hfetch : GrownBy fetch) {past : UInt8} {wd : Nat}
    (h : ffind debug fetch past s wd str node create = .ret (status, node', s')) :
    Left s node create status node' s' (ffind debug fetch past s wd str node false) := by
  unfold ffind at h ⊢
  split at h
  next hslash =>
    rw [if_pos hslash]
    split at h
    next hroot =>
      rw [if_pos hroot]
      cases create with
      | true =>
          cases h
          exact .inr ⟨Grows.refl s, nofun, .inl rfl⟩
      | false =>
          rw [if_neg nofun] at h ⊢
          obtain ⟨target, htarget, h⟩ := Outcome.bind_eq_ret.1 h
          obtain ⟨rd, hrd, h⟩ := Outcome.bind_eq_ret.1 h
          cases h
          rw [htarget, Outcome.ret_bind, hrd]
          exact .inr ⟨Grows.refl s, nofun, .inr rfl⟩
    next hroot =>
      rw [if_neg hroot]
      exact ffindRecursiveWith_left hfetch _ h
  next hslash =>
    rw [if_neg hslash]
    exact ffindRecursiveWith_left hfetch _ h

end

/-! ## What a creation does to the tree -/

section

variable {s : Vfs}

/-- A directory that keeps its list leads to the same files. -/
theorem listed_setDir {p : Nat} {d : DirT} {a : Nat} (h : Listed (s.setDir p d) a) :
    Listed s a ∨ ∃ slot ∈ d.files, slot.Leads a := by
  obtain ⟨dir, d', slot, hd', hslot, hleads⟩ := h
  by_cases hp : dir = p
  · subst hp
    obtain rfl : d = d' := by simpa [Vfs.setDir] using hd'
    exact .inr ⟨slot, hslot, hleads⟩
  · refine .inl ⟨dir, d', slot, ?_, hslot, hleads⟩
    simpa [Vfs.setDir, hp] using hd'

/-- Only the new file comes into a directory. -/
theorem ffindNoent_listed {s' : Vfs} {parent file : Nat} {status : Status}
    (h : ffindNoent s parent true file = .ret (status, s')) :
    (∀ a, (s.files a).isSome → (s'.files a).isSome) ∧
      ∀ a, Listed s' a → Listed s a ∨ a = file := by
  rw [ffindNoent, if_neg (by decide)] at h
  obtain ⟨d, hd, h⟩ := Outcome.bind_eq_ret.mp h
  obtain ⟨f, -, h⟩ := Outcome.bind_eq_ret.mp h
  obtain ⟨pf, -, h⟩ := Outcome.bind_eq_ret.mp h
  have hold : ∀ slot ∈ d.files, ∀ a, slot.Leads a → Listed s a := fun slot hslot a hleads =>
    ⟨parent, d, slot, Vfs.dir_eq_ret hd, hslot, hleads⟩
  -- the list of the parent directory, with the new file
  have hadded : ∀ f', ∀ a, Listed ((s.setDir parent
      { d with files := d.files ++ [.file file] }).setFile file f') a → Listed s a ∨ a = file := by
    intro f' a ha
    rcases listed_setDir ha with ha | ⟨slot, hslot, hleads⟩
    · exact .inl ha
    · rcases List.mem_append.mp hslot with hslot | hslot
      · exact .inl (hold slot hslot a hleads)
      · cases List.mem_singleton.mp hslot
        exact .inr hleads.symm
  dsimp only at h
  split at h
  · obtain ⟨nd, hnd, h⟩ := Outcome.bind_eq_ret.mp h
    cases h
    refine ⟨fun a ha => isSome_setFile ha, fun a ha => ?_⟩
    rcases listed_setDir ha with ha | ⟨slot, hslot, hleads⟩
    · exact hadded _ a ha
    · exact hadded _ a ⟨_, nd, slot, Vfs.dir_eq_ret hnd, hslot, hleads⟩
  · cases h
    exact ⟨fun a ha => isSome_setFile ha, hadded _⟩

variable {c : Creation} {e : Env} {proc : Option Caller} {mode : Nat}

/-- What is allocated is in no directory, and is empty. -/
theorem allocate_listed {a : Nat} (h : Listed (c.allocate e proc mode s) a) : Listed s a := by
  cases c with
  | mkdir =>
      rcases listed_setDir h with h | ⟨slot, hslot, -⟩
      · exact h
      · cases hslot
  | mknod type major minor => exact h

theorem allocate_isSome {a : Nat} (h : (s.files a).isSome ∨ a = e.fileAddr) :
    ((c.allocate e proc mode s).files a).isSome := by
  rcases h with h | rfl
  · cases c with
    | mkdir => exact isSome_setFile h
    | mknod type major minor => exact isSome_setFile h
  · cases c <;> simp [Creation.allocate, Vfs.setFile]

theorem release_listed {node : Option Nat} {a : Nat} (h : Listed (c.release e node s) a) :
    Listed s a := by
  cases c with
  | mkdir =>
      obtain ⟨dir, d, slot, hd, hslot, hleads⟩ := h
      by_cases hp : dir = e.dirAddr
      · simp [Creation.release, Vfs.freeDir, hp] at hd
      · refine ⟨dir, d, slot, ?_, hslot, hleads⟩
        simpa [Creation.release, Vfs.freeDir, Vfs.freeFile, hp] using hd
  | mknod type major minor => exact h

theorem release_isSome {node : Option Nat} {a : Nat} (ha : a ≠ node.getD 0)
    (h : (s.files a).isSome) : ((c.release e node s).files a).isSome := by
  cases c <;> simpa [Creation.release, Vfs.freeDir, Vfs.freeFile, ha] using h

end

/-! ## The steps of the calls -/

/-- A call, and what it needs of its surroundings. -/
structure Call where
  creation : Creation
  env : Env
  proc : Option Caller
  mode : Nat

namespace Call

variable (c : Call) (m : Vfs) (path : CString)

/-- One of its lookups. -/
def lookup (node : Option Nat) (create : Bool) : Outcome (Status × Option Nat × Vfs) :=
  ffind c.env.debug c.env.fetch c.env.past m (getWorkingDir m c.proc) path node create

/-- The path is found. -/
def Finds : Prop := ∃ node node' m', c.lookup m path node false = .ret (.success, node', m')

end Call

/-- How far a call is.  `created` is how many calls had returned `SUCCESS` when it looked for the
path. -/
inductive Phase where
  | idle
  | checked (created : Nat)
  | allocated (created : Nat)
  /-- The second lookup has failed, and the variable `file` holds `node`. -/
  | failed (status : Status) (node : Option Nat)
  /-- `freed` is what was given to `kfree(file)`. -/
  | returned (status : Status) (freed : Option Nat)
deriving DecidableEq, Repr

/-- The calls are on their way. -/
structure Race where
  mem : Vfs
  phase : Nat → Phase
  /-- How many calls have returned `SUCCESS`. -/
  created : Nat

/-- No call has begun. -/
def Race.init (m : Vfs) : Race := ⟨m, fun _ => .idle, 0⟩

/-- A call has gone on. -/
def Race.goto (σ : Race) (i : Nat) (m : Vfs) (p : Phase) : Race :=
  { σ with mem := m, phase := Function.update σ.phase i p }

/-- A step of a call.  `kmalloc` returns memory that is not in use.  A call that faults takes no
step. -/
inductive Step (calls : Nat → Call) (path : CString) : Race → Nat → Race → Prop where
  | refuse {σ : Race} {i : Nat} : σ.phase i = .idle → ¬ (calls i).creation.Accepted →
      Step calls path σ i (σ.goto i σ.mem (.returned .einval none))
  | check {σ : Race} {i : Nat} {status : Status} {node : Option Nat} {m : Vfs} :
      σ.phase i = .idle → (calls i).creation.Accepted →
      (calls i).lookup σ.mem path none false = .ret (status, node, m) →
      Step calls path σ i (σ.goto i m
        (if status ≠ .enoent then .returned (if status ≠ .success then status else .eexist) none
          else .checked σ.created))
  | allocate {σ : Race} {i created : Nat} : σ.phase i = .checked created →
      σ.mem.files (calls i).env.fileAddr = none → σ.mem.dirs (calls i).env.dirAddr = none →
      Step calls path σ i (σ.goto i ((calls i).creation.allocate (calls i).env (calls i).proc
        (calls i).mode σ.mem) (.allocated created))
  | create {σ : Race} {i created : Nat} {node : Option Nat} {m : Vfs} :
      σ.phase i = .allocated created →
      (calls i).lookup σ.mem path (some (calls i).env.fileAddr) true =
        .ret (.success, node, m) →
      Step calls path σ i
        { σ.goto i m (.returned .success none) with created := σ.created + 1 }
  | fail {σ : Race} {i created : Nat} {status : Status} {node : Option Nat} {m : Vfs} :
      σ.phase i = .allocated created →
      (calls i).lookup σ.mem path (some (calls i).env.fileAddr) true = .ret (status, node, m) →
      status ≠ .success → Step calls path σ i (σ.goto i m (.failed status node))
  | free {σ : Race} {i : Nat} {status : Status} {node : Option Nat} :
      σ.phase i = .failed status node →
      Step calls path σ i (σ.goto i ((calls i).creation.release (calls i).env node σ.mem)
        (.returned status (some (node.getD 0))))

/-- What should hold of the calls: what they free is what they allocated, no directory leads to
memory that was freed, and only one has returned `SUCCESS`. -/
structure OnlyOwn (calls : Nat → Call) (σ : Race) : Prop where
  own : ∀ i status a, σ.phase i = .returned status (some a) → a = (calls i).env.fileAddr
  nodes : Closed σ.mem
  one : ∀ i j freed freed', σ.phase i = .returned .success freed →
    σ.phase j = .returned .success freed' → i = j

/-- A step that is not one of a race: once the path has been created, the first lookup of a call
finds it, and before the second one the path is not created. -/
structure Careful (calls : Nat → Call) (path : CString) (σ : Race) (i : Nat) : Prop where
  check : σ.phase i = .idle → (calls i).creation.Accepted → 0 < σ.created →
    (calls i).Finds σ.mem path
  create : ∀ created, σ.phase i = .allocated created →
    σ.created = created ∧ ¬ (calls i).Finds σ.mem path

section

variable {calls : Nat → Call} {path : CString} {σ : Race} {i : Nat} {m : Vfs} {p : Phase}

/-- The phase of a call after a step. -/
theorem goto_phase (j : Nat) : (σ.goto i m p).phase j = if j = i then p else σ.phase j := by
  by_cases hj : j = i
  · subst hj
    rw [if_pos rfl]
    exact Function.update_self ..
  · rw [if_neg hj]
    exact Function.update_of_ne hj ..

/-- A lookup that creates nothing lets the tree grow, and leaves the node unless the path is
found. -/
theorem lookup_grows {c : Call} (hfetch : GrownBy c.env.fetch) {s m : Vfs} {node node' : Option Nat}
    {create : Bool} {status : Status}
    (h : c.lookup s path node create = .ret (status, node', m))
    (hnone : create = true → status ≠ .success) :
    Grows s m ∧ (node' = node ∨ c.Finds s path) := by
  rcases ffind_left hfetch h with ⟨hcreate, -, s₁, a, -, hadd⟩ | ⟨hgrows, -, hfound⟩
  · subst hcreate
    exact absurd (ffindNoent_status hadd) (hnone rfl)
  · exact ⟨hgrows, hfound.imp id fun h => ⟨node, node', m, h⟩⟩

theorem getWorkingDir_of_root {s s' : Vfs} (h : s'.root = s.root) (proc : Option Caller) :
    getWorkingDir s' proc = getWorkingDir s proc := by
  cases proc with
  | none => exact h
  | some proc => rw [getWorkingDir, getWorkingDir, h]

/-- A call that is not interrupted does what `vfs_mkdir` or `vfs_mknod` does. -/
theorem steps_of_run (hfetch : GrownBy (calls i).env.fetch) (hidle : σ.phase i = .idle)
    (hfresh : Fresh (calls i).env σ.mem (calls i).proc path) {status : Status} {s' : Vfs}
    (hrun : (calls i).creation.run (calls i).env σ.mem (calls i).proc path (calls i).mode =
      .ret (status, s')) :
    ∃ is σ', Run (Step calls path) σ is σ' ∧ σ'.mem = s' ∧
      ∃ freed, σ'.phase i = .returned status freed := by
  by_cases hacc : (calls i).creation.Accepted
  · rw [Creation.run_eq hacc] at hrun
    obtain ⟨⟨st₁, node₁, s₁⟩, hfirst, hrun⟩ := Outcome.bind_eq_ret.mp hrun
    dsimp only at hrun
    have hcheck : Step calls path σ i _ := .check hidle hacc hfirst
    split at hrun
    next hne =>
      cases hrun
      refine ⟨_, _, .cons hcheck .nil, rfl, none, ?_⟩
      rw [goto_phase, if_pos rfl, if_pos hne]
    next hmissing =>
      rw [if_neg hmissing] at hcheck
      obtain rfl := not_not.mp hmissing
      obtain ⟨⟨st₂, node₂, s₂⟩, hsecond, hrun⟩ := Outcome.bind_eq_ret.mp hrun
      obtain ⟨hfile, hdir⟩ := hfresh _ _ _ hfirst
      have hallocate : Step calls path (σ.goto i s₁ (.checked σ.created)) i _ :=
        .allocate (Function.update_self ..) hfile hdir
      have hroot : ((calls i).creation.allocate (calls i).env (calls i).proc (calls i).mode
          s₁).root = σ.mem.root :=
        Creation.allocate_root.trans (lookup_grows hfetch hfirst nofun).1.root
      rw [← getWorkingDir_of_root hroot (calls i).proc] at hsecond
      dsimp only at hrun
      by_cases hsuccess : st₂ = .success
      · subst hsuccess
        cases hrun
        refine ⟨_, _, .cons hcheck (.cons hallocate (.cons
          (.create (Function.update_self ..) hsecond) .nil)), rfl, none, ?_⟩
        exact Function.update_self ..
      · rw [if_pos hsuccess] at hrun
        cases hrun
        refine ⟨_, _, .cons hcheck (.cons hallocate (.cons
          (.fail (Function.update_self ..) hsecond hsuccess) (.cons
            (.free (Function.update_self ..)) .nil))), rfl, some (node₂.getD 0), ?_⟩
        exact Function.update_self ..
  · rw [Creation.run_of_not_accepted hacc] at hrun
    cases hrun
    refine ⟨_, _, .cons (.refuse hidle hacc) .nil, rfl, none, ?_⟩
    rw [goto_phase, if_pos rfl]

end

/-! ## Runs without a race -/

/-- A call has a `file_t` that no one else knows. -/
def Phase.Pending : Phase → Prop
  | .allocated _ => True
  | .failed _ _ => True
  | _ => False

namespace Call

/-- The `file_t` that the call has allocated. -/
def addr (c : Call) : Nat := c.env.fileAddr

/-- It is there, and in no directory. -/
def Holds (c : Call) (m : Vfs) : Prop := (m.files c.addr).isSome ∧ ¬ Listed m c.addr

/-- A call that is on its way began when none had created the path, and what it frees is its
own. -/
def PhaseOk (c : Call) : Phase → Prop
  | .checked created => created = 0
  | .allocated created => created = 0
  | .failed status node => status ≠ .success ∧ node = some c.addr
  | .returned status (some a) => status ≠ .success ∧ a = c.addr
  | _ => True

end Call

/-- What every careful step keeps. -/
structure Inv (calls : Nat → Call) (σ : Race) : Prop where
  closed : Closed σ.mem
  phase : ∀ i, (calls i).PhaseOk (σ.phase i)
  pending : ∀ i, (σ.phase i).Pending → (calls i).Holds σ.mem
  apart : ∀ i j, (σ.phase i).Pending → (σ.phase j).Pending →
    (calls i).addr = (calls j).addr → i = j
  created : ∀ i, σ.phase i = .returned .success none → 0 < σ.created
  one : ∀ i j, σ.phase i = .returned .success none → σ.phase j = .returned .success none → i = j

theorem Inv.init {m : Vfs} (hm : Closed m) (calls : Nat → Call) : Inv calls (Race.init m) :=
  ⟨hm, fun _ => trivial, fun _ => False.elim, fun _ _ h => h.elim, nofun, nofun⟩

theorem Inv.onlyOwn {calls : Nat → Call} {σ : Race} (h : Inv calls σ) : OnlyOwn calls σ := by
  have hfreed : ∀ i status a, σ.phase i = .returned status (some a) →
      status ≠ .success ∧ a = (calls i).addr := by
    intro i status a hi
    have hok := h.phase i
    rw [hi] at hok
    exact hok
  refine ⟨fun i status a hi => (hfreed i status a hi).2, h.closed, fun i j freed freed' hi hj => ?_⟩
  cases freed with
  | some a => exact absurd rfl (hfreed i _ a hi).1
  | none =>
      cases freed' with
      | some a => exact absurd rfl (hfreed j _ a hj).1
      | none => exact h.one i j hi hj

section

variable {calls : Nat → Call} {path : CString} {σ σ' : Race} {i : Nat} {m : Vfs} {p : Phase}

/-- A call goes on to a phase, with the files of the others as they were. -/
theorem Inv.goto (h : Inv calls σ) {n : Nat} (hclosed : Closed m)
    (hothers : ∀ j, j ≠ i → (σ.phase j).Pending → (calls j).Holds m)
    (hphase : (calls i).PhaseOk p)
    (hown : p.Pending → (calls i).Holds m ∧
      ∀ j, j ≠ i → (σ.phase j).Pending → (calls i).addr ≠ (calls j).addr)
    (hcreated : (p ≠ .returned .success none ∧ n = σ.created) ∨ (σ.created = 0 ∧ n = 1)) :
    Inv calls { σ.goto i m p with created := n } := by
  have hreturned : ∀ j, (σ.goto i m p).phase j = .returned .success none →
      (j = i ∧ σ.created = 0 ∧ n = 1) ∨ σ.phase j = .returned .success none := by
    intro j hj
    rw [goto_phase] at hj
    split at hj
    next heq => exact .inl ⟨heq, hcreated.resolve_left fun hne => hne.1 hj⟩
    next => exact .inr hj
  refine ⟨hclosed, fun j => ?_, fun j hj => ?_, fun j k hj hk heq => ?_, fun j hj => ?_,
    fun j k hj hk => ?_⟩
  · show (calls j).PhaseOk ((σ.goto i m p).phase j)
    rw [goto_phase]
    split
    next heq => exact heq ▸ hphase
    next => exact h.phase j
  · change ((σ.goto i m p).phase j).Pending at hj
    rw [goto_phase] at hj
    split at hj
    next heq => exact heq ▸ (hown hj).1
    next hne => exact hothers j hne hj
  · change ((σ.goto i m p).phase j).Pending at hj
    change ((σ.goto i m p).phase k).Pending at hk
    rw [goto_phase] at hj hk
    by_cases hji : j = i
    · by_cases hki : k = i
      · exact hji.trans hki.symm
      · subst hji
        rw [if_pos rfl] at hj
        rw [if_neg hki] at hk
        exact absurd heq ((hown hj).2 k hki hk)
    · rw [if_neg hji] at hj
      by_cases hki : k = i
      · subst hki
        rw [if_pos rfl] at hk
        exact absurd heq.symm ((hown hk).2 j hji hj)
      · rw [if_neg hki] at hk
        exact h.apart j k hj hk heq
  · show 0 < n
    rcases hreturned j hj with ⟨-, -, rfl⟩ | hj
    · exact Nat.one_pos
    · have := h.created j hj
      omega
  · rcases hreturned j hj with ⟨rfl, hnone, -⟩ | hj'
    · rcases hreturned k hk with ⟨rfl, -⟩ | hk'
      · rfl
      · exact absurd (h.created k hk') (by omega)
    · rcases hreturned k hk with ⟨rfl, hnone, -⟩ | hk'
      · exact absurd (h.created j hj') (by omega)
      · exact h.one j k hj' hk'

/-- The tree has grown in the step of a call. -/
theorem Inv.grow (h : Inv calls σ) (hgrows : Grows σ.mem m) (hphase : (calls i).PhaseOk p)
    (hown : p.Pending → (σ.phase i).Pending) (hcreated : p ≠ .returned .success none) :
    Inv calls (σ.goto i m p) := by
  have hholds : ∀ j, (σ.phase j).Pending → (calls j).Holds m := fun j hj =>
    hgrows.unlisted (h.pending j hj).1 (h.pending j hj).2
  refine h.goto (hgrows.closed h.closed) (fun j _ hj => hholds j hj) hphase (fun hp => ?_)
    (.inl ⟨hcreated, rfl⟩)
  exact ⟨hholds i (hown hp), fun j hji hj heq => hji (h.apart i j (hown hp) hj heq).symm⟩

/-- What is allocated is new, and in no directory. -/
theorem Inv.allocate (h : Inv calls σ) {created : Nat} (hchecked : σ.phase i = .checked created)
    (hfile : σ.mem.files (calls i).addr = none) :
    Inv calls (σ.goto i ((calls i).creation.allocate (calls i).env (calls i).proc (calls i).mode
      σ.mem) (.allocated created)) := by
  have hfresh : ∀ a, (σ.mem.files a).isSome → (calls i).addr ≠ a := by
    rintro a ha rfl
    rw [hfile] at ha
    cases ha
  have hzero := h.phase i
  rw [hchecked] at hzero
  refine h.goto (fun a ha => allocate_isSome (.inl (h.closed a (allocate_listed ha))))
    (fun j _ hj => ?_) hzero (fun _ => ⟨?_, fun j _ hj => ?_⟩) (.inl ⟨nofun, rfl⟩)
  · exact ⟨allocate_isSome (.inl (h.pending j hj).1), fun ha =>
      (h.pending j hj).2 (allocate_listed ha)⟩
  · exact ⟨allocate_isSome (.inr rfl), fun ha =>
      hfresh _ (h.closed _ (allocate_listed ha)) rfl⟩
  · exact hfresh _ (h.pending j hj).1

/-- The first `SUCCESS`, with which the file of the call comes into a directory. -/
theorem Inv.add (h : Inv calls σ) (hpending : (σ.phase i).Pending) (hnone : σ.created = 0)
    {s₁ : Vfs} {a : Nat} (hgrows : Grows σ.mem s₁)
    (hadd : ffindNoent s₁ a true (calls i).addr = .ret (.success, m)) :
    Inv calls { σ.goto i m (.returned .success none) with created := σ.created + 1 } := by
  obtain ⟨hfiles, hlisted⟩ := ffindNoent_listed hadd
  have hown := hgrows.files _ (h.pending i hpending).1
  refine h.goto (fun b hb => ?_) (fun j hji hj => ?_) trivial False.elim
    (.inr ⟨hnone, by rw [hnone]⟩)
  · rcases hlisted b hb with hb | rfl
    · exact hfiles b (hgrows.closed h.closed b hb)
    · exact hfiles _ hown
  · obtain ⟨hsome, hnot⟩ := hgrows.unlisted (h.pending j hj).1 (h.pending j hj).2
    refine ⟨hfiles _ hsome, fun hb => ?_⟩
    rcases hlisted _ hb with hb | heq
    · exact hnot hb
    · exact hji (h.apart j i hj hpending heq)

/-- A call that has failed frees its file, and no other call and no directory knows that. -/
theorem Inv.free (h : Inv calls σ) {status : Status} {node : Option Nat}
    (hfailed : σ.phase i = .failed status node) :
    Inv calls (σ.goto i ((calls i).creation.release (calls i).env node σ.mem)
      (.returned status (some (node.getD 0)))) := by
  have hpending : (σ.phase i).Pending := by
    rw [hfailed]
    trivial
  have hnode := h.phase i
  rw [hfailed] at hnode
  obtain ⟨hstatus, rfl⟩ := hnode
  refine h.goto (fun b hb => ?_) (fun j hji hj => ?_) ⟨hstatus, rfl⟩ False.elim
    (.inl ⟨nofun, rfl⟩)
  · have hb' := release_listed hb
    refine release_isSome ?_ (h.closed b hb')
    rintro rfl
    exact (h.pending i hpending).2 hb'
  · refine ⟨release_isSome (fun heq => ?_) (h.pending j hj).1, fun hb =>
      (h.pending j hj).2 (release_listed hb)⟩
    exact hji (h.apart j i hj hpending heq)

variable (hfetch : ∀ i, GrownBy (calls i).env.fetch)
include hfetch

/-- A careful step keeps the invariant. -/
theorem Inv.step (h : Inv calls σ) (hstep : Step calls path σ i σ')
    (hok : Careful calls path σ i) : Inv calls σ' := by
  cases hstep with
  | refuse hidle hacc => exact h.grow (Grows.refl _) trivial False.elim nofun
  | @check status node m hidle hacc hret =>
      obtain ⟨hgrows, -⟩ := lookup_grows (hfetch i) hret nofun
      by_cases hmissing : status ≠ .enoent
      · rw [if_pos hmissing]
        refine h.grow hgrows trivial False.elim ?_
        split
        next hfailed => exact fun heq => hfailed (Phase.returned.inj heq).1
        next => nofun
      · rw [if_neg hmissing]
        refine h.grow hgrows ?_ False.elim nofun
        -- had the path been created, it would be found, and the null pointer would be followed
        by_contra hpos
        obtain ⟨node₁, node₂, m', hfound⟩ := hok.check hidle hacc (Nat.pos_of_ne_zero hpos)
        rw [Call.lookup, ffind_none hfound] at hret
        cases hret
  | allocate hchecked hfile hdir => exact h.allocate hchecked hfile
  | @create created node m halloc hret =>
      obtain ⟨hcreated, -⟩ := hok.create created halloc
      have hpending : (σ.phase i).Pending := by
        rw [halloc]
        trivial
      have hzero := h.phase i
      rw [halloc] at hzero
      rcases ffind_left (hfetch i) hret with ⟨-, -, s₁, a, hgrows, hadd⟩ | ⟨-, hne, -⟩
      · exact h.add hpending (hcreated.trans hzero) hgrows hadd
      · exact absurd rfl (hne rfl)
  | @fail created status node m halloc hret hstatus =>
      obtain ⟨hgrows, hnode⟩ := lookup_grows (hfetch i) hret fun _ => hstatus
      have hpending : (σ.phase i).Pending := by
        rw [halloc]
        trivial
      refine h.grow hgrows ⟨hstatus, ?_⟩ (fun _ => hpending) nofun
      exact hnode.resolve_right (hok.create created halloc).2
  | free hfailed => exact h.free hfailed

/-- **When creations of one path do not get into each other's way.**  Take any calls of
`vfs_mkdir` and `vfs_mknod` for one path, any memory in which all that directories lead to is
there, and any interleaving.  If in every step the path, once it is created, is found by the
first lookup of a call, and is not created before the second one of another, then every call
has freed its own file and no other, no directory leads to memory that was freed, and at most
one call has returned `SUCCESS`. -/
theorem creations_race {s : Vfs} (hs : Closed s) {is : List Nat}
    (hrun : Run (Guarded (Step calls path) (Careful calls path)) (Race.init s) is σ) :
    OnlyOwn calls σ :=
  (Run.invariant (fun _ _ _ h hstep => h.step hfetch hstep.1 hstep.2) (Inv.init hs calls)
    hrun).onlyOwn

end

/-! ## `mkdir /dev`, twice -/

/-- Calls of `mkdir /dev`, and one of `mknod /dev` with the type of a regular file.  They get
memory of their own, and no file system is asked. -/
def devCalls (i : Nat) : Call where
  creation := if i = 2 then .mknod .regular 0 0 else .mkdir
  env := { devEnv with
    fetch := fun _ _ _ _ => .fault
    fileAddr := 16 + 2 * i
    dirAddr := 17 + 2 * i }
  proc := none
  mode := 0o755

theorem devCalls_refused : ¬ (devCalls 2).creation.Accepted := by
  rintro (h | h | h | h) <;> cases h

theorem devCalls_grown (i : Nat) : GrownBy (devCalls i).env.fetch := by
  intro fstype s a k s' h
  cases h

theorem dotVfs_closed : Closed dotVfs := by
  rintro a ⟨dir, d, slot, hd, hslot, hleads⟩
  simp only [dotVfs] at hd
  split at hd
  · cases hd
    cases List.mem_singleton.mp hslot
    exact absurd hleads.1.symm hleads.2
  · cases hd

/-- Two calls test for `/dev` and allocate, a third one is refused in between, and the first one
creates it. -/
theorem creations_race_refused :
    ∃ σ, Run (Guarded (Step devCalls devPath) (Careful devCalls devPath)) (Race.init dotVfs)
      [0, 2, 1, 0, 1, 0] σ ∧ σ.phase 0 = .returned .success none ∧ σ.phase 1 = .allocated 0 ∧
      σ.phase 2 = .returned .einval none ∧ OnlyOwn devCalls σ := by
  obtain ⟨σ, hrun, h0, h1, h2⟩ :
      ∃ σ, Run (Guarded (Step devCalls devPath) (Careful devCalls devPath)) (Race.init dotVfs)
        [0, 2, 1, 0, 1, 0] σ ∧ σ.phase 0 = .returned .success none ∧ σ.phase 1 = .allocated 0 ∧
        σ.phase 2 = .returned .einval none := by
    refine ⟨_, .cons ⟨.check rfl trivial rfl, ?_⟩ (.cons ⟨.refuse rfl devCalls_refused, ?_⟩
      (.cons ⟨.check rfl trivial rfl, ?_⟩ (.cons ⟨.allocate rfl rfl rfl, ?_⟩
        (.cons ⟨.allocate rfl rfl rfl, ?_⟩ (.cons ⟨.create rfl rfl, ?_⟩ .nil))))), rfl, rfl, rfl⟩
    · exact ⟨nofun, nofun⟩
    · exact ⟨nofun, nofun⟩
    · exact ⟨nofun, nofun⟩
    · exact ⟨nofun, nofun⟩
    · exact ⟨nofun, nofun⟩
    · refine ⟨nofun, fun created halloc => ?_⟩
      cases halloc
      refine ⟨rfl, ?_⟩
      rintro ⟨node, node', m', hret⟩
      cases node with
      | none => cases hret
      | some target => cases hret
  exact ⟨σ, hrun, h0, h1, h2, creations_race devCalls_grown dotVfs_closed hrun⟩

/-- Both test for `/dev` before the other has created it, and both return `SUCCESS`. -/
theorem both_succeed : ¬ ∀ (calls : Nat → Call) (path : CString) (s : Vfs) (is : List Nat)
    (σ : Race), (∀ i, GrownBy (calls i).env.fetch) → Closed s →
    Run (Step calls path) (Race.init s) is σ → OnlyOwn calls σ := by
  intro h
  obtain ⟨σ, hrun, hfirst, hsecond⟩ : ∃ σ, Run (Step devCalls devPath) (Race.init dotVfs)
      [0, 1, 0, 1, 0, 1] σ ∧ σ.phase 0 = .returned .success none ∧
      σ.phase 1 = .returned .success none :=
    ⟨_, .cons (.check rfl trivial rfl) (.cons (.check rfl trivial rfl)
      (.cons (.allocate rfl rfl rfl) (.cons (.allocate rfl rfl rfl)
        (.cons (.create rfl rfl) (.cons (.create rfl rfl) .nil))))), rfl, rfl⟩
  cases (h devCalls devPath dotVfs _ σ devCalls_grown dotVfs_closed hrun).one 0 1 _ _ hfirst hsecond

end UlmerOS.Fs
