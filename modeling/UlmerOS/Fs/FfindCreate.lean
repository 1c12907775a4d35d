import UlmerOS.Fs.FfindWalk

/-!
# Creation of files and directories

`vfs_mkdir` and `vfs_mknod` look the path up, allocate the file and look the path up again
with `FFIND_CREATE`.  Two things go wrong.

The first lookup has a null pointer for its node.  `ffind_recursive` reads `*node` where the
path is found, so the call does not return `-EEXIST`: it faults (`run_of_found`).  It faults
as well where the directory is empty, or the path is a slash and one byte, which `ffind`
takes for the root.

The second lookup adds the `file_t` to the list of a directory, where the lookups after it
expect a `direntry_t`.  They compare the name with the bytes of the mode.

So a creation that returns `SUCCESS` never does what it should: if the path were found
afterwards, creating it again would fault.  `created_iff` says for which paths of a tree it
returns `SUCCESS`, and these are the paths for which it fails to create a file.
-/

namespace UlmerOS.Fs

/-! ## Lookups with a null pointer -/

/-- Where a lookup without `FFIND_CREATE` succeeds, it reads the node. -/
theorem ffindLast_none {s s' : Vfs} {str : CString} {rem file : Nat} {node node' : Option Nat}
    (h : ffindLast s str rem file node false = .ret (.success, node', s')) :
    ffindLast s str rem file none false = .fault := by
  unfold ffindLast at h ⊢
  obtain ⟨c, hc, h⟩ := Outcome.bind_eq_ret.1 h
  rw [hc, Outcome.ret_bind]
  split
  · next hslash =>
    rw [if_pos hslash] at h
    obtain ⟨f, hf, h⟩ := Outcome.bind_eq_ret.1 h
    rw [hf, Outcome.ret_bind]
    split
    · next htype =>
      rw [if_pos htype] at h
      cases h
    · rfl
  · rfl

theorem noent_ne_success {s s' : Vfs} {dir file : Nat} {node node' : Option Nat} :
    noent s dir node false file ≠ .ret (.success, node', s') := nofun

theorem giveUp_ne_success {s s' : Vfs} {dir : Nat} {node node' : Option Nat} :
    giveUp s dir node false ≠ .ret (.success, node', s') := by
  cases node with
  | none => nofun
  | some file => nofun

theorem ffindRecursiveWith_none {debug : Bool} {fetch : Fetch} {str : CString}
    {node node' : Option Nat} {s' : Vfs} (fuel : Nat) :
    ∀ {s : Vfs} {pathname dir : Nat},
      ffindRecursiveWith debug fetch fuel s str pathname dir node false =
        .ret (.success, node', s') →
      ffindRecursiveWith debug fetch fuel s str pathname dir none false = .fault := by
  induction fuel with
  | zero =>
      intro s pathname dir h
      cases h
  | succ fuel ih =>
      intro s pathname dir h
      cases ffindRecursiveWith_level h with
      | tooLong hlevel =>
          rw [hlevel] at h
          cases h
      | noEntry hlevel =>
          rw [hlevel] at h
          exact absurd h noent_ne_success
      | giveUp _ hlevel =>
          rw [hlevel] at h
          exact absurd h giveUp_ne_success
      | last _ hlevel =>
          rw [hlevel] at h ⊢
          exact ffindLast_none h
      | next _ hlevel =>
          rw [hlevel] at h ⊢
          exact ih h

/-- A path that is found with a node makes `ffind` fault without one. -/
theorem ffind_none {debug : Bool} {fetch : Fetch} {past : UInt8} {s s' : Vfs} {wd : Nat}
    {str : CString} {node node' : Option Nat}
    (h : ffind debug fetch past s wd str node false = .ret (.success, node', s')) :
    ffind debug fetch past s wd str none false = .fault := by
  unfold ffind at h ⊢
  split
  · next hslash =>
    rw [if_pos hslash] at h
    split
    · rfl
    · next hroot =>
      rw [if_neg hroot] at h
      exact ffindRecursiveWith_none _ h
  · next hslash =>
    rw [if_neg hslash] at h
    exact ffindRecursiveWith_none _ h

/-! ## Creations -/

/-- A call of `vfs_mkdir` or of `vfs_mknod`. -/
inductive Creation where
  | mkdir
  | mknod (type : FType) (major minor : Nat)
deriving DecidableEq, Repr

namespace Creation

/-- The type of the file. -/
def type : Creation → FType
  | .mkdir => .dir
  | .mknod type _ _ => type

/-- `vfs_mknod` does not refuse the type. -/
def Accepted : Creation → Prop
  | .mkdir => True
  | .mknod type _ _ => type = .block ∨ type = .char ∨ type = .fifo ∨ type = .socket

/-- The call. -/
def run (c : Creation) (e : Env) (s : Vfs) (proc : Option Caller) (pathname : CString)
    (mode : Nat) : Outcome (Status × Vfs) :=
  match c with
  | .mkdir => vfsMkdir e s proc pathname mode
  | .mknod type major minor => vfsMknod e s proc pathname type mode major minor

/-- The memory after the allocations. -/
def allocate (c : Creation) (e : Env) (proc : Option Caller) (mode : Nat) (s : Vfs) : Vfs :=
  match c with
  | .mkdir =>
      (s.setDir e.dirAddr
        { e.dirLeft with
          driver := 0, files := [], fstype := 0, mounted := 0, file := e.fileAddr }).setFile
        e.fileAddr
        { falloc e.now proc .dir mode e.fileLeft with special := e.dirAddr, inode := 0 }
  | .mknod type major minor =>
      s.setFile e.fileAddr
        { falloc e.now proc type mode e.fileLeft with
          inode := 0, special := deviceSpecial major minor }

/-- The memory after a failure. -/
def release (c : Creation) (e : Env) (node : Option Nat) (s : Vfs) : Vfs :=
  match c with
  | .mkdir => (s.freeFile (node.getD 0)).freeDir e.dirAddr
  | .mknod _ _ _ => s.freeFile (node.getD 0)

variable {c : Creation} {e : Env} {s : Vfs} {proc : Option Caller} {path : CString} {mode : Nat}

/-- Both functions look up, allocate and look up again. -/
theorem run_eq (h : c.Accepted) :
    c.run e s proc path mode = (do
      let (status, _, s₁) ←
        ffind e.debug e.fetch e.past s (getWorkingDir s proc) path none false
      if status ≠ .enoent then
        .ret (if status ≠ .success then status else .eexist, s₁)
      else do
        let (status, node, s₂) ←
          ffind e.debug e.fetch e.past (c.allocate e proc mode s₁) (getWorkingDir s proc) path
            (some e.fileAddr) true
        .ret (status, if status ≠ .success then c.release e node s₂ else s₂)) := by
  cases c with
  | mkdir => rfl
  | mknod type major minor =>
      have htype : ¬ (type ≠ .block ∧ type ≠ .char ∧ type ≠ .fifo ∧ type ≠ .socket) := by
        rcases h with rfl | rfl | rfl | rfl <;> simp
      exact if_neg htype

theorem run_of_not_accepted (h : ¬ c.Accepted) : c.run e s proc path mode = .ret (.einval, s) := by
  cases c with
  | mkdir => exact absurd trivial h
  | mknod type major minor =>
      have htype : type ≠ .block ∧ type ≠ .char ∧ type ≠ .fifo ∧ type ≠ .socket := by
        simpa [Accepted] using h
      exact if_pos htype

/-- The creation of a path that is found faults. -/
theorem run_of_found (h : c.Accepted) {node node' : Option Nat} {s' : Vfs}
    (hfound : ffind e.debug e.fetch e.past s (getWorkingDir s proc) path node false =
      .ret (.success, node', s')) :
    c.run e s proc path mode = .fault := by
  rw [run_eq h, ffind_none hfound]
  rfl

end Creation

/-! ## What a creation should do -/

section

variable {F D : Type}

/-- Where `ffind` starts: the directory, and the place in the path. -/
def start (s : Vfs) (workingDir : Nat) (path : CString) : Nat × Nat :=
  if path.head? = some slash then (s.root, 1) else (workingDir, 0)

/-- The directory that a list of components leads to. -/
def Tree.descend (T : Tree F D) (d : D) : List CString → Option D
  | [] => some (T.redirect d)
  | c :: cs =>
      if 255 < c.length then none
      else
        match T.entry (T.redirect d) (readName c) with
        | none => none
        | some f => if T.type f ≠ .dir then none else T.descend (T.directory f) cs

/-- From the directory at an address, all but the last component leads to `parent`, which
does not have the last one. -/
structure Missing (T : Tree F D) (rd : Nat → Option D) (dir : Nat) (rest : CString) (parent : D)
    (name : CString) : Prop where
  nonempty : rest ≠ []
  descend : ∃ y cs, rd dir = some y ∧ components rest = cs ++ [name] ∧
    T.descend y cs = some parent
  entry : T.entry parent (readName name) = none

/-- The parent directory of a path exists, and does not have the last component. -/
def Absent (T : Tree F D) (s : Vfs) (rd : Nat → Option D) (proc : Option Caller)
    (path : CString) (parent : D) (name : CString) : Prop :=
  0 ∉ path ∧
    Missing T rd (start s (getWorkingDir s proc) path).1
      (path.drop (start s (getWorkingDir s proc) path).2) parent name

/-- A path is looked up with this answer. -/
def Resolves (e : Env) (s : Vfs) (proc : Option Caller) (path : CString) (node : Nat)
    (status : Status) (node' : Nat) : Prop :=
  ∃ s', ffind e.debug e.fetch e.past s (getWorkingDir s proc) path (some node) false =
    .ret (status, some node', s')

/-- What a creation should have done when it returns `SUCCESS` with the memory `s'`. -/
structure Created (T : Tree F D) (c : Creation) (e : Env) (s : Vfs) (rd : Nat → Option D)
    (proc : Option Caller) (path : CString) (parent : D) (name : CString) (mode : Nat)
    (s' : Vfs) : Prop where
  /-- The path is found, with the file just created. -/
  found : ∀ node, node ≠ 0 → Resolves e s' proc path node .success e.fileAddr
  type : ∃ f, s'.files e.fileAddr = some f ∧ f.type = c.type
  /-- It cannot be created again. -/
  again : ∀ e' : Env, e'.debug = e.debug → e'.fetch = e.fetch → e'.past = e.past →
    ∃ s'', c.run e' s' proc path mode = .ret (.eexist, s'')
  /-- A path that is not one of the new file is looked up as before. -/
  others : ∀ path', ¬ Absent T s rd proc path' parent name → ∀ node status node', node ≠ 0 →
    (Resolves e s' proc path' node status node' ↔ Resolves e s proc path' node status node')

/-- A creation does not do what it should: where the file is found, creating it again
faults. -/
theorem not_created {T : Tree F D} {c : Creation} {e : Env} {s s' : Vfs} {rd : Nat → Option D}
    {proc : Option Caller} {path : CString} {parent : D} {name : CString} {mode : Nat}
    (hc : c.Accepted) : ¬ Created T c e s rd proc path parent name mode s' := by
  intro h
  obtain ⟨s₁, hfound⟩ := h.found 1 (by simp)
  obtain ⟨s₂, hagain⟩ := h.again e rfl rfl rfl
  rw [Creation.run_of_found hc hfound] at hagain
  cases hagain

/-! ## Lookups of a path that is absent -/

variable {T : Tree F D} {s : Vfs} {rf : Nat → Option F} {rd : Nat → Option D}

theorem stopFrom_absent {tr : Bool} {cs : List CString} {parent : D} {name : CString}
    (he : T.entry parent (readName name) = none) :
    ∀ {y : D}, T.descend y cs = some parent →
      stopFrom T tr y (cs ++ [name]) =
        if 255 < name.length then .nameTooLong else .noEntry parent := by
  induction cs with
  | nil =>
      intro y h
      obtain rfl : T.redirect y = parent := by simpa [Tree.descend] using h
      simp [stopFrom, he]
  | cons c cs ih =>
      intro y h
      obtain ⟨c', cs', hcs⟩ := List.exists_cons_of_ne_nil (l := cs ++ [name]) (by simp)
      rw [Tree.descend] at h
      split at h
      · cases h
      next hlong =>
      cases hentry : T.entry (T.redirect y) (readName c) with
      | none => simp [hentry] at h
      | some f =>
          simp only [hentry] at h
          split at h
          · cases h
          next hdir =>
          have hrest := ih h
          rw [hcs] at hrest
          simp [stopFrom, hcs, hlong, hentry, not_not.1 hdir, hrest]

theorem Missing.stop {dir : Nat} {rest : CString} {parent : D} {name : CString}
    (h : Missing T rd dir rest parent name) :
    ∃ y, rd dir = some y ∧
      stop T y rest = if 255 < name.length then .nameTooLong else .noEntry parent := by
  obtain ⟨y, cs, hy, hcs, hdesc⟩ := h.descend
  refine ⟨y, hy, ?_⟩
  rw [Fs.stop, hcs, stopFrom_absent h.entry hdesc]

theorem Missing.extends {rf' : Nat → Option F} {rd' : Nat → Option D} {dir : Nat}
    {rest : CString} {parent : D} {name : CString} (h : Missing T rd dir rest parent name)
    (hext : Extends rf rf' rd rd') : Missing T rd' dir rest parent name := by
  obtain ⟨y, cs, hy, hcs, hdesc⟩ := h.descend
  exact ⟨h.nonempty, ⟨y, cs, hext.dirs dir y hy, hcs, hdesc⟩, h.entry⟩

section

variable {fetch : Fetch} {I : Vfs → (Nat → Option F) → (Nat → Option D) → Prop} {wd : Nat}
  {path : CString}

/-- `ffind` looks up the path from where it starts. -/
theorem ffind_start {debug : Bool} {past : UInt8} {node : Option Nat} {create : Bool}
    (h0 : 0 ∉ path) (hrest : path.drop (start s wd path).2 ≠ []) (hx : ∀ x, path ≠ [slash, x]) :
    ffind debug fetch past s wd path node create =
      ffindRecursive debug fetch s path (start s wd path).2 (start s wd path).1 node create := by
  match path with
  | [] => exact absurd rfl hrest
  | [c] =>
      by_cases hc : c = slash
      · simp [start, hc] at hrest
      · simp [ffind, start, byteAt, hc]
  | [c, x] =>
      by_cases hc : c = slash
      · exact absurd (hc ▸ rfl) (hx x)
      · simp [ffind, start, byteAt, hc]
  | c :: x :: z :: path =>
      have hz : z ≠ 0 := by
        rintro rfl
        simp at h0
      by_cases hc : c = slash
      · simp [ffind, start, byteAt, hc, hz]
      · simp [ffind, start, byteAt, hc]

/-- A lookup that has something left of the path ends where the walk along it does. -/
theorem ffind_rest_ends (debug : Bool) (past : UInt8) (hT : FetchInv T fetch I)
    (hs : I s rf rd) (h : Rep T s rf rd) (h0 : 0 ∉ path) (hx : ∀ x, path ≠ [slash, x]) {y : D}
    (hy : rd (start s wd path).1 = some y) (hrest : path.drop (start s wd path).2 ≠ [])
    (node : Option Nat) (create : Bool) :
    ∃ s' rf' rd', I s' rf' rd' ∧ Rep T s' rf' rd' ∧ Extends rf rf' rd rd' ∧
      Fetched debug fetch s s' ∧
      Ends T s' rf' rd' node create (ffind debug fetch past s wd path node create)
        (stop T y (path.drop (start s wd path).2)) := by
  have hlt : (start s wd path).2 < path.length := by
    by_contra hge
    exact hrest (List.drop_eq_nil_of_le (Nat.not_lt.mp hge))
  rw [ffind_start h0 hrest hx]
  exact lookup_ends hT hs debug h hy hlt

/-- The lookup of a path that is absent ends in its parent directory. -/
theorem ffind_missing (debug : Bool) (past : UInt8) (hT : FetchInv T fetch I)
    (hs : I s rf rd) (h : Rep T s rf rd) (h0 : 0 ∉ path) (hx : ∀ x, path ≠ [slash, x])
    {parent : D} {name : CString}
    (hmiss : Missing T rd (start s wd path).1 (path.drop (start s wd path).2) parent name)
    (node : Option Nat) (create : Bool) :
    ∃ s' rf' rd', I s' rf' rd' ∧ Rep T s' rf' rd' ∧ Extends rf rf' rd rd' ∧
      Fetched debug fetch s s' ∧
      Ends T s' rf' rd' node create (ffind debug fetch past s wd path node create)
        (if 255 < name.length then .nameTooLong else .noEntry parent) := by
  obtain ⟨y, hy, hstop⟩ := hmiss.stop
  rw [← hstop]
  exact ffind_rest_ends debug past hT hs h h0 hx hy hmiss.nonempty node create

end

/-! ## What the file systems keep -/

/-- Every directory has its `file_t`. -/
def Vfs.Homes (s : Vfs) : Prop := ∀ a d, s.dirs a = some d → (s.files d.file).isSome

/-- What was allocated for a creation is kept, and so are the root and the `file_t` of the
directories. -/
structure Keeps (e : Env) (s s' : Vfs) : Prop where
  root : s'.root = s.root
  homes : s.Homes → s'.Homes
  file : ∀ f, s.files e.fileAddr = some f →
    ∃ f', s'.files e.fileAddr = some f' ∧ f'.type = f.type ∧ f'.special = f.special
  dir : (s.dirs e.dirAddr).isSome → (s'.dirs e.dirAddr).isSome

theorem Keeps.refl (e : Env) (s : Vfs) : Keeps e s s :=
  ⟨rfl, fun h => h, fun f hf => ⟨f, hf, rfl, rfl⟩, fun h => h⟩

theorem Keeps.trans {e : Env} {s₁ s₂ s₃ : Vfs} (h : Keeps e s₁ s₂) (h' : Keeps e s₂ s₃) :
    Keeps e s₁ s₃ := by
  refine ⟨h'.root.trans h.root, fun hs => h'.homes (h.homes hs), ?_, fun hs => h'.dir (h.dir hs)⟩
  intro f hf
  obtain ⟨f₂, hf₂, ht₂, hs₂⟩ := h.file f hf
  obtain ⟨f₃, hf₃, ht₃, hs₃⟩ := h'.file f₂ hf₂
  exact ⟨f₃, hf₃, ht₃.trans ht₂, hs₃.trans hs₂⟩

theorem isSome_setFile {a b : Nat} {f : FileT} (h : (s.files b).isSome) :
    ((s.setFile a f).files b).isSome := by
  by_cases hb : b = a <;> simp [Vfs.setFile, hb, h]

theorem isSome_setDir {a b : Nat} {d : DirT} (h : (s.dirs b).isSome) :
    ((s.setDir a d).dirs b).isSome := by
  by_cases hb : b = a <;> simp [Vfs.setDir, hb, h]

theorem keeps_setParent {e : Env} {a : Nat} {f : FileT} (hf : s.files a = some f)
    (parent : Nat) : Keeps e s (s.setFile a { f with parent := parent }) := by
  refine ⟨rfl, fun h b d hd => isSome_setFile (h b d hd), ?_, fun h => h⟩
  intro f₀ hf₀
  by_cases ha : e.fileAddr = a
  · subst ha
    obtain rfl : f₀ = f := by simpa [hf] using hf₀.symm
    exact ⟨_, Function.update_self .., rfl, rfl⟩
  · exact ⟨f₀, by simpa [Vfs.setFile, ha] using hf₀, rfl, rfl⟩

/-- The file systems keep it. -/
def KeptBy (e : Env) : Prop :=
  ∀ fstype s a i s', e.fetch fstype s a i = .ret s' → Keeps e s s'

theorem fsFetch_keeps {e : Env} (he : KeptBy e) {debug : Bool} {s' : Vfs} {a i : Nat}
    (h : fsFetch debug e.fetch s a i = .ret s') : Keeps e s s' := by
  rcases fsFetch_cases h with rfl | ⟨fstype, s₁, b, f, hs₁, hf, rfl⟩
  · exact Keeps.refl e s'
  · exact (he _ _ _ _ _ hs₁).trans (keeps_setParent hf a)

theorem Fetched.keeps {e : Env} (he : KeptBy e) {debug : Bool} {s' : Vfs}
    (h : Fetched debug e.fetch s s') : Keeps e s s' := by
  induction h with
  | refl => exact Keeps.refl e s
  | tail _ hstep ih =>
      obtain ⟨a, i, hfetch⟩ := hstep
      exact ih.trans (fsFetch_keeps he hfetch)

/-! ## The allocations -/

namespace Creation

variable {c : Creation} {e : Env} {proc : Option Caller} {mode : Nat}

theorem allocate_root : (c.allocate e proc mode s).root = s.root := by
  cases c <;> rfl

/-- Memory that is not in use stands for nothing in the tree. -/
theorem allocate_rep (h : Rep T s rf rd) (hfile : s.files e.fileAddr = none)
    (hdir : s.dirs e.dirAddr = none) : Rep T (c.allocate e proc mode s) rf rd := by
  refine h.of_files ?_ ?_
  · intro a f hf
    have ha : a ≠ e.fileAddr := by
      rintro rfl
      simp [hfile] at hf
    refine ⟨f, ?_, rfl, rfl⟩
    cases c <;> simpa [allocate, Vfs.setFile, Vfs.setDir, ha] using hf
  · intro a d hd
    have ha : a ≠ e.dirAddr := by
      rintro rfl
      simp [hdir] at hd
    cases c <;> simpa [allocate, Vfs.setFile, Vfs.setDir, ha] using hd

theorem allocate_homes (h : s.Homes) : (c.allocate e proc mode s).Homes := by
  intro a d hd
  cases c with
  | mkdir =>
      by_cases ha : a = e.dirAddr
      · subst ha
        simp only [allocate, Vfs.setFile, Vfs.setDir, Function.update_self,
          Option.some.injEq] at hd
        subst hd
        simp [allocate, Vfs.setFile]
      · have hd' : s.dirs a = some d := by
          simpa [allocate, Vfs.setFile, Vfs.setDir, ha] using hd
        exact isSome_setFile (h a d hd')
  | mknod type major minor => exact isSome_setFile (h a d hd)

/-- The new file.  The directory of a new directory is allocated too. -/
theorem allocate_file (hc : c.Accepted) :
    ∃ f, (c.allocate e proc mode s).files e.fileAddr = some f ∧
      (f.type = .dir → f.special = e.dirAddr ∧
        ((c.allocate e proc mode s).dirs e.dirAddr).isSome) := by
  cases c with
  | mkdir =>
      refine ⟨_, Function.update_self .., fun _ => ⟨rfl, ?_⟩⟩
      simp [allocate, Vfs.setFile, Vfs.setDir]
  | mknod type major minor =>
      refine ⟨_, Function.update_self .., fun htype => ?_⟩
      rcases hc with rfl | rfl | rfl | rfl <;> cases htype

end Creation

/-- The new file is added to the list of the directory. -/
theorem ffindNoent_create {a file : Nat} {d : DirT} {f : FileT} (hd : s.dirs a = some d)
    (hhome : (s.files d.file).isSome) (hf : s.files file = some f)
    (hdir : f.type = .dir → (s.dirs f.special).isSome) :
    ∃ s', ffindNoent s a true file = .ret (.success, s') := by
  obtain ⟨pf, hpf⟩ := Option.isSome_iff_exists.1 hhome
  by_cases htype : f.type = .dir
  · obtain ⟨nd, hnd⟩ := Option.isSome_iff_exists.1
      (isSome_setDir (a := a) (d := { d with files := d.files ++ [.file file] }) (hdir htype))
    simp only [Vfs.setDir] at hnd
    simp [ffindNoent, Vfs.dir, Vfs.file, Vfs.setDir, Vfs.setFile, hd, hf, hpf, htype, hnd]
  · simp [ffindNoent, Vfs.dir, Vfs.file, Vfs.setDir, Vfs.setFile, hd, hf, hpf, htype]

/-! ## When a creation returns -/

/-- What the file systems keep does not depend on memory that a creation allocates. -/
structure AllocInv (e : Env) (I : Vfs → (Nat → Option F) → (Nat → Option D) → Prop) : Prop where
  file : ∀ s rf rd f, I s rf rd → s.files e.fileAddr = none → I (s.setFile e.fileAddr f) rf rd
  dir : ∀ s rf rd d, I s rf rd → s.dirs e.dirAddr = none → I (s.setDir e.dirAddr d) rf rd

theorem Creation.allocate_inv {I : Vfs → (Nat → Option F) → (Nat → Option D) → Prop} {e : Env}
    {c : Creation} (h : AllocInv e I) (hs : I s rf rd) (hfile : s.files e.fileAddr = none)
    (hdir : s.dirs e.dirAddr = none) (proc : Option Caller) (mode : Nat) :
    I (c.allocate e proc mode s) rf rd := by
  cases c with
  | mkdir => exact h.file _ _ _ _ (h.dir _ _ _ _ hs hdir) hfile
  | mknod type major minor => exact h.file _ _ _ _ hs hfile

/-- The memory stands for a tree, and the file systems fetch its entries. -/
structure Mounted (T : Tree F D) (e : Env) (s : Vfs) (rf : Nat → Option F) (rd : Nat → Option D) :
    Prop where
  rep : Rep T s rf rd
  homes : s.Homes
  fetches : ∃ I, FetchInv T e.fetch I ∧ AllocInv e I ∧ I s rf rd
  keeps : KeptBy e

/-- `kmalloc` returns memory that is not in use after the first lookup. -/
def Fresh (e : Env) (s : Vfs) (proc : Option Caller) (path : CString) : Prop :=
  ∀ status node s₁,
    ffind e.debug e.fetch e.past s (getWorkingDir s proc) path none false =
      .ret (status, node, s₁) →
    s₁.files e.fileAddr = none ∧ s₁.dirs e.dirAddr = none

theorem start_of_root {s' : Vfs} (h : s'.root = s.root) (wd : Nat) (path : CString) :
    start s' wd path = start s wd path := by
  simp [start, h]

theorem giveUpLast_some (empty : Bool) (a file : Nat) (create : Bool) :
    giveUpLast s empty a (some file) create = noent s a (some file) create file := by
  cases empty <;> rfl

section

variable {c : Creation} {e : Env} {proc : Option Caller} {path : CString} {mode : Nat}
  {parent : D} {name : CString}

/-- The second lookup adds the file. -/
theorem ffind_create (proc : Option Caller) (mode : Nat) (hc : c.Accepted)
    (hm : Mounted T e s rf rd) (hfile : s.files e.fileAddr = none)
    (hdir : s.dirs e.dirAddr = none) {wd : Nat} (h0 : 0 ∉ path) (hx : ∀ x, path ≠ [slash, x])
    (hlen : ¬ 255 < name.length)
    (hmiss : Missing T rd (start s wd path).1 (path.drop (start s wd path).2) parent name) :
    ∃ s', ffind e.debug e.fetch e.past (c.allocate e proc mode s) wd path (some e.fileAddr) true =
      .ret (.success, some e.fileAddr, s') := by
  have hstart : start (c.allocate e proc mode s) wd path = start s wd path :=
    start_of_root Creation.allocate_root wd path
  obtain ⟨I, hT, hA, hI⟩ := hm.fetches
  obtain ⟨s', rf', rd', -, hrep, -, hsteps, hends⟩ :=
    ffind_missing e.debug e.past hT (c.allocate_inv hA hI hfile hdir proc mode)
      (c.allocate_rep hm.rep hfile hdir) h0 hx (hstart ▸ hmiss) (some e.fileAddr) true
  rw [if_neg hlen] at hends
  obtain ⟨a, ha, hends⟩ := hends
  obtain ⟨d, hd, -⟩ := hrep.dir a parent ha
  have hkeeps : Keeps e (c.allocate e proc mode s) s' := hsteps.keeps hm.keeps
  obtain ⟨f, hf, htype⟩ := Creation.allocate_file (s := s) hc
  obtain ⟨f', hf', ht', hs'⟩ := hkeeps.file f hf
  obtain ⟨s'', hs''⟩ := ffindNoent_create hd
    (hkeeps.homes (Creation.allocate_homes hm.homes) a d hd) hf' (fun h => by
      obtain ⟨hsp, hsome⟩ := htype (ht' ▸ h)
      rw [hs', hsp]
      exact hkeeps.dir hsome)
  refine ⟨s'', ?_⟩
  rw [hends, giveUpLast_some, noent, hs'']
  rfl

/-- The creation of an absent path returns `SUCCESS`, if its directory is not empty and `ffind`
does not refuse the path or take it for the root. -/
theorem Creation.run_succeeds (hc : c.Accepted) (hm : Mounted T e s rf rd)
    (habs : Absent T s rd proc path parent name) (hfresh : Fresh e s proc path)
    (hentries : T.entries parent ≠ []) (hlen : ¬ 255 < name.length)
    (hx : ∀ x, path ≠ [slash, x]) : ∃ s', c.run e s proc path mode = .ret (.success, s') := by
  obtain ⟨h0, hmiss⟩ := habs
  obtain ⟨I, hT, hA, hI⟩ := hm.fetches
  obtain ⟨s₁, rf₁, rd₁, hI₁, hrep₁, hext₁, hsteps₁, hends₁⟩ :=
    ffind_missing e.debug e.past hT hI hm.rep h0 hx hmiss none false
  rw [if_neg hlen] at hends₁
  obtain ⟨a, -, hends₁⟩ := hends₁
  have hfirst : ffind e.debug e.fetch e.past s (getWorkingDir s proc) path none false =
      .ret (.enoent, none, s₁) := by
    rw [hends₁, giveUpLast, if_neg (by simpa using hentries)]
    rfl
  obtain ⟨hfile, hdir⟩ := hfresh _ _ _ hfirst
  have hkeeps : Keeps e s s₁ := hsteps₁.keeps hm.keeps
  have hm₁ : Mounted T e s₁ rf₁ rd₁ := ⟨hrep₁, hkeeps.homes hm.homes, ⟨I, hT, hA, hI₁⟩, hm.keeps⟩
  have hstart := start_of_root hkeeps.root (getWorkingDir s proc) path
  obtain ⟨s₂, hsecond⟩ := ffind_create proc mode hc hm₁ hfile hdir h0 hx hlen
    (hstart ▸ hmiss.extends hext₁)
  refine ⟨s₂, ?_⟩
  rw [run_eq hc, hfirst, Outcome.ret_bind]
  simp [hsecond]

/-- Otherwise it does not return `SUCCESS`. -/
theorem Creation.run_fails (hm : Mounted T e s rf rd) (habs : Absent T s rd proc path parent name)
    (h : ¬ c.Accepted ∨ T.entries parent = [] ∨ 255 < name.length ∨ ∃ x, path = [slash, x])
    (s' : Vfs) : c.run e s proc path mode ≠ .ret (.success, s') := by
  by_cases hc : c.Accepted
  · rw [run_eq hc]
    by_cases hx : ∃ x, path = [slash, x]
    · obtain ⟨x, rfl⟩ := hx
      nofun
    obtain ⟨h0, hmiss⟩ := habs
    obtain ⟨I, hT, -, hI⟩ := hm.fetches
    obtain ⟨s₁, rf₁, rd₁, -, -, -, -, hends⟩ :=
      ffind_missing e.debug e.past hT hI hm.rep h0 (not_exists.1 hx) hmiss none false
    by_cases hlen : 255 < name.length
    · rw [if_pos hlen] at hends
      rw [hends]
      nofun
    · rw [if_neg hlen] at hends
      obtain ⟨a, -, hends⟩ := hends
      have hempty : T.entries parent = [] := by simpa [hc, hx, hlen] using h
      rw [hends, hempty]
      nofun
  · rw [run_of_not_accepted hc]
    nofun

/-- Take a path whose parent directory exists and does not have the last component.  A creation
that returns `SUCCESS` has not done what it should, so this is right only of those that do not
return `SUCCESS`: the type is refused, the parent directory is empty, the name is too long, or
the path is a slash and one byte. -/
theorem created_iff (hm : Mounted T e s rf rd) (habs : Absent T s rd proc path parent name)
    (hfresh : Fresh e s proc path) :
    (∀ s', c.run e s proc path mode = .ret (.success, s') →
      Created T c e s rd proc path parent name mode s') ↔
    ¬ c.Accepted ∨ T.entries parent = [] ∨ 255 < name.length ∨ ∃ x, path = [slash, x] := by
  constructor
  · intro h
    by_contra hcond
    rw [not_or, not_or, not_or, not_not, not_exists] at hcond
    obtain ⟨hc, hentries, hlen, hx⟩ := hcond
    obtain ⟨s', hs'⟩ := Creation.run_succeeds hc hm habs hfresh hentries hlen hx
    exact not_created hc (h s' hs')
  · intro h s' hs'
    exact absurd hs' (Creation.run_fails hm habs h s')

end

end

/-! ## The directory `/dev` -/

/-- The directory that holds itself is the root. -/
def dotRoot (a : Nat) : Option Unit := if a = 8 then some () else none

/-- `"/dev"`, and its last component. -/
def devPath : CString := [slash, 100, 101, 118]

def devName : CString := [100, 101, 118]

/-- `kmalloc` returns 16 for the file and 17 for the directory. -/
def devEnv : Env where
  debug := true
  fetch := dotFetch
  past := 0
  now := 0
  fileAddr := 16
  fileLeft := dotFile 0
  dirAddr := 17
  dirLeft := { file := 0, files := [], parent := 0, mounted := 0, fstype := 0, driver := 0 }

theorem devEnv_keeps : KeptBy devEnv := by
  intro fstype s a i s' h
  simp only [devEnv, dotFetch] at h
  cases hd : s.dirs a with
  | none => simp [hd] at h
  | some d =>
      simp only [hd] at h
      split at h
      · next en hen =>
        cases h
        refine ⟨rfl, ?_, ?_, fun h => isSome_setDir h⟩
        · intro hs b d' hd'
          by_cases hb : b = a
          · subst hb
            simp only [Vfs.setDir, Vfs.setFile, Function.update_self, Option.some.injEq] at hd'
            subst hd'
            exact isSome_setFile (hs b d hd)
          · simp only [Vfs.setDir, Vfs.setFile, Function.update_of_ne hb] at hd'
            exact isSome_setFile (hs b d' hd')
        · intro f hf
          exact ⟨f, hf, rfl, rfl⟩
      · cases h

theorem devEnv_mounted : Mounted dotTree devEnv dotVfs (fun _ => none) dotRoot := by
  have halloc : AllocInv devEnv fun (_ : Vfs) (_ _ : Nat → Option Unit) => True :=
    ⟨fun _ _ _ _ _ _ => trivial, fun _ _ _ _ _ _ => trivial⟩
  refine ⟨dotVfs_rep, ?_, ⟨_, dotFetch_inv, halloc, trivial⟩, devEnv_keeps⟩
  intro a d hd
  simp only [dotVfs] at hd
  split at hd
  · obtain rfl := Option.some.inj hd
    rfl
  · cases hd

theorem devPath_absent : Absent dotTree dotVfs dotRoot none devPath () devName :=
  ⟨by decide, by decide, ⟨(), [], rfl, rfl, rfl⟩, rfl⟩

theorem devEnv_fresh {path : CString} {status : Status}
    (hfirst : ffind devEnv.debug devEnv.fetch devEnv.past dotVfs (getWorkingDir dotVfs none) path
      none false = .ret (status, none, dotVfs)) : Fresh devEnv dotVfs none path := by
  intro status' node s₁ h
  rw [hfirst] at h
  cases h
  exact ⟨rfl, rfl⟩

theorem devPath_fresh : Fresh devEnv dotVfs none devPath :=
  devEnv_fresh (show _ = Outcome.ret (.enoent, none, dotVfs) from rfl)

/-- `mkdir /dev` in a root directory that holds only itself. -/
theorem created_iff_dev :
    ¬ ∀ s', Creation.mkdir.run devEnv dotVfs none devPath 0o755 = .ret (.success, s') →
      Created dotTree .mkdir devEnv dotVfs dotRoot none devPath () devName 0o755 s' := by
  rw [created_iff devEnv_mounted devPath_absent devPath_fresh]
  rintro (h | h | h | ⟨x, h⟩)
  · exact h trivial
  · cases h
  · exact absurd h (by decide)
  · cases h

/-- `mkdir /dev` returns `SUCCESS`.  The path is not found afterwards, and can be created a
second time. -/
theorem dev_not_found :
    Absent dotTree dotVfs dotRoot none devPath () devName ∧
    ∃ s', Creation.mkdir.run devEnv dotVfs none devPath 0o755 = .ret (.success, s') ∧
      Resolves devEnv s' none devPath 1 .enoent 1 ∧
      (∃ s'', Creation.mkdir.run { devEnv with fileAddr := 32, dirAddr := 33 } s' none devPath
        0o755 = .ret (.success, s'')) ∧
      ¬ Created dotTree .mkdir devEnv dotVfs dotRoot none devPath () devName 0o755 s' :=
  ⟨devPath_absent, _, rfl, ⟨_, rfl⟩, ⟨_, rfl⟩, not_created trivial⟩

end UlmerOS.Fs
