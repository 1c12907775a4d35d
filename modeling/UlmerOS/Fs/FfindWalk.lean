import UlmerOS.Fs.Ffind
import Mathlib.Data.List.Forall2
import Mathlib.Logic.Relation
import Mathlib.Tactic.Common

/-!
# Path lookup is a walk over the components

`Tree` is what the directories hold, whether or not it has been fetched, and `walk` is the
reference.  It splits the path at the slashes, reads an empty component as `.` and takes
the first entry with the name in one directory after the other.  A slash at the end adds
no component: it asks for a directory.

`Rep` ties the memory to a tree.  It says which `file_t` and `dir_t` stand for a file or a
directory of the tree, and an entry that is attached leads to a `file_t` that stands for the
file it names.  A file system is assumed to attach that file (`Fetches`).

A level of the recursion that returns comes to the same for every node and flag (`Level`),
and `lookup_ends` says how the lookup ends for each of them.  For a node whose target is not
null and without `FFIND_CREATE` this is `ffind_recursive_walks`: `ffind_recursive` returns,
with the status and the file of the walk.  It returns in particular without having written
past `current_name`, which would be a fault.
-/

namespace UlmerOS.Fs

/-! ## The reference -/

/-- Files and directories, as the entries name them. -/
structure Tree (F D : Type) where
  type : F → FType
  /-- The directory of a file of type `F_DIR`. -/
  directory : F → D
  entries : D → List (CString × F)
  mounted : D → Option D

/-- The directory that an entry is looked up in. -/
def Tree.redirect {F D : Type} (T : Tree F D) (d : D) : D := (T.mounted d).getD d

/-- The first entry with a name. -/
def Tree.entry {F D : Type} (T : Tree F D) (d : D) (name : CString) : Option F :=
  ((T.entries d).find? fun e => e.1 == name).map Prod.snd

/-- An empty component is read as `.`. -/
def readName (c : CString) : CString := if c = [] then dot else c

/-- Where a walk ends. -/
inductive Stop (F D : Type) where
  /-- At a file. -/
  | file (f : F)
  /-- In a directory that has no entry with the name. -/
  | noEntry (d : D)
  /-- In a directory whose entry in the middle of the path is not a directory. -/
  | noDirectory (d : D)
  /-- At a file that is not a directory, with a slash behind it. -/
  | slashBehind
  /-- At a component of more than 255 bytes. -/
  | nameTooLong

/-- What the walk answers. -/
def Stop.answer {F D : Type} : Stop F D → Except Status F
  | .file f => .ok f
  | .noEntry _ => .error .enoent
  | .noDirectory _ => .error .enoent
  | .slashBehind => .error .enotdir
  | .nameTooLong => .error .enametoolong

/-- Walk along the components.  With `trailing`, the path ends in a slash. -/
def stopFrom {F D : Type} (T : Tree F D) (trailing : Bool) (d : D) : List CString → Stop F D
  | [] => .noEntry (T.redirect d)
  | c :: cs =>
      if 255 < c.length then .nameTooLong
      else
        match T.entry (T.redirect d) (readName c) with
        | none => .noEntry (T.redirect d)
        | some f =>
            match cs with
            | [] => if trailing ∧ T.type f ≠ .dir then .slashBehind else .file f
            | c' :: cs =>
                if T.type f ≠ .dir then .noDirectory (T.redirect d)
                else stopFrom T trailing (T.directory f) (c' :: cs)

/-- The path ends in a slash. -/
def trailing (path : CString) : Bool := path.getLast? == some slash

/-- The components of a path. -/
def components (path : CString) : List CString :=
  if trailing path then (path.splitOn slash).dropLast else path.splitOn slash

/-- Where the walk along a path ends. -/
def stop {F D : Type} (T : Tree F D) (d : D) (path : CString) : Stop F D :=
  stopFrom T (trailing path) d (components path)

/-- The reference walk. -/
def walk {F D : Type} (T : Tree F D) (d : D) (path : CString) : Except Status F :=
  (stop T d path).answer

/-! ## Components -/

/-- The next component and the rest of the path, if there is a slash behind it. -/
theorem path_cases (path : CString) :
    slash ∉ path ∨ ∃ c rest, path = c ++ slash :: rest ∧ slash ∉ c := by
  by_cases h : slash ∈ path
  · obtain ⟨c, rest, hp, hc⟩ := List.eq_append_cons_of_mem h
    exact .inr ⟨c, rest, hp, hc⟩
  · exact .inl h

section

variable {c rest : CString}

theorem trailing_last (hc : slash ∉ c) : trailing c = false := by
  simp only [trailing, beq_eq_false_iff_ne, ne_eq]
  intro h
  exact hc (List.mem_of_getLast? h)

theorem trailing_slash (c : CString) : trailing (c ++ [slash]) = true := by simp [trailing]

theorem trailing_cons (c : CString) (h : rest ≠ []) :
    trailing (c ++ slash :: rest) = trailing rest := by
  obtain ⟨x, rest, rfl⟩ := List.exists_cons_of_ne_nil h
  simp [trailing, List.getLast?_append, List.getLast?_cons_cons]

theorem components_last (hc : slash ∉ c) : components c = [c] := by
  rw [components, trailing_last hc, List.splitOn_eq_singleton hc]
  rfl

theorem components_slash (hc : slash ∉ c) : components (c ++ [slash]) = [c] := by
  rw [components, trailing_slash, List.splitOn_append_cons_self_of_not_mem hc]
  rfl

theorem components_ne_nil (h : rest ≠ []) : components rest ≠ [] := by
  rcases path_cases rest with hr | ⟨c, rest, rfl, hc⟩
  · simp [components_last hr]
  · unfold components
    rw [List.splitOn_append_cons_self_of_not_mem hc,
      List.dropLast_cons_of_ne_nil (List.splitOn_ne_nil slash rest)]
    split <;> exact List.cons_ne_nil _ _

theorem components_cons (hc : slash ∉ c) (h : rest ≠ []) :
    components (c ++ slash :: rest) = c :: components rest := by
  unfold components
  rw [trailing_cons c h, List.splitOn_append_cons_self_of_not_mem hc,
    List.dropLast_cons_of_ne_nil (List.splitOn_ne_nil slash rest)]
  split <;> rfl

theorem strclen_last (hc : slash ∉ c) : strclen slash c = c.length := by
  induction c with
  | nil => rfl
  | cons x c ih =>
      obtain ⟨hx, hc⟩ := List.ne_and_not_mem_of_not_mem_cons hc
      rw [strclen, if_neg (Ne.symm hx), ih hc, List.length_cons]

theorem strclen_cons (hc : slash ∉ c) : strclen slash (c ++ slash :: rest) = c.length := by
  induction c with
  | nil => simp [strclen]
  | cons x c ih =>
      obtain ⟨hx, hc⟩ := List.ne_and_not_mem_of_not_mem_cons hc
      rw [List.cons_append, strclen, if_neg (Ne.symm hx), ih hc, List.length_cons]

theorem strccpy_last (hc : slash ∉ c) : strccpy slash c = (c, c.length) := by
  induction c with
  | nil => rfl
  | cons x c ih =>
      obtain ⟨hx, hc⟩ := List.ne_and_not_mem_of_not_mem_cons hc
      rw [strccpy, if_neg (Ne.symm hx), ih hc, List.length_cons]

theorem strccpy_cons (hc : slash ∉ c) :
    strccpy slash (c ++ slash :: rest) = (c, c.length + 1) := by
  induction c with
  | nil => simp [strccpy]
  | cons x c ih =>
      obtain ⟨hx, hc⟩ := List.ne_and_not_mem_of_not_mem_cons hc
      rw [List.cons_append, strccpy, if_neg (Ne.symm hx), ih hc, List.length_cons]

end

/-! ## One step of the walk -/

section

variable {F D : Type} {T : Tree F D}

/-- What follows a component. -/
inductive Follows : CString → CString → Nat → Option CString → Prop where
  /-- The end of the path. -/
  | last (c : CString) : Follows c c c.length none
  /-- A slash and the end of the path. -/
  | slash (c : CString) : Follows (c ++ [slash]) c (c.length + 1) none
  /-- A slash and the rest of the path. -/
  | more (c rest : CString) (h : rest ≠ []) :
      Follows (c ++ Fs.slash :: rest) c (c.length + 1) (some rest)

/-- A path begins with a component, which `strclen` measures and `strccpy` copies. -/
theorem exists_follows (path : CString) :
    ∃ c n more, Follows path c n more ∧ slash ∉ c ∧ strclen slash path = c.length ∧
      strccpy slash path = (c, n) := by
  rcases path_cases path with hc | ⟨c, rest, rfl, hc⟩
  · exact ⟨path, _, _, .last path, hc, strclen_last hc, strccpy_last hc⟩
  · by_cases hr : rest = []
    · subst hr
      exact ⟨c, _, _, .slash c, hc, strclen_cons hc, strccpy_cons hc⟩
    · exact ⟨c, _, _, .more c rest hr, hc, strclen_cons hc, strccpy_cons hc⟩

/-- At the last component the source pointer moves to the end. -/
theorem Follows.end_eq {path c : CString} {n : Nat} (h : Follows path c n none) :
    n = path.length := by
  cases h with
  | last => rfl
  | slash => simp

theorem Follows.rest_eq {path c rest : CString} {n : Nat} (h : Follows path c n (some rest)) :
    path.drop n = rest ∧ rest ≠ [] ∧ 0 < n := by
  cases h with
  | more _ _ hr => exact ⟨by simp, hr, Nat.succ_pos _⟩

/-- The walk at a component. -/
theorem stop_follows {path c : CString} {n : Nat} {more : Option CString}
    (h : Follows path c n more) (hc : slash ∉ c) (d : D) :
    stop T d path =
      if 255 < c.length then .nameTooLong
      else
        match T.entry (T.redirect d) (readName c) with
        | none => .noEntry (T.redirect d)
        | some f =>
            match more with
            | none => if trailing path ∧ T.type f ≠ .dir then .slashBehind else .file f
            | some rest =>
                if T.type f ≠ .dir then .noDirectory (T.redirect d)
                else stop T (T.directory f) rest := by
  unfold stop
  cases h with
  | last => rw [components_last hc, stopFrom]
  | slash => rw [components_slash hc, stopFrom]
  | more _ rest hr =>
      obtain ⟨c', cs, hcs⟩ := List.exists_cons_of_ne_nil (components_ne_nil hr)
      rw [trailing_cons c hr, components_cons hc hr, stopFrom]
      simp only [hcs]

/-! ## Memory that stands for a tree -/

/-- A payload of a list is an entry of the tree.  If a file is attached to it, it is the one
that the entry names. -/
def Attached (rf : Nat → Option F) (slot : Slot) (e : CString × F) : Prop :=
  ∃ en : DirEntry, slot = .dentry en ∧ en.name = e.1 ∧ (en.file ≠ 0 → rf en.file = some e.2)

/-- A `dir_t` stands for a directory of the tree. -/
structure DirRep (T : Tree F D) (rf : Nat → Option F) (rd : Nat → Option D) (d : DirT) (y : D) :
    Prop where
  entries : List.Forall₂ (Attached rf) d.files (T.entries y)
  mounted : d.mounted = 0 ∧ T.mounted y = none ∨
    d.mounted ≠ 0 ∧ ∃ z, T.mounted y = some z ∧ rd d.mounted = some z
  /-- What is still to be fetched lies in a directory of a file system. -/
  fstype : ∀ en, .dentry en ∈ d.files → en.file = 0 → d.fstype ≠ 0

/-- The memory stands for a tree: `rf` and `rd` give the file or directory that the record at
an address stands for, if there is one. -/
structure Rep (T : Tree F D) (s : Vfs) (rf : Nat → Option F) (rd : Nat → Option D) : Prop where
  file : ∀ a x, rf a = some x → ∃ f, s.files a = some f ∧ f.type = T.type x ∧
    (f.type = .dir → rd f.special = some (T.directory x))
  dir : ∀ a y, rd a = some y → ∃ d, s.dirs a = some d ∧ DirRep T rf rd d y

/-- Records stand for the same as before. -/
structure Extends (rf rf' : Nat → Option F) (rd rd' : Nat → Option D) : Prop where
  files : ∀ a x, rf a = some x → rf' a = some x
  dirs : ∀ a y, rd a = some y → rd' a = some y

theorem Extends.refl (rf : Nat → Option F) (rd : Nat → Option D) : Extends rf rf rd rd :=
  ⟨fun _ _ h => h, fun _ _ h => h⟩

theorem Extends.trans {rf₁ rf₂ rf₃ : Nat → Option F} {rd₁ rd₂ rd₃ : Nat → Option D}
    (h : Extends rf₁ rf₂ rd₁ rd₂) (h' : Extends rf₂ rf₃ rd₂ rd₃) : Extends rf₁ rf₃ rd₁ rd₃ :=
  ⟨fun a x hx => h'.files a x (h.files a x hx), fun a y hy => h'.dirs a y (h.dirs a y hy)⟩

/-- What the file systems keep: while it holds, they attach to an entry the file that it names.
It does not depend on the parent of a `file_t`, which `fs_fetch` sets. -/
structure FetchInv (T : Tree F D) (fetch : Fetch)
    (I : Vfs → (Nat → Option F) → (Nat → Option D) → Prop) : Prop where
  attaches : ∀ s rf rd a y d i en, I s rf rd → Rep T s rf rd → rd a = some y →
    s.dirs a = some d → d.files[i]? = some (.dentry en) → en.file = 0 →
    ∃ s' rf' rd' en', fetch d.fstype s a i = .ret s' ∧ I s' rf' rd' ∧ Rep T s' rf' rd' ∧
      Extends rf rf' rd rd' ∧ s'.slot a i = .ret (.dentry en') ∧ en'.file ≠ 0
  setParent : ∀ s rf rd a f parent, I s rf rd → s.files a = some f →
    I (s.setFile a { f with parent := parent }) rf rd

/-- From this memory on, the file systems attach to an entry the file that it names. -/
def Fetches (T : Tree F D) (fetch : Fetch) (s : Vfs) (rf : Nat → Option F)
    (rd : Nat → Option D) : Prop :=
  ∃ I, FetchInv T fetch I ∧ I s rf rd

variable {fetch : Fetch} {I : Vfs → (Nat → Option F) → (Nat → Option D) → Prop}
  {s : Vfs} {rf : Nat → Option F} {rd : Nat → Option D}

/-- The tree does not depend on records that no one leads to, nor on the other fields of a
file. -/
theorem Rep.of_files (h : Rep T s rf rd) {s' : Vfs}
    (hfiles : ∀ a f, s.files a = some f →
      ∃ f', s'.files a = some f' ∧ f'.type = f.type ∧ f'.special = f.special)
    (hdirs : ∀ a d, s.dirs a = some d → s'.dirs a = some d) : Rep T s' rf rd := by
  refine ⟨?_, ?_⟩
  · intro a x hx
    obtain ⟨f, hf, ht, hd⟩ := h.file a x hx
    obtain ⟨f', hf', ht', hs'⟩ := hfiles a f hf
    exact ⟨f', hf', ht'.trans ht, fun hdir => hs' ▸ hd (ht' ▸ hdir)⟩
  · intro a y hy
    obtain ⟨d, hd, hrep⟩ := h.dir a y hy
    exact ⟨d, hdirs a d hd, hrep⟩

theorem Rep.setParent (h : Rep T s rf rd) {a : Nat} {f : FileT} (hf : s.files a = some f)
    (parent : Nat) : Rep T (s.setFile a { f with parent := parent }) rf rd := by
  refine h.of_files ?_ (fun _ _ hd => hd)
  intro b f₀ hb
  by_cases hba : b = a
  · subst hba
    obtain rfl : f₀ = f := by simpa [hf] using hb.symm
    exact ⟨_, Function.update_self .., rfl, rfl⟩
  · exact ⟨f₀, by simpa [Vfs.setFile, hba] using hb, rfl, rfl⟩

/-- Memory without a directory comes to hold one. -/
theorem Rep.addDir (h : Rep T s rf rd) {b : Nat} {d : DirT} {y : D} (hb : s.dirs b = none)
    (hd : DirRep T rf (Function.update rd b (some y)) d y) :
    Rep T (s.setDir b d) rf (Function.update rd b (some y)) ∧
      Extends rf rf rd (Function.update rd b (some y)) := by
  have hne : ∀ a z, rd a = some z → a ≠ b := by
    rintro a z hz rfl
    obtain ⟨d₀, hd₀, -⟩ := h.dir a z hz
    rw [hb] at hd₀
    cases hd₀
  have hext : ∀ a z, rd a = some z → Function.update rd b (some y) a = some z := by
    intro a z hz
    rwa [Function.update_of_ne (hne a z hz)]
  refine ⟨⟨fun a x hx => ?_, fun a z hz => ?_⟩, fun _ _ hx => hx, hext⟩
  · obtain ⟨f, hf, ht, hdir⟩ := h.file a x hx
    exact ⟨f, hf, ht, fun htype => hext _ _ (hdir htype)⟩
  · by_cases hab : a = b
    · subst hab
      rw [Function.update_self] at hz
      obtain rfl := Option.some.inj hz
      exact ⟨d, Function.update_self .., hd⟩
    · rw [Function.update_of_ne hab] at hz
      obtain ⟨d₀, hd₀, hrep⟩ := h.dir a z hz
      refine ⟨d₀, (Function.update_of_ne hab ..).trans hd₀, hrep.entries, ?_, hrep.fstype⟩
      exact hrep.mounted.imp id fun ⟨h0, w, hw, hm⟩ => ⟨h0, w, hw, hext _ _ hm⟩

/-- A file of the tree is written to memory that stands for no other one. -/
theorem Rep.addFile (h : Rep T s rf rd) {c : Nat} {f : FileT} {x : F}
    (hc : ∀ x', rf c = some x' → x' = x) (ht : f.type = T.type x)
    (hdir : f.type = .dir → rd f.special = some (T.directory x)) :
    Rep T (s.setFile c f) (Function.update rf c (some x)) rd ∧
      Extends rf (Function.update rf c (some x)) rd rd := by
  have hext : ∀ a x', rf a = some x' → Function.update rf c (some x) a = some x' := by
    intro a x' hx'
    by_cases hac : a = c
    · subst hac
      rw [Function.update_self, hc x' hx']
    · rwa [Function.update_of_ne hac]
  refine ⟨⟨fun a x' hx' => ?_, fun a z hz => ?_⟩, hext, fun _ _ hz => hz⟩
  · by_cases hac : a = c
    · subst hac
      rw [Function.update_self] at hx'
      obtain rfl := Option.some.inj hx'
      exact ⟨f, Function.update_self .., ht, hdir⟩
    · rw [Function.update_of_ne hac] at hx'
      obtain ⟨f₀, hf₀, hrest⟩ := h.file a x' hx'
      exact ⟨f₀, (Function.update_of_ne hac ..).trans hf₀, hrest⟩
  · obtain ⟨d, hd, hrep⟩ := h.dir a z hz
    refine ⟨d, hd, hrep.entries.imp ?_, hrep.mounted, hrep.fstype⟩
    rintro slot e ⟨en, rfl, hn, hfile⟩
    exact ⟨en, rfl, hn, fun h0 => hext _ _ (hfile h0)⟩

/-- The entry of the tree that a `direntry_t` stands for. -/
theorem DirRep.entry {d : DirT} {y : D} (h : DirRep T rf rd d y) {i : Nat} {en : DirEntry}
    (hen : d.files[i]? = some (.dentry en)) :
    ∃ e, (T.entries y)[i]? = some e ∧ en.name = e.1 := by
  obtain ⟨hi, heni⟩ := List.getElem?_eq_some_iff.mp hen
  have hlt : i < (T.entries y).length := h.entries.length_eq ▸ hi
  obtain ⟨en', hen', hn, -⟩ := h.entries.get hi hlt
  obtain rfl : en = en' := Slot.dentry.inj (heni.symm.trans hen')
  exact ⟨_, List.getElem?_eq_getElem hlt, hn⟩

/-- The file of an entry is attached to it. -/
theorem Rep.setSlot (h : Rep T s rf rd) {a i c : Nat} {y : D} {d : DirT} {en : DirEntry}
    {e : CString × F} (hy : rd a = some y) (hd : s.dirs a = some d)
    (hen : d.files[i]? = some (.dentry en)) (he : (T.entries y)[i]? = some e) (h0 : c ≠ 0)
    (hc : rf c = some e.2) :
    Rep T (s.setDir a { d with files := d.files.set i (.dentry { en with file := c }) }) rf rd := by
  refine ⟨h.file, fun b z hz => ?_⟩
  by_cases hba : b = a
  · subst hba
    obtain rfl : y = z := Option.some.inj (hy.symm.trans hz)
    obtain ⟨d₀, hd₀, hrep⟩ := h.dir b y hy
    obtain rfl : d₀ = d := Option.some.inj (hd₀.symm.trans hd)
    refine ⟨_, Function.update_self .., ?_, hrep.mounted, fun en' hen' h0' => ?_⟩
    · obtain ⟨hlen, hall⟩ := List.forall₂_iff_get.mp hrep.entries
      refine List.forall₂_iff_get.mpr ⟨by simpa using hlen, fun j h1 h2 => ?_⟩
      obtain ⟨en₁, hen₁, hn, hfile⟩ := hall j (by simpa using h1) h2
      by_cases hij : i = j
      · subst hij
        obtain ⟨hi, hei⟩ := List.getElem?_eq_some_iff.mp he
        obtain ⟨hi', heni⟩ := List.getElem?_eq_some_iff.mp hen
        obtain rfl : en₁ = en := by
          rw [List.get_eq_getElem, heni] at hen₁
          exact (Slot.dentry.inj hen₁).symm
        refine ⟨{ en₁ with file := c }, by simp, hn, fun _ => ?_⟩
        rw [List.get_eq_getElem, hei]
        exact hc
      · exact ⟨en₁, by simpa [List.getElem_set_ne hij] using hen₁, hn, hfile⟩
    · rcases List.mem_or_eq_of_mem_set hen' with hmem | heq
      · exact hrep.fstype en' hmem h0'
      · rw [Slot.dentry.inj heq] at h0'
        exact absurd h0' h0
  · obtain ⟨d₀, hd₀, hrep⟩ := h.dir b z hz
    exact ⟨d₀, (Function.update_of_ne hba ..).trans hd₀, hrep⟩

/-! ## Steps of the lookup -/

theorem Vfs.dir_eq_ret {a : Nat} {d : DirT} (h : s.dir a = .ret d) : s.dirs a = some d := by
  cases hd : s.dirs a with
  | none =>
      rw [Vfs.dir, hd] at h
      cases h
  | some d' =>
      rw [Vfs.dir, hd] at h
      cases h
      rfl

theorem Vfs.file_eq_ret {a : Nat} {f : FileT} (h : s.file a = .ret f) : s.files a = some f := by
  cases hf : s.files a with
  | none =>
      rw [Vfs.file, hf] at h
      cases h
  | some f' =>
      rw [Vfs.file, hf] at h
      cases h
      rfl

/-- `fs_fetch` finds the file attached, or the file system attaches it. -/
theorem fsFetch_cases {debug : Bool} {fetch : Fetch} {s' : Vfs} {a i : Nat}
    (h : fsFetch debug fetch s a i = .ret s') :
    s' = s ∨ ∃ fstype s₁ b f, fetch fstype s a i = .ret s₁ ∧ s₁.files b = some f ∧
      s' = s₁.setFile b { f with parent := a } := by
  unfold fsFetch at h
  obtain ⟨d, -, h⟩ := Outcome.bind_eq_ret.1 h
  obtain ⟨slot, -, h⟩ := Outcome.bind_eq_ret.1 h
  split at h
  · cases h
    exact .inl rfl
  split at h
  · cases h
  split at h
  · cases h
  obtain ⟨s₁, hs₁, h⟩ := Outcome.bind_eq_ret.1 h
  obtain ⟨slot', -, h⟩ := Outcome.bind_eq_ret.1 h
  obtain ⟨f, hf, h⟩ := Outcome.bind_eq_ret.1 h
  cases h
  exact .inr ⟨d.fstype, s₁, _, f, hs₁, Vfs.file_eq_ret hf, rfl⟩

theorem slot_eq {a i : Nat} {d : DirT} {slot : Slot} (hd : s.dirs a = some d)
    (h : d.files[i]? = some slot) : s.slot a i = .ret slot := by
  simp [Vfs.slot, Vfs.dir, hd, h]

theorem exists_of_slot {a i : Nat} {slot : Slot} (h : s.slot a i = .ret slot) :
    ∃ d, s.dirs a = some d ∧ d.files[i]? = some slot := by
  obtain ⟨d, hd, h⟩ := Outcome.bind_eq_ret.1 h
  refine ⟨d, Vfs.dir_eq_ret hd, ?_⟩
  cases hi : d.files[i]? with
  | none => simp [hi] at h
  | some slot' => simpa [hi] using h

/-- The loop finds the first entry with the name. -/
theorem findEntry_rep {slots : List Slot} {es : List (CString × F)}
    (h : List.Forall₂ (Attached rf) slots es) (name : CString) (k : Nat) :
    (es.find? (fun e => e.1 == name) = none ∧ findEntry s name slots k = .ret none) ∨
      ∃ e i, es.find? (fun e => e.1 == name) = some e ∧ es[i]? = some e ∧
        findEntry s name slots k = .ret (some (k + i)) := by
  induction h generalizing k with
  | nil => exact .inl ⟨rfl, rfl⟩
  | @cons slot e slots es hslot _ ih =>
      obtain ⟨en, rfl, hn, -⟩ := hslot
      by_cases he : e.1 = name
      · exact .inr ⟨e, 0, by simp [he], rfl, by simp [findEntry, slotName, hn, he]⟩
      · have hstep : findEntry s name (.dentry en :: slots) k = findEntry s name slots (k + 1) := by
          simp [findEntry, slotName, hn, he]
        have hfind : (e :: es).find? (fun e => e.1 == name) = es.find? fun e => e.1 == name := by
          simp [he]
        rw [hfind, hstep]
        rcases ih (k + 1) with hnone | ⟨e', i, hsome, hei, hi⟩
        · exact .inl hnone
        · exact .inr ⟨e', i + 1, hsome, hei, by rw [hi, Nat.add_assoc, Nat.add_comm 1 i]⟩

/-- The entry at a place of a directory of the tree, and the file attached to it. -/
theorem DirRep.slot {d : DirT} {y : D} (h : DirRep T rf rd d y) {i : Nat} {e : CString × F}
    (he : (T.entries y)[i]? = some e) :
    ∃ en, d.files[i]? = some (.dentry en) ∧ (en.file ≠ 0 → rf en.file = some e.2) := by
  obtain ⟨hi, hei⟩ := List.getElem?_eq_some_iff.1 he
  have hi' : i < d.files.length := by
    rw [h.entries.length_eq]
    exact hi
  obtain ⟨en, hen, -, hfile⟩ := h.entries.get hi' hi
  refine ⟨en, ?_, ?_⟩
  · rw [List.getElem?_eq_getElem hi']
    exact congrArg some hen
  · simpa [hei] using hfile

/-- Fetching an entry of the tree attaches its file. -/
theorem fsFetch_rep (hT : FetchInv T fetch I) (hs : I s rf rd) (h : Rep T s rf rd) (debug : Bool)
    {a i : Nat} {y : D} {e : CString × F} (hy : rd a = some y)
    (he : (T.entries y)[i]? = some e) :
    ∃ s' rf' rd' en, fsFetch debug fetch s a i = .ret s' ∧ I s' rf' rd' ∧ Rep T s' rf' rd' ∧
      Extends rf rf' rd rd' ∧ s'.slot a i = .ret (.dentry en) ∧ rf' en.file = some e.2 := by
  obtain ⟨d, hd, hrep⟩ := h.dir a y hy
  obtain ⟨en, hen, hfile⟩ := hrep.slot he
  by_cases h0 : en.file = 0
  · have hfs : d.fstype ≠ 0 := hrep.fstype en (List.mem_of_getElem? hen) h0
    obtain ⟨s', rf', rd', en', hret, hs', h', hext, hslot, hne⟩ :=
      hT.attaches s rf rd a y d i en hs h hy hd hen h0
    obtain ⟨d', hd', hen'⟩ := exists_of_slot hslot
    obtain ⟨d₂, hd₂, hrep'⟩ := h'.dir a y (hext.dirs a y hy)
    obtain rfl : d' = d₂ := by simpa [hd'] using hd₂
    obtain ⟨en₂, hen₂, hfile₂⟩ := hrep'.slot he
    obtain rfl : en' = en₂ := by simpa [hen'] using hen₂
    obtain ⟨f, hf, -⟩ := h'.file _ _ (hfile₂ hne)
    refine ⟨s'.setFile en'.file { f with parent := a }, rf', rd', en', ?_,
      hT.setParent _ _ _ _ _ a hs' hf, h'.setParent hf a, hext, hslot, hfile₂ hne⟩
    simp [fsFetch, Vfs.dir, hd, slot_eq hd hen, slotFile, h0, hfs, hret, hslot, Vfs.file, hf]
  · refine ⟨s, rf, rd, en, ?_, hs, h, Extends.refl rf rd, slot_eq hd hen, hfile h0⟩
    simp [fsFetch, Vfs.dir, hd, slot_eq hd hen, slotFile, h0]

/-- `mounted` leads to the directory that the tree redirects to. -/
theorem Rep.mountPoint (h : Rep T s rf rd) {a : Nat} {y : D} (hy : rd a = some y) :
    ∃ d d', s.dirs a = some d ∧ s.dirs (Fs.mountPoint d a) = some d' ∧
      rd (Fs.mountPoint d a) = some (T.redirect y) ∧ DirRep T rf rd d' (T.redirect y) := by
  obtain ⟨d, hd, hrep⟩ := h.dir a y hy
  have hrd : rd (Fs.mountPoint d a) = some (T.redirect y) := by
    unfold Fs.mountPoint Tree.redirect
    rcases hrep.mounted with ⟨h0, hm⟩ | ⟨h0, z, hm, hz⟩
    · rw [if_neg (not_not.2 h0), hm]
      exact hy
    · rw [if_pos h0, hm]
      exact hz
  obtain ⟨d', hd', hrep'⟩ := h.dir _ _ hrd
  exact ⟨d, d', hd, hd', hrd, hrep'⟩

/-- The byte before the end of the path tells whether it ends in a slash. -/
theorem lookBack_end {str : CString} {pathname : Nat} (h : pathname < str.length) :
    ∃ x, lookBack str str.length = .ret x ∧ (x = slash ↔ trailing (str.drop pathname) = true) := by
  have hlast : str[str.length - 1]? = some (str.getLast (by rintro rfl; cases h)) := by
    rw [← List.getLast?_eq_getElem?, List.getLast?_eq_getLast_of_ne_nil]
  refine ⟨str.getLast (by rintro rfl; cases h), ?_, ?_⟩
  · rw [lookBack, if_neg (by omega), hlast]
  · rw [trailing, List.getLast?_drop, if_neg (by omega), List.getLast?_eq_getElem?, hlast]
    simp

/-! ## How a lookup ends -/

/-- `ffind_recursive` gives up in a directory, after `*node` is read. -/
def giveUp (s : Vfs) (workingDir : Nat) (node : Option Nat) (create : Bool) :
    Outcome (Status × Option Nat × Vfs) := do
  let file ← derefNode node
  noent s workingDir node create file

/-- `ffind_recursive` gives up in a directory that does not have the name. -/
def giveUpLast (s : Vfs) (empty : Bool) (workingDir : Nat) (node : Option Nat) (create : Bool) :
    Outcome (Status × Option Nat × Vfs) :=
  if empty then giveUp s workingDir node create else noent s workingDir node create (node.getD 0)

/-- `ffind_recursive` has found an entry. -/
def enter (debug : Bool) (fetch : Fetch) (fuel : Nat) (s : Vfs) (str : CString)
    (rem workingDir i : Nat) (node : Option Nat) (create : Bool) :
    Outcome (Status × Option Nat × Vfs) := do
  let s ← fsFetch debug fetch s workingDir i
  let slot ← s.slot workingDir i
  if str.length ≤ rem then ffindLast s str rem (slotFile s slot) node create
  else do
    let f ← s.file (slotFile s slot)
    if f.type ≠ .dir then giveUp s workingDir node create
    else ffindRecursiveWith debug fetch fuel s str rem f.special node create

/-- The memory changes during a lookup through `fs_fetch` alone. -/
def Fetched (debug : Bool) (fetch : Fetch) : Vfs → Vfs → Prop :=
  Relation.ReflTransGen fun s s' => ∃ a i, fsFetch debug fetch s a i = .ret s'

/-- What a level of the lookup comes to, whatever the node and the flag are. -/
inductive Level (debug : Bool) (fetch : Fetch) (fuel : Nat) (s : Vfs) (str : CString)
    (lookup : Option Nat → Bool → Outcome (Status × Option Nat × Vfs)) : Prop where
  | tooLong (h : ∀ node create, lookup node create = .ret (.enametoolong, node, s))
  | noEntry {dir : Nat}
      (h : ∀ node create, lookup node create = noent s dir node create (node.getD 0))
  | giveUp {s₁ : Vfs} {dir : Nat} (hs : Fetched debug fetch s s₁)
      (h : ∀ node create, lookup node create = giveUp s₁ dir node create)
  | last {s₁ : Vfs} {rem file : Nat} (hs : Fetched debug fetch s s₁)
      (h : ∀ node create, lookup node create = ffindLast s₁ str rem file node create)
  | next {s₁ : Vfs} {pathname dir : Nat} (hs : Fetched debug fetch s s₁)
      (h : ∀ node create, lookup node create =
        ffindRecursiveWith debug fetch fuel s₁ str pathname dir node create)

/-- A lookup that returns for one node and flag does the same for every other up to here. -/
theorem ffindRecursiveWith_level {debug : Bool} {fetch : Fetch} {fuel : Nat} {s : Vfs}
    {str : CString} {pathname dir : Nat} {node : Option Nat} {create : Bool}
    {r : Status × Option Nat × Vfs}
    (h : ffindRecursiveWith debug fetch (fuel + 1) s str pathname dir node create = .ret r) :
    Level debug fetch fuel s str
      (ffindRecursiveWith debug fetch (fuel + 1) s str pathname dir) := by
  rw [ffindRecursiveWith] at h
  split at h
  next hlong => exact .tooLong fun _ _ => if_pos hlong
  next hlong =>
  obtain ⟨⟨copied, n⟩, hcopy, h⟩ := Outcome.bind_eq_ret.1 h
  obtain ⟨wd, hwd, h⟩ := Outcome.bind_eq_ret.1 h
  obtain ⟨wd', hwd', h⟩ := Outcome.bind_eq_ret.1 h
  split at h
  next hsize =>
    have hempty : ∀ node create,
        ffindRecursiveWith debug fetch (fuel + 1) s str pathname dir node create =
          giveUp s (mountPoint wd dir) node create := by
      intro node create
      rw [ffindRecursiveWith, if_neg hlong]
      simp only [hcopy, hwd, hwd', Outcome.ret_bind, if_pos hsize]
      rfl
    exact .giveUp .refl hempty
  next hsize =>
  obtain ⟨found, hfound, h⟩ := Outcome.bind_eq_ret.1 h
  cases found with
  | none =>
      have hnone : ∀ node create,
          ffindRecursiveWith debug fetch (fuel + 1) s str pathname dir node create =
            noent s (mountPoint wd dir) node create (node.getD 0) := by
        intro node create
        rw [ffindRecursiveWith, if_neg hlong]
        simp only [hcopy, hwd, hwd', Outcome.ret_bind, if_neg hsize, hfound]
      exact .noEntry hnone
  | some i =>
      obtain ⟨s₁, hs₁, h⟩ := Outcome.bind_eq_ret.1 h
      obtain ⟨slot, hslot, h⟩ := Outcome.bind_eq_ret.1 h
      have hfetched : Fetched debug fetch s s₁ := .single ⟨_, i, hs₁⟩
      have hentry : ∀ node create,
          ffindRecursiveWith debug fetch (fuel + 1) s str pathname dir node create =
            enter debug fetch fuel s str (pathname + n) (mountPoint wd dir) i node create := by
        intro node create
        rw [ffindRecursiveWith, if_neg hlong]
        simp only [hcopy, hwd, hwd', Outcome.ret_bind, if_neg hsize, hfound]
        rfl
      simp only [enter, hs₁, hslot, Outcome.ret_bind] at hentry
      split at h
      next hend => exact .last hfetched fun _ _ => (hentry _ _).trans (if_pos hend)
      next hend =>
      obtain ⟨f, hf, h⟩ := Outcome.bind_eq_ret.1 h
      simp only [if_neg hend, hf, Outcome.ret_bind] at hentry
      by_cases htype : f.type = .dir
      · exact .next hfetched fun _ _ => (hentry _ _).trans (if_neg (not_not.mpr htype))
      · exact .giveUp hfetched fun _ _ => (hentry _ _).trans (if_pos htype)

/-- The lookup of a path ends where the walk does. -/
def Ends (T : Tree F D) (s : Vfs) (rf : Nat → Option F) (rd : Nat → Option D) (node : Option Nat)
    (create : Bool) (r : Outcome (Status × Option Nat × Vfs)) : Stop F D → Prop
  | .file f => ∃ a, rf a = some f ∧ r = storeNode s a node create
  | .noEntry p =>
      ∃ a, rd a = some p ∧ r = giveUpLast s (T.entries p).isEmpty a node create
  | .noDirectory p => ∃ a, rd a = some p ∧ r = giveUp s a node create
  | .slashBehind => r = .ret (.enotdir, node, s)
  | .nameTooLong => r = .ret (.enametoolong, node, s)

section

variable {node : Option Nat} {create : Bool} {str : CString}

theorem ffindRecursiveWith_long {debug : Bool} {fetch : Fetch} {fuel pathname dir : Nat}
    (h : 255 < strclen slash (str.drop pathname)) :
    ffindRecursiveWith debug fetch (fuel + 1) s str pathname dir node create =
      .ret (.enametoolong, node, s) := by
  rw [ffindRecursiveWith, if_pos h]

/-- One level of the lookup: either there is no such entry, or it goes on with it. -/
theorem ffindRecursiveWith_entry (h : Rep T s rf rd) (debug : Bool) (fetch : Fetch) (fuel : Nat)
    {c : CString} {pathname dir n : Nat} {y : D} (hy : rd dir = some y)
    (hlen : strclen slash (str.drop pathname) = c.length) (hc : ¬ 255 < c.length)
    (hcpy : strccpy slash (str.drop pathname) = (c, n)) :
    ∃ a, rd a = some (T.redirect y) ∧
      ((T.entry (T.redirect y) (readName c) = none ∧
        ffindRecursiveWith debug fetch (fuel + 1) s str pathname dir node create =
          giveUpLast s (T.entries (T.redirect y)).isEmpty a node create) ∨
      ∃ e i, T.entry (T.redirect y) (readName c) = some e.2 ∧
        (T.entries (T.redirect y))[i]? = some e ∧
        ffindRecursiveWith debug fetch (fuel + 1) s str pathname dir node create =
          enter debug fetch fuel s str (pathname + n) a i node create) := by
  obtain ⟨d, d', hd, hd', hrd, hrep⟩ := h.mountPoint hy
  have hname : (if c.length = 0 then dot else c) = readName c := by
    simp [readName, List.length_eq_zero_iff]
  have hcopy : copyName (str.drop pathname) = .ret (c, n) := by
    rw [copyName, hcpy, if_pos (by show c.length + 1 ≤ 256; omega)]
  have hempty : (T.entries (T.redirect y)).isEmpty = decide (d'.files.length = 0) := by
    rw [hrep.entries.length_eq]
    cases T.entries (T.redirect y) <;> simp
  refine ⟨_, hrd, ?_⟩
  rw [ffindRecursiveWith, if_neg (by rw [hlen]; exact hc), giveUpLast, hempty]
  simp only [hcopy, Outcome.ret_bind, Vfs.dir, hd, hd', hname]
  unfold Tree.entry
  rcases findEntry_rep (s := s) hrep.entries (readName c) 0 with
    ⟨hnone, hfe⟩ | ⟨e, i, hsome, hei, hfe⟩
  · refine .inl ⟨by rw [hnone]; rfl, ?_⟩
    simp only [hfe, Outcome.ret_bind, decide_eq_true_eq]
    rfl
  · refine .inr ⟨e, i, by rw [hsome]; rfl, hei, ?_⟩
    have hne : d'.files.length ≠ 0 := by
      rw [hrep.entries.length_eq]
      have := (List.getElem?_eq_some_iff.1 hei).1
      omega
    rw [if_neg hne, hfe, Nat.zero_add]
    rfl

/-- The last component. -/
theorem ffindLast_ends (h : Rep T s rf rd) {pathname a : Nat} {x : F}
    (hp : pathname < str.length) (hx : rf a = some x) :
    Ends T s rf rd node create (ffindLast s str str.length a node create)
      (if trailing (str.drop pathname) ∧ T.type x ≠ .dir then .slashBehind else .file x) := by
  obtain ⟨f, hf, ht, -⟩ := h.file a x hx
  obtain ⟨b, hb, hslash⟩ := lookBack_end hp
  rw [ffindLast, hb, Outcome.ret_bind, ← ht]
  by_cases htr : trailing (str.drop pathname) = true
  · rw [if_pos (hslash.2 htr), Vfs.file, hf, Outcome.ret_bind]
    by_cases hdir : f.type = .dir
    · rw [if_neg (not_not.2 hdir), if_neg (fun h => h.2 hdir)]
      exact ⟨a, hx, rfl⟩
    · rw [if_pos hdir, if_pos ⟨htr, hdir⟩]
      rfl
  · rw [if_neg (fun hbs => htr (hslash.1 hbs)), if_neg (fun h => htr h.1)]
    exact ⟨a, hx, rfl⟩

theorem ffindRecursiveWith_ends (hT : FetchInv T fetch I) (debug : Bool) (fuel : Nat) :
    ∀ {s : Vfs} {rf : Nat → Option F} {rd : Nat → Option D} {pathname dir : Nat} {y : D},
      I s rf rd → Rep T s rf rd → rd dir = some y → pathname < str.length →
      str.length - pathname < fuel →
      ∃ s' rf' rd', I s' rf' rd' ∧ Rep T s' rf' rd' ∧ Extends rf rf' rd rd' ∧
        Fetched debug fetch s s' ∧ Ends T s' rf' rd' node create
          (ffindRecursiveWith debug fetch fuel s str pathname dir node create)
          (stop T y (str.drop pathname)) := by
  induction fuel with
  | zero =>
      intro s rf rd pathname dir y _ _ _ _ hfuel
      cases hfuel
  | succ fuel ih =>
      intro s rf rd pathname dir y hs h hy hp hfuel
      obtain ⟨c, n, more, hfol, hc, hlen, hcpy⟩ := exists_follows (str.drop pathname)
      rw [stop_follows hfol hc]
      by_cases hlong : 255 < c.length
      · rw [if_pos hlong, ffindRecursiveWith_long (by rw [hlen]; exact hlong)]
        exact ⟨s, rf, rd, hs, h, Extends.refl rf rd, .refl, rfl⟩
      rw [if_neg hlong]
      obtain ⟨a, ha, ⟨hnone, heq⟩ | ⟨e, i, hsome, hei, heq⟩⟩ :=
        ffindRecursiveWith_entry h debug fetch fuel hy hlen hlong hcpy
      · rw [hnone]
        exact ⟨s, rf, rd, hs, h, Extends.refl rf rd, .refl, a, ha, heq⟩
      obtain ⟨s₁, rf₁, rd₁, en, hfetch, hs₁, h₁, hext, hslot, hrf⟩ :=
        fsFetch_rep hT hs h debug ha hei
      have hstep : Fetched debug fetch s s₁ := .single ⟨a, i, hfetch⟩
      obtain ⟨f, hf, ht, hdir⟩ := h₁.file _ _ hrf
      rw [hsome, heq]
      unfold enter
      rw [hfetch, Outcome.ret_bind, hslot, Outcome.ret_bind, slotFile]
      cases more with
      | none =>
          have hend : pathname + n = str.length := by
            rw [hfol.end_eq, List.length_drop]
            omega
          rw [hend, if_pos (Nat.le_refl _)]
          exact ⟨s₁, rf₁, rd₁, hs₁, h₁, hext, hstep, ffindLast_ends h₁ hp hrf⟩
      | some rest =>
          obtain ⟨hrest, hne, hn⟩ := hfol.rest_eq
          rw [List.drop_drop] at hrest
          have hlt : pathname + n < str.length := by
            by_contra hge
            exact hne (by rw [← hrest, List.drop_eq_nil_of_le (by omega)])
          rw [if_neg (by omega), Vfs.file, hf, Outcome.ret_bind]
          dsimp only
          rw [← ht]
          by_cases htype : f.type = .dir
          · obtain ⟨s', rf', rd', hs', h', hext', hsteps, hends⟩ :=
              ih hs₁ h₁ (hdir htype) hlt (by omega)
            rw [if_neg (not_not.2 htype), if_neg (not_not.2 htype), ← hrest]
            exact ⟨s', rf', rd', hs', h', hext.trans hext', hstep.trans hsteps, hends⟩
          · rw [if_pos htype, if_pos htype]
            exact ⟨s₁, rf₁, rd₁, hs₁, h₁, hext, hstep, a, hext.dirs a _ ha, rfl⟩

/-- The lookup of what is left of a path ends where the walk does. -/
theorem lookup_ends (hT : FetchInv T fetch I) (hs : I s rf rd) (debug : Bool)
    (h : Rep T s rf rd) {pathname dir : Nat} {y : D} (hy : rd dir = some y)
    (hp : pathname < str.length) :
    ∃ s' rf' rd', I s' rf' rd' ∧ Rep T s' rf' rd' ∧ Extends rf rf' rd rd' ∧
      Fetched debug fetch s s' ∧
      Ends T s' rf' rd' node create (ffindRecursive debug fetch s str pathname dir node create)
        (stop T y (str.drop pathname)) :=
  ffindRecursiveWith_ends hT debug _ hs h hy hp (Nat.lt_succ_self _)

end

/-- The answer of the lookup is that of the walk.  A failed lookup leaves the node. -/
def Answers (rf : Nat → Option F) (node : Nat) (status : Status) (node' : Nat) :
    Except Status F → Prop
  | .ok f => status = .success ∧ rf node' = some f
  | .error e => status = e ∧ node' = node

/-- With a node whose target is not null, and without `FFIND_CREATE`, the lookup returns the
answer of the walk wherever it ends. -/
theorem Ends.answers {node : Nat} (hnode : node ≠ 0) {r : Outcome (Status × Option Nat × Vfs)}
    {p : Stop F D} (h : Ends T s rf rd (some node) false r p) :
    ∃ status node', r = .ret (status, some node', s) ∧ Answers rf node status node' p.answer := by
  cases p with
  | file f =>
      obtain ⟨a, ha, rfl⟩ := h
      exact ⟨.success, a, by simp [storeNode, derefNode, ffindSuccess, hnode], rfl, ha⟩
  | noEntry d =>
      obtain ⟨a, -, rfl⟩ := h
      refine ⟨.enoent, node, ?_, rfl, rfl⟩
      cases hempty : (T.entries d).isEmpty <;>
        simp [giveUpLast, giveUp, derefNode, noent, ffindNoent]
  | noDirectory d =>
      obtain ⟨a, -, rfl⟩ := h
      exact ⟨.enoent, node, by simp [giveUp, derefNode, noent, ffindNoent], rfl, rfl⟩
  | slashBehind => exact ⟨.enotdir, node, h, rfl, rfl⟩
  | nameTooLong => exact ⟨.enametoolong, node, h, rfl, rfl⟩

/-- The lookup of a path that is not empty, from any directory, returns the status and the
file of the walk over its components. -/
theorem ffind_recursive_walks (hT : Fetches T fetch s rf rd) (debug : Bool)
    (h : Rep T s rf rd) {dir : Nat} {y : D} (hy : rd dir = some y) {path : CString}
    (hpath : path ≠ []) {node : Nat} (hnode : node ≠ 0) :
    ∃ status node' s' rf' rd',
      ffindRecursive debug fetch s path 0 dir (some node) false =
        .ret (status, some node', s') ∧
      Rep T s' rf' rd' ∧ Extends rf rf' rd rd' ∧
      Answers rf' node status node' (walk T y path) := by
  obtain ⟨I, hinv, hs⟩ := hT
  obtain ⟨s', rf', rd', -, h', hext, -, hends⟩ :=
    lookup_ends hinv hs debug h hy (List.length_pos_iff.2 hpath)
  obtain ⟨status, node', hret, hans⟩ := hends.answers hnode
  rw [List.drop_zero] at hans
  exact ⟨status, node', s', rf', rd', hret, h', hext, hans⟩

end

/-! ## A directory that holds itself -/

/-- One directory, whose only entry is `.`. -/
def dotTree : Tree Unit Unit where
  type := fun _ => .dir
  directory := fun _ => ()
  entries := fun _ => [(dot, ())]
  mounted := fun _ => none

/-- The `file_t` of the directory at an address. -/
def dotFile (a : Nat) : FileT where
  mode := 0o755
  padding := (0, 0)
  type := .dir
  uid := 0
  gid := 0
  tLastModified := 0
  tLastAccessed := 0
  tCreated := 0
  length := 1024
  inode := 2
  driver1 := 0
  driver2 := 0
  parent := 0
  special := a

/-- A file system that allocates the `file_t` at the address 1. -/
def dotFetch : Fetch := fun _ s a i =>
  match s.dirs a with
  | none => .fault
  | some d =>
      match d.files[i]? with
      | some (.dentry en) =>
          .ret ((s.setFile 1 (dotFile a)).setDir a
            { d with files := d.files.set i (.dentry { en with file := 1 }) })
      | _ => .fault

theorem dotFetch_inv : FetchInv dotTree dotFetch fun _ _ _ => True := by
  refine ⟨fun s rf rd a y d i en _ h hy hd hen h0 => ?_, fun _ _ _ _ _ _ _ _ => trivial⟩
  obtain ⟨hrep, hext⟩ := h.addFile (c := 1) (f := dotFile a) (x := ()) (fun _ _ => rfl) rfl
    fun _ => hy
  obtain ⟨d₀, hd₀, hdir⟩ := h.dir a y hy
  obtain rfl : d₀ = d := Option.some.inj (hd₀.symm.trans hd)
  obtain ⟨hi, -⟩ := List.getElem?_eq_some_iff.mp hen
  obtain ⟨e, he, -⟩ := hdir.entry hen
  refine ⟨_, _, _, { en with file := 1 }, by simp only [dotFetch, hd, hen], trivial,
    hrep.setSlot hy hd hen he Nat.one_ne_zero (Function.update_self ..), hext, ?_, Nat.one_ne_zero⟩
  exact slot_eq (Function.update_self ..) (by simp [hi])

theorem dotFetch_fetches {s : Vfs} {rf rd : Nat → Option Unit} :
    Fetches dotTree dotFetch s rf rd :=
  ⟨_, dotFetch_inv, trivial⟩

/-- The directory at the address 8, before anything is fetched. -/
def dotVfs : Vfs where
  files := fun a => if a = 9 then some (dotFile 8) else none
  dirs := fun a =>
    if a = 8 then
      some { file := 9, files := [.dentry { name := dot, inode := 2, file := 0 }], parent := 8,
             mounted := 0, fstype := 1, driver := 0 }
    else none
  root := 8
  behind := fun _ => 0

theorem dotVfs_rep :
    Rep dotTree dotVfs (fun _ => none) (fun a => if a = 8 then some () else none) := by
  refine ⟨fun a x hx => (nomatch hx), ?_⟩
  intro a y hy
  obtain rfl : a = 8 := by
    by_contra h8
    simp [h8] at hy
  refine ⟨_, rfl, .cons ⟨_, rfl, rfl, ?_⟩ .nil, .inl ⟨rfl, rfl⟩, ?_⟩
  · intro h0
    exact absurd rfl h0
  · intro en _ _
    simp

/-! ## A file system that goes by inode numbers -/

/-- A tree on a disk.  A file has an inode number, and its `file_t` and its `dir_t` have their
places in memory. -/
structure InodeFs (F D : Type) where
  tree : Tree F D
  inode : F → Nat
  file : Nat → F
  fileAddr : F → Nat
  dirAddr : D → Nat
  file_inode : ∀ x, file (inode x) = x
  dirAddr_inj : ∀ y z, dirAddr y = dirAddr z → y = z
  fileAddr_inj : ∀ x z, fileAddr x = fileAddr z → x = z
  fileAddr_ne : ∀ x, fileAddr x ≠ 0
  not_mounted : ∀ y, tree.mounted y = none

namespace InodeFs

variable (k : InodeFs F D)

/-- A directory none of whose entries has been fetched. -/
def unfetched (y : D) : DirT where
  file := 0
  files := (k.tree.entries y).map fun e =>
    .dentry { name := e.1, inode := k.inode e.2, file := 0 }
  parent := 0
  mounted := 0
  fstype := 1
  driver := 0

/-- The `file_t` of a file. -/
def fileT (x : F) : FileT :=
  { dotFile (k.dirAddr (k.tree.directory x)) with type := k.tree.type x, inode := k.inode x }

/-- The directory of a file is made with its `file_t`, if it is not there. -/
def withDir (s : Vfs) (x : F) : Vfs :=
  let y := k.dirAddr (k.tree.directory x)
  if k.tree.type x = .dir ∧ s.dirs y = none then s.setDir y (k.unfetched (k.tree.directory x))
  else s

/-- `fetch`: the `file_t` of the inode is made and attached to the entry. -/
def fetch : Fetch := fun _ s a i =>
  match s.dirs a with
  | none => .fault
  | some d =>
      match d.files[i]? with
      | some (.dentry en) =>
          let x := k.file en.inode
          .ret (((k.withDir s x).setFile (k.fileAddr x) (k.fileT x)).setDir a
            { d with files := d.files.set i (.dentry { en with file := k.fileAddr x }) })
      | _ => .fault

/-- The records are in their places, and the entries have the inode numbers of their files. -/
structure Inv (s : Vfs) (rf : Nat → Option F) (rd : Nat → Option D) : Prop where
  file : ∀ a x, rf a = some x → a = k.fileAddr x
  dir : ∀ a y, rd a = some y → a = k.dirAddr y
  known : ∀ y d, s.dirs (k.dirAddr y) = some d → rd (k.dirAddr y) = some y
  inode : ∀ (y : D) (d : DirT) (i : Nat) (en : DirEntry) (e : CString × F),
    s.dirs (k.dirAddr y) = some d → d.files[i]? = some (.dentry en) →
    (k.tree.entries y)[i]? = some e → en.inode = k.inode e.2

variable {k} {s : Vfs} {rf : Nat → Option F} {rd : Nat → Option D}

theorem unfetched_slot {y : D} {i : Nat} {en : DirEntry}
    (h : (k.unfetched y).files[i]? = some (.dentry en)) {e : CString × F}
    (he : (k.tree.entries y)[i]? = some e) : en.inode = k.inode e.2 := by
  rw [unfetched, List.getElem?_map, he] at h
  rw [← Slot.dentry.inj (Option.some.inj h)]

theorem unfetched_rep (rf : Nat → Option F) (rd : Nat → Option D) (y : D) :
    DirRep k.tree rf rd (k.unfetched y) y := by
  refine ⟨?_, .inl ⟨rfl, k.not_mounted y⟩, fun _ _ _ => Nat.one_ne_zero⟩
  rw [unfetched, List.forall₂_map_left_iff]
  exact List.forall₂_same.mpr fun e _ => ⟨_, rfl, rfl, fun h0 => absurd rfl h0⟩

/-- The tree is kept, and the directory of the file is there then. -/
theorem withDir_rep (hI : k.Inv s rf rd) (h : Rep k.tree s rf rd) (x : F) :
    ∃ rd', k.Inv (k.withDir s x) rf rd' ∧ Rep k.tree (k.withDir s x) rf rd' ∧
      Extends rf rf rd rd' ∧ (∀ a d, s.dirs a = some d → (k.withDir s x).dirs a = some d) ∧
      (k.tree.type x = .dir →
        rd' (k.dirAddr (k.tree.directory x)) = some (k.tree.directory x)) := by
  rw [withDir]
  split
  next hnew =>
    obtain ⟨-, hfree⟩ := hnew
    obtain ⟨hrep, hext⟩ := h.addDir hfree (unfetched_rep rf _ _)
    refine ⟨_, ⟨hI.file, fun a y hy => ?_, fun y d hd => ?_, fun y d i en e hd hen he => ?_⟩, hrep,
      hext, fun a d hd => ?_, fun _ => Function.update_self ..⟩
    · by_cases ha : a = k.dirAddr (k.tree.directory x)
      · subst ha
        rw [Function.update_self] at hy
        rw [Option.some.inj hy]
      · rw [Function.update_of_ne ha] at hy
        exact hI.dir a y hy
    · by_cases ha : k.dirAddr y = k.dirAddr (k.tree.directory x)
      · rw [k.dirAddr_inj _ _ ha, Function.update_self]
      · simp only [Vfs.setDir, Function.update_of_ne ha] at hd ⊢
        exact hI.known y d hd
    · by_cases ha : k.dirAddr y = k.dirAddr (k.tree.directory x)
      · obtain rfl := k.dirAddr_inj _ _ ha
        simp only [Vfs.setDir, Function.update_self, Option.some.injEq] at hd
        subst hd
        exact unfetched_slot hen he
      · simp only [Vfs.setDir, Function.update_of_ne ha] at hd
        exact hI.inode y d i en e hd hen he
    · refine (Function.update_of_ne ?_ ..).trans hd
      rintro rfl
      rw [hfree] at hd
      cases hd
  next hold =>
    refine ⟨rd, hI, h, .refl rf rd, fun _ _ hd => hd, fun htype => ?_⟩
    obtain ⟨d, hd⟩ := Option.ne_none_iff_exists'.mp fun hnone => hold ⟨htype, hnone⟩
    exact hI.known _ d hd

theorem fetch_inv (k : InodeFs F D) : FetchInv k.tree k.fetch k.Inv := by
  refine ⟨fun s rf rd a y d i en hI h hy hd hen h0 => ?_, fun s rf rd a f parent hI hf => ?_⟩
  · obtain rfl := hI.dir a y hy
    obtain ⟨d₀, hd₀, hdir⟩ := h.dir _ y hy
    obtain rfl : d₀ = d := Option.some.inj (hd₀.symm.trans hd)
    obtain ⟨e, he, -⟩ := hdir.entry hen
    have hx : k.file en.inode = e.2 := by rw [hI.inode y d₀ i en e hd hen he, k.file_inode]
    obtain ⟨rd', hI', hrep, hext, hkeep, htarget⟩ := withDir_rep hI h e.2
    obtain ⟨hrep', hext'⟩ := hrep.addFile (c := k.fileAddr e.2) (f := k.fileT e.2) (x := e.2)
      (fun x' hx' => (k.fileAddr_inj _ _ (hI'.file _ x' hx')).symm) rfl htarget
    have hslot := hrep'.setSlot (hext.dirs _ y hy) (hkeep _ _ hd) hen he (k.fileAddr_ne e.2)
      (Function.update_self ..)
    refine ⟨_, _, rd', { en with file := k.fileAddr e.2 }, ?_, ?_, hslot, hext.trans hext', ?_,
      k.fileAddr_ne e.2⟩
    · simp only [fetch, hd, hen, hx]
    · refine ⟨fun b x' hx' => ?_, hI'.dir, fun z d' hd' => ?_, fun z d' j en' e' hd' hen' he' => ?_⟩
      · by_cases hb : b = k.fileAddr e.2
        · subst hb
          rw [Function.update_self] at hx'
          rw [Option.some.inj hx']
        · rw [Function.update_of_ne hb] at hx'
          exact hI'.file b x' hx'
      · by_cases hz : k.dirAddr z = k.dirAddr y
        · rw [k.dirAddr_inj _ _ hz]
          exact hext.dirs _ y hy
        · simp only [Vfs.setDir, Vfs.setFile, Function.update_of_ne hz] at hd'
          exact hI'.known z d' hd'
      · by_cases hz : k.dirAddr z = k.dirAddr y
        · obtain rfl := k.dirAddr_inj _ _ hz
          simp only [Vfs.setDir, Function.update_self, Option.some.injEq] at hd'
          subst hd'
          by_cases hij : i = j
          · subst hij
            obtain ⟨hi, -⟩ := List.getElem?_eq_some_iff.mp hen
            rw [List.getElem?_set_self hi] at hen'
            rw [← Slot.dentry.inj (Option.some.inj hen')]
            exact hI.inode z d₀ i en e' hd hen he'
          · rw [List.getElem?_set_ne hij] at hen'
            exact hI.inode z d₀ j en' e' hd hen' he'
        · simp only [Vfs.setDir, Vfs.setFile, Function.update_of_ne hz] at hd'
          exact hI'.inode z d' j en' e' hd' hen' he'
    · obtain ⟨hi, -⟩ := List.getElem?_eq_some_iff.mp hen
      exact slot_eq (Function.update_self ..) (by simp [hi])
  · exact ⟨hI.file, hI.dir, hI.known, hI.inode⟩

/-- Memory that holds a directory of the disk, before anything is fetched. -/
def mount (y : D) : Vfs where
  files := fun _ => none
  dirs := fun a => if a = k.dirAddr y then some (k.unfetched y) else none
  root := k.dirAddr y
  behind := fun _ => 0

theorem mount_inv (k : InodeFs F D) (y : D) :
    k.Inv (k.mount y) (fun _ => none) (fun a => if a = k.dirAddr y then some y else none) := by
  have hroot : ∀ z d, (k.mount y).dirs (k.dirAddr z) = some d → z = y ∧ d = k.unfetched y := by
    intro z d hd
    obtain ⟨ha, hd⟩ := Option.ite_none_right_eq_some.mp hd
    exact ⟨k.dirAddr_inj _ _ ha, (Option.some.inj hd).symm⟩
  refine ⟨nofun, fun a z hz => ?_, fun z d hd => ?_, fun z d i en e hd hen he => ?_⟩
  · obtain ⟨ha, hz⟩ := Option.ite_none_right_eq_some.mp hz
    rw [ha, Option.some.inj hz]
  · obtain ⟨rfl, -⟩ := hroot z d hd
    exact if_pos rfl
  · obtain ⟨rfl, rfl⟩ := hroot z d hd
    exact unfetched_slot hen he

theorem mount_rep (k : InodeFs F D) (y : D) :
    Rep k.tree (k.mount y) (fun _ => none)
      (fun a => if a = k.dirAddr y then some y else none) := by
  refine ⟨nofun, fun a z hz => ?_⟩
  obtain ⟨rfl, hy⟩ := Option.ite_none_right_eq_some.mp hz
  obtain rfl := Option.some.inj hy
  exact ⟨_, if_pos rfl, unfetched_rep _ _ _⟩

end InodeFs

/-- A root directory with `etc` and `motd`, and in `etc` the file `hosts`. -/
def etcFs : InodeFs Nat Bool where
  tree :=
    { type := fun x => if x < 2 then .dir else .regular
      directory := fun x => x == 1
      entries := fun y =>
        if y then [(dot, 1), ([46, 46], 0), ([104, 111, 115, 116, 115], 2)]
        else [(dot, 0), ([46, 46], 0), ([101, 116, 99], 1), ([109, 111, 116, 100], 3)]
      mounted := fun _ => none }
  inode := fun x => x + 11
  file := fun n => n - 11
  fileAddr := fun x => x + 18
  dirAddr := fun y => if y then 17 else 16
  file_inode := fun x => Nat.add_sub_cancel x 11
  dirAddr_inj := by decide
  fileAddr_inj := fun x z => Nat.add_right_cancel
  fileAddr_ne := fun x => Nat.succ_ne_zero (x + 17)
  not_mounted := fun _ => rfl

/-- `etc//../motd`. -/
def etcMotd : CString := [101, 116, 99, slash, slash, 46, 46, slash, 109, 111, 116, 100]

/-- The path `etc//../motd` from the root directory. -/
theorem ffind_recursive_walks_motd :
    walk etcFs.tree false etcMotd = .ok 3 ∧
    ∃ node' s', ffindRecursive true etcFs.fetch (etcFs.mount false) etcMotd 0 16 (some 5) false =
        .ret (.success, some node', s') ∧
      ∃ f, s'.files node' = some f ∧ f.type = .regular := by
  have hpath : etcMotd ≠ [] := by decide
  have hnode : 5 ≠ 0 := by decide
  have hrep : Rep etcFs.tree (etcFs.mount false) (fun _ => none)
      (fun d => if d = 16 then some false else none) := etcFs.mount_rep false
  obtain ⟨status, node', s', rf', rd', heq, hrep, -, hans⟩ :=
    ffind_recursive_walks ⟨_, etcFs.fetch_inv, etcFs.mount_inv false⟩ true hrep (if_pos rfl) hpath
      hnode
  have hw : walk etcFs.tree false etcMotd = .ok 3 := by decide
  rw [hw] at hans
  obtain ⟨rfl, hnode⟩ := hans
  obtain ⟨f, hf, ht, -⟩ := hrep.file node' 3 hnode
  exact ⟨hw, node', s', heq, f, hf, ht⟩

end UlmerOS.Fs
