import UlmerOS.Fs.FfindCreate

/-!
# What the lookup does with its node

`vfs_mkdir` and `vfs_mknod` look a path up with a null pointer for `node`, and `vfs_open` with
a variable that it has not set.  `ffind_recursive` checks the pointer in one of the four
places where it follows it.  So the lookup with a null pointer faults if the path is found,
and also if it gives up in an empty directory or at a file in the middle of the path
(`Ends.fault_of_reads`).  Where it returns, the status is the same for every node
(`node_independent_iff`).

With a pointer there is no fault, and the status does not depend on what the variable held.
But where that was null, it stays null although the path is found (`storeNode`).
-/

namespace UlmerOS.Fs

variable {F D : Type}

/-! ## Every path -/

/-- `ffind` takes the path for the root. -/
def TakenForRoot (past : UInt8) (path : CString) : Prop :=
  path.head? = some slash ∧ byteAt path past 2 = 0

/-- Where the walk ends that a lookup makes, if it is not taken for the root. -/
def Tree.pathStop (T : Tree F D) (y : D) (s : Vfs) (wd : Nat) (path : CString) : Stop F D :=
  stopFrom T (trailing path) y (components (path.drop (start s wd path).2))

section

variable {T : Tree F D} {s : Vfs} {rf : Nat → Option F} {rd : Nat → Option D} {fetch : Fetch}
  {I : Vfs → (Nat → Option F) → (Nat → Option D) → Prop} {node : Option Nat} {create : Bool}
  {str : CString} {dir : Nat} {y : D}

/-- Where nothing is left of the path, the name is `.`. -/
theorem lookup_ends_empty (hT : FetchInv T fetch I) (hs : I s rf rd) (debug : Bool)
    (h : Rep T s rf rd) (hy : rd dir = some y) :
    ∃ s' rf' rd', Rep T s' rf' rd' ∧ Extends rf rf' rd rd' ∧
      (Ends T s' rf' rd' node create
          (ffindRecursive debug fetch s str str.length dir node create)
          (stopFrom T (trailing str) y [[]]) ∨
        str = [] ∧ (∃ x, stopFrom T (trailing str) y [[]] = .file x) ∧
          ffindRecursive debug fetch s str str.length dir node create = .fault) := by
  have hdrop : str.drop str.length = [] := List.drop_length
  have hlen : strclen slash (str.drop str.length) = ([] : CString).length := by rw [hdrop]; rfl
  have hcpy : strccpy slash (str.drop str.length) = ([], 0) := by rw [hdrop]; rfl
  obtain ⟨a, ha, hcases⟩ := ffindRecursiveWith_entry h debug fetch
    (str.length - str.length) hy hlen (by decide) hcpy
  rw [ffindRecursive, stopFrom, if_neg (by decide)]
  rcases hcases with ⟨hnone, heq⟩ | ⟨e, i, hsome, hei, heq⟩
  · rw [hnone]
    exact ⟨s, rf, rd, h, Extends.refl rf rd, .inl ⟨a, ha, heq⟩⟩
  · obtain ⟨s₁, rf₁, rd₁, en, hfetch, -, h₁, hext, hslot, hrf⟩ := fsFetch_rep hT hs h debug ha hei
    refine ⟨s₁, rf₁, rd₁, h₁, hext, ?_⟩
    rw [hsome, heq]
    unfold enter
    rw [hfetch, Outcome.ret_bind, hslot, Outcome.ret_bind, slotFile, Nat.add_zero,
      if_pos (Nat.le_refl _)]
    cases str with
    | nil => exact .inr ⟨rfl, ⟨e.2, if_neg fun h => absurd h.1 (by decide)⟩, rfl⟩
    | cons c str =>
        have hpos : 0 < (c :: str).length := Nat.succ_pos _
        exact .inl (ffindLast_ends h₁ hpos hrf)

/-- Nothing is left of an empty path, and of a slash. -/
theorem rest_nil {wd : Nat} {path : CString} (h : path.drop (start s wd path).2 = []) :
    path = [] ∨ path = [slash] := by
  rw [start] at h
  split at h
  next hslash =>
    right
    obtain ⟨rest, rfl⟩ : ∃ rest, path = slash :: rest := List.head?_eq_some_iff.mp hslash
    rw [List.drop_one] at h
    exact congrArg _ h
  next => exact .inl h

/-- A slash in front is not one at the end. -/
theorem trailing_rest {wd : Nat} {path : CString} (h : path.drop (start s wd path).2 ≠ []) :
    trailing (path.drop (start s wd path).2) = trailing path := by
  rw [start] at h ⊢
  split at h
  next hslash =>
    obtain ⟨rest, rfl⟩ : ∃ rest, path = slash :: rest := List.head?_eq_some_iff.mp hslash
    rw [if_pos hslash]
    exact (trailing_cons [] h).symm
  next hslash =>
    rw [if_neg hslash]
    rfl

/-- Every lookup that is not taken for one of the root ends where the walk does, but for that of
an empty path, which looks at the byte in front of the string where it finds something. -/
theorem ffind_ends (hT : Fetches T fetch s rf rd) (debug : Bool) {past : UInt8}
    (h : Rep T s rf rd) {wd : Nat} {path : CString} (h0 : 0 ∉ path)
    (htaken : ¬ TakenForRoot past path) (hy : rd (start s wd path).1 = some y)
    (node : Option Nat) (create : Bool) :
    ∃ s' rf' rd', Rep T s' rf' rd' ∧ Extends rf rf' rd rd' ∧
      (Ends T s' rf' rd' node create (ffind debug fetch past s wd path node create)
          (T.pathStop y s wd path) ∨
        path = [] ∧ (∃ x, T.pathStop y s wd path = .file x) ∧
          ffind debug fetch past s wd path node create = .fault) := by
  obtain ⟨I, hinv, hs⟩ := hT
  by_cases hrest : path.drop (start s wd path).2 = []
  · rw [Tree.pathStop, hrest]
    rcases rest_nil hrest with rfl | rfl
    · exact lookup_ends_empty hinv hs debug h hy
    · have hpast : byteAt [slash] past 2 ≠ 0 := fun hzero => htaken ⟨rfl, hzero⟩
      have hffind : ffind debug fetch past s wd [slash] node create =
          ffindRecursive debug fetch s [slash] [slash].length s.root node create := if_neg hpast
      rw [hffind]
      exact lookup_ends_empty hinv hs debug h hy
  · have hx : ∀ x, path ≠ [slash, x] := by
      rintro x rfl
      exact htaken ⟨rfl, rfl⟩
    obtain ⟨s', rf', rd', -, hrep, hext, -, hends⟩ :=
      ffind_rest_ends debug past hinv hs h h0 hx hy hrest node create
    refine ⟨s', rf', rd', hrep, hext, .inl ?_⟩
    rw [Tree.pathStop, ← trailing_rest hrest]
    exact hends

end

/-! ## One lookup, any node -/

/-- The status of a lookup that creates nothing. -/
def Stop.status : Stop F D → Status
  | .file _ => .success
  | .noEntry _ => .enoent
  | .noDirectory _ => .enoent
  | .slashBehind => .enotdir
  | .nameTooLong => .enametoolong

/-- The lookup ends where it does not look at the node. -/
def Stop.Ignores (T : Tree F D) : Stop F D → Prop
  | .noEntry p => T.entries p ≠ []
  | .slashBehind => True
  | .nameTooLong => True
  | _ => False

section

variable {T : Tree F D} {s : Vfs} {rf : Nat → Option F} {rd : Nat → Option D}
  {r : Outcome (Status × Option Nat × Vfs)} {st : Stop F D}

/-- There the node makes no difference. -/
theorem Ends.ret_of_ignores {node : Option Nat} (h : Ends T s rf rd node false r st)
    (hst : st.Ignores T) : r = .ret (st.status, node, s) := by
  cases st with
  | file f => exact hst.elim
  | noEntry p =>
      obtain ⟨a, -, rfl⟩ := h
      rw [giveUpLast, if_neg (fun hempty => hst (List.isEmpty_iff.mp hempty))]
      rfl
  | noDirectory p => exact hst.elim
  | slashBehind => exact h
  | nameTooLong => exact h

/-- Everywhere else a null pointer is followed. -/
theorem Ends.fault_of_reads (h : Ends T s rf rd none false r st) (hst : ¬ st.Ignores T) :
    r = .fault := by
  cases st with
  | file f =>
      obtain ⟨a, -, rfl⟩ := h
      rfl
  | noEntry p =>
      obtain ⟨a, -, rfl⟩ := h
      rw [giveUpLast, if_pos (List.isEmpty_iff.mpr (not_not.mp hst))]
      rfl
  | noDirectory p =>
      obtain ⟨a, -, rfl⟩ := h
      rfl
  | slashBehind => exact absurd trivial hst
  | nameTooLong => exact absurd trivial hst

/-- With a pointer, the status does not depend on what it points to.  The file that is found is
stored only if there was a file before. -/
theorem Ends.ret_of_some {target : Nat} (h : Ends T s rf rd (some target) false r st) :
    ∃ target', r = .ret (st.status, some target', s) ∧
      ∀ x, st = .file x → if target = 0 then target' = 0 else rf target' = some x := by
  cases st with
  | file f =>
      obtain ⟨a, ha, rfl⟩ := h
      refine ⟨if target ≠ 0 then a else target, rfl, ?_⟩
      rintro x ⟨⟩
      by_cases hzero : target = 0
      · rw [if_pos hzero, if_neg (not_not.mpr hzero)]
        exact hzero
      · rw [if_neg hzero, if_pos hzero]
        exact ha
  | noEntry p =>
      obtain ⟨a, -, rfl⟩ := h
      rw [giveUpLast_some]
      exact ⟨target, rfl, nofun⟩
  | noDirectory p =>
      obtain ⟨a, -, rfl⟩ := h
      exact ⟨target, rfl, nofun⟩
  | slashBehind => exact ⟨target, h, nofun⟩
  | nameTooLong => exact ⟨target, h, nofun⟩

end

/-- The lookup of a path returns the same status for every node, a null pointer included, and
with a pointer it stores the file that the walk ends at. -/
structure NodeIndependent (T : Tree F D) (debug : Bool) (fetch : Fetch) (past : UInt8) (s : Vfs)
    (rf : Nat → Option F) (rd : Nat → Option D) (y : D) (wd : Nat) (path : CString) : Prop where
  status : ∃ status, ∀ node, ∃ node' s',
    ffind debug fetch past s wd path node false = .ret (status, node', s')
  stored : ∀ target node' s',
    ffind debug fetch past s wd path (some target) false = .ret (.success, node', s') →
      ∃ a x rf' rd', node' = some a ∧ T.pathStop y s wd path = .file x ∧ rf' a = some x ∧
        Rep T s' rf' rd' ∧ Extends rf rf' rd rd'

/-- **When a lookup does not depend on its node.**  For every tree and path, the status is the
same for every node, a null pointer is not followed, and the file found is stored, exactly if
the path is not taken for the root and not found, and the lookup gives up in a directory that
is not empty, at a slash behind a file or at a name that is too long. -/
theorem node_independent_iff {T : Tree F D} {s : Vfs} {rf : Nat → Option F} {rd : Nat → Option D}
    {fetch : Fetch} (hT : Fetches T fetch s rf rd) (debug : Bool) (past : UInt8)
    (h : Rep T s rf rd) {wd : Nat} {path : CString} (h0 : 0 ∉ path) {y : D}
    (hy : rd (start s wd path).1 = some y) :
    NodeIndependent T debug fetch past s rf rd y wd path ↔
      ¬ TakenForRoot past path ∧ (T.pathStop y s wd path).Ignores T := by
  constructor
  · intro hind
    obtain ⟨status, hstatus⟩ := hind.status
    obtain ⟨node', s', hret⟩ := hstatus none
    have htaken : ¬ TakenForRoot past path := by
      rintro ⟨hslash, hzero⟩
      obtain ⟨rest, rfl⟩ : ∃ rest, path = slash :: rest := List.head?_eq_some_iff.mp hslash
      have hfirst : byteAt (slash :: rest) past 0 = slash := rfl
      rw [ffind, if_pos hfirst, if_pos hzero] at hret
      cases hret
    refine ⟨htaken, ?_⟩
    by_contra hreads
    obtain ⟨s₁, rf₁, rd₁, -, -, hends | ⟨-, -, hfault⟩⟩ :=
      ffind_ends hT debug h h0 htaken hy none false
    · rw [hends.fault_of_reads hreads] at hret
      cases hret
    · rw [hfault] at hret
      cases hret
  · rintro ⟨htaken, hignores⟩
    have hret : ∀ node, ∃ s', ffind debug fetch past s wd path node false =
        .ret ((T.pathStop y s wd path).status, node, s') := by
      intro node
      obtain ⟨s₁, rf₁, rd₁, -, -, hends | ⟨-, ⟨x, hx⟩, -⟩⟩ :=
        ffind_ends hT debug h h0 htaken hy node false
      · exact ⟨s₁, hends.ret_of_ignores hignores⟩
      · rw [hx] at hignores
        exact hignores.elim
    refine ⟨⟨(T.pathStop y s wd path).status, fun node => ?_⟩, fun target node' s' hsuccess => ?_⟩
    · obtain ⟨s', hs'⟩ := hret node
      exact ⟨node, s', hs'⟩
    · obtain ⟨s'', hs''⟩ := hret (some target)
      rw [hs''] at hsuccess
      cases hst : T.pathStop y s wd path with
      | file x =>
          rw [hst] at hignores
          exact hignores.elim
      | _ =>
          rw [hst] at hsuccess
          cases hsuccess

/-- `a`, in a directory that has only `.`. -/
theorem node_independent_missing : NodeIndependent dotTree true dotFetch 0 dotVfs (fun _ => none)
    dotRoot () 8 [97] :=
  (node_independent_iff dotFetch_fetches true 0 dotVfs_rep (by decide) rfl).mpr
    ⟨fun h => absurd h.1 (by decide), show dotTree.entries () ≠ [] from List.cons_ne_nil _ _⟩

/-- The lookup of `.` with a null pointer faults, and one with a variable that is null does not
store the directory. -/
theorem null_node_followed : ¬ ∀ (T : Tree Unit Unit) (s : Vfs) (rf rd : Nat → Option Unit)
    (fetch : Fetch) (debug : Bool) (past : UInt8) (wd : Nat) (path : CString) (y : Unit),
    Fetches T fetch s rf rd → Rep T s rf rd → 0 ∉ path → rd (start s wd path).1 = some y →
      NodeIndependent T debug fetch past s rf rd y wd path := by
  intro h
  obtain ⟨status, hstatus⟩ := (h dotTree dotVfs _ _ dotFetch true 0 8 dot () dotFetch_fetches
    dotVfs_rep (by decide) rfl).status
  obtain ⟨node', s', hret⟩ := hstatus none
  cases hret

end UlmerOS.Fs
