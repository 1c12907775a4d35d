import UlmerOS.Fs.FfindCreate
import UlmerOS.Fs.FfindRoot

/-!
# Creation below a directory that is missing

`ffind_noent` creates in the directory where the lookup gives up, and is not told how much of
the path is left.  So where a component in the middle is missing or not a directory, the new
file goes to the directory that should have had this component (`ffind_create_cases`).
`vfs_mkdir` and `vfs_mknod` do the same, unless their first lookup faults
(`Creation.run_cases`).  Only a component of more than 255 bytes is an error
(`create_below_iff`).
-/

namespace UlmerOS.Fs

variable {F D : Type}

/-! ## Where the walk along all components but the last leads -/

/-- The directory that all components but the last lead to. -/
def Tree.parent (T : Tree F D) (y : D) (rest : CString) : Option D :=
  T.descend y (components rest).dropLast

section

variable {T : Tree F D}

/-- A walk that gives up in a directory. -/
def Stop.GivesUp (p : D) : Stop F D → Prop
  | .noEntry q => q = p
  | .noDirectory q => q = p
  | _ => False

/-- If there is a parent directory, the walk gives up there or not at all. -/
theorem stopFrom_parent {tr : Bool} {cs : List CString} (hcs : cs ≠ []) :
    ∀ {y p q : D}, T.descend y cs.dropLast = some q → (stopFrom T tr y cs).GivesUp p →
      p = q ∧ stopFrom T tr y cs = .noEntry q := by
  induction cs with
  | nil => exact absurd rfl hcs
  | cons c cs ih =>
      intro y p q hq hup
      rw [stopFrom] at hup ⊢
      cases cs with
      | nil =>
          obtain rfl : T.redirect y = q := Option.some.inj hq
          split at hup
          · exact hup.elim
          next hlong =>
          rw [if_neg hlong]
          cases hentry : T.entry (T.redirect y) (readName c) with
          | none =>
              rw [hentry] at hup
              exact ⟨hup.symm, rfl⟩
          | some f =>
              rw [hentry] at hup
              dsimp only at hup
              split at hup
              · exact hup.elim
              · exact hup.elim
      | cons c' cs =>
          rw [List.dropLast_cons_cons, Tree.descend] at hq
          split at hq
          · cases hq
          next hlong =>
          rw [if_neg hlong] at hup ⊢
          cases hentry : T.entry (T.redirect y) (readName c) with
          | none =>
              rw [hentry] at hq
              cases hq
          | some f =>
              rw [hentry] at hq hup
              dsimp only at hq hup ⊢
              split at hq
              · cases hq
              next hdir =>
              rw [if_neg hdir] at hup ⊢
              exact ih (List.cons_ne_nil _ _) hq hup

/-- Otherwise it gives up on the way, or at a name that is too long. -/
theorem stopFrom_noParent {tr : Bool} {cs : List CString} :
    ∀ {y : D}, T.descend y cs.dropLast = none →
      stopFrom T tr y cs = .nameTooLong ∨ ∃ p, (stopFrom T tr y cs).GivesUp p := by
  induction cs with
  | nil =>
      intro y h
      cases h
  | cons c cs ih =>
      intro y h
      rw [stopFrom]
      cases cs with
      | nil => cases h
      | cons c' cs =>
          rw [List.dropLast_cons_cons, Tree.descend] at h
          by_cases hlong : 255 < c.length
          · rw [if_pos hlong]
            exact .inl rfl
          rw [if_neg hlong] at h ⊢
          cases hentry : T.entry (T.redirect y) (readName c) with
          | none => exact .inr ⟨_, rfl⟩
          | some f =>
              rw [hentry] at h
              dsimp only at h ⊢
              by_cases hdir : T.type f ≠ .dir
              · rw [if_pos hdir]
                exact .inr ⟨_, rfl⟩
              · rw [if_neg hdir] at h ⊢
                exact ih h

end

/-! ## What a creation may do -/

section

variable {T : Tree F D} {s : Vfs} {rf : Nat → Option F} {rd : Nat → Option D} {file : Nat}

/-- What a lookup returns, without the node. -/
def outcome (r : Outcome (Status × Option Nat × Vfs)) : Outcome (Status × Vfs) := do
  let (status, _, s) ← r
  .ret (status, s)

/-- An error, and the memory stands for the same tree. -/
def Refused (T : Tree F D) (rf : Nat → Option F) (rd : Nat → Option D)
    (r : Outcome (Status × Vfs)) : Prop :=
  ∃ status s' rf' rd', r = .ret (status, s') ∧ status ≠ .success ∧ Rep T s' rf' rd' ∧
    Extends rf rf' rd rd'

/-- The file is added to a directory of the tree. -/
def Adds (T : Tree F D) (rf : Nat → Option F) (rd : Nat → Option D) (file : Nat) (p : D)
    (r : Outcome (Status × Vfs)) : Prop :=
  ∃ s' rf' rd' a, Rep T s' rf' rd' ∧ Extends rf rf' rd rd' ∧ rd' a = some p ∧
    r = ffindNoent s' a true file

/-- Without a parent directory there is an error and the tree is unchanged, and an entry is
only added to the parent directory. -/
structure OnlyInParent (T : Tree F D) (rf : Nat → Option F) (rd : Nat → Option D)
    (parent : Option D) (file : Nat) (r : Outcome (Status × Vfs)) : Prop where
  refused : parent = none → Refused T rf rd r
  added : ∀ s', r = .ret (.success, s') → ∃ p, parent = some p ∧ Adds T rf rd file p r

variable {parent : Option D} {p : D} {r : Outcome (Status × Vfs)}

theorem Refused.onlyInParent (h : Refused T rf rd r) : OnlyInParent T rf rd parent file r := by
  refine ⟨fun _ => h, fun s' hsuccess => ?_⟩
  obtain ⟨status, s'', -, -, hret, hne, -⟩ := h
  rw [hsuccess] at hret
  cases hret
  exact absurd rfl hne

/-- A fault adds nothing, but it is no error. -/
theorem onlyInParent_fault : OnlyInParent T rf rd parent file .fault ↔ parent ≠ none := by
  constructor
  · intro h hnone
    obtain ⟨status, s', -, -, hret, -⟩ := h.refused hnone
    cases hret
  · intro h
    exact ⟨fun hnone => absurd hnone h, nofun⟩

/-- What adds an entry to a directory must add it to the parent. -/
theorem Adds.onlyInParent_of_some (h : Adds T rf rd file p r) (hp : parent = some p) :
    OnlyInParent T rf rd parent file r :=
  ⟨fun hnone => (nomatch hp.symm.trans hnone), fun _ _ => ⟨p, hp, h⟩⟩

theorem Adds.not_onlyInParent (h : Adds T rf rd file p r) (hnone : parent = none) :
    ¬ OnlyInParent T rf rd parent file r := by
  intro honly
  obtain ⟨status, s', -, -, hret, hne, -⟩ := honly.refused hnone
  obtain ⟨s₁, -, -, a, -, -, -, rfl⟩ := h
  exact hne (ffindNoent_status hret)

theorem outcome_noent (s : Vfs) (a : Nat) (node : Option Nat) (file : Nat) :
    outcome (noent s a node true file) = ffindNoent s a true file := by
  rw [outcome, noent]
  cases ffindNoent s a true file <;> rfl

/-- Where an entry is added, nothing is released. -/
theorem Adds.release {q : Outcome (Status × Option Nat × Vfs)}
    (h : Adds T rf rd file p (outcome q)) (release : Option Nat → Vfs → Vfs) :
    (do
      let (status, node, s₂) ← q
      .ret (status, if status ≠ .success then release node s₂ else s₂)) = outcome q := by
  obtain ⟨s', -, -, a, -, -, -, hret⟩ := h
  cases q with
  | ret x =>
      obtain ⟨status, node, s₂⟩ := x
      obtain rfl : status = .success := ffindNoent_status hret.symm
      rfl
  | _ => rfl

/-! ## How the lookups end -/

variable {st : Stop F D} {q : Outcome (Status × Option Nat × Vfs)}

/-- The lookup that creates adds an entry where it gives up, wherever that is. -/
theorem Ends.creates {s' : Vfs} {rf' : Nat → Option F} {rd' : Nat → Option D}
    (hrep : Rep T s' rf' rd') (hext : Extends rf rf' rd rd')
    (h : Ends T s' rf' rd' (some file) true q st) :
    (∃ p, st.GivesUp p ∧ Adds T rf rd file p (outcome q)) ∨
      (∀ p, ¬ st.GivesUp p) ∧ Refused T rf rd (outcome q) := by
  cases st with
  | file f =>
      obtain ⟨a, -, rfl⟩ := h
      exact .inr ⟨fun _ => id, .eexist, s', rf', rd', rfl, nofun, hrep, hext⟩
  | noEntry p =>
      obtain ⟨a, ha, rfl⟩ := h
      refine .inl ⟨p, rfl, s', rf', rd', a, hrep, hext, ha, ?_⟩
      rw [giveUpLast_some, outcome_noent]
  | noDirectory p =>
      obtain ⟨a, ha, rfl⟩ := h
      exact .inl ⟨p, rfl, s', rf', rd', a, hrep, hext, ha, outcome_noent s' a _ file⟩
  | slashBehind =>
      cases h
      exact .inr ⟨fun _ => id, .enotdir, s', rf', rd', rfl, nofun, hrep, hext⟩
  | nameTooLong =>
      cases h
      exact .inr ⟨fun _ => id, .enametoolong, s', rf', rd', rfl, nofun, hrep, hext⟩

/-- The lookup with a null pointer faults, does not find the last component, or returns an
error. -/
theorem Ends.checks (h : Ends T s rf rd none false q st) :
    (q = .fault ∧ st ≠ .nameTooLong) ∨
      (∃ p, st = .noEntry p ∧ q = .ret (.enoent, none, s)) ∨
        (∀ p, ¬ st.GivesUp p) ∧
          ∃ status, status ≠ .enoent ∧ status ≠ .success ∧ q = .ret (status, none, s) := by
  cases st with
  | file f =>
      obtain ⟨a, -, rfl⟩ := h
      exact .inl ⟨rfl, nofun⟩
  | noEntry p =>
      obtain ⟨a, -, rfl⟩ := h
      cases (T.entries p).isEmpty with
      | true => exact .inl ⟨rfl, nofun⟩
      | false => exact .inr (.inl ⟨p, rfl, rfl⟩)
  | noDirectory p =>
      obtain ⟨a, -, rfl⟩ := h
      exact .inl ⟨rfl, nofun⟩
  | slashBehind =>
      cases h
      exact .inr (.inr ⟨fun _ => id, .enotdir, nofun, nofun, rfl⟩)
  | nameTooLong =>
      cases h
      exact .inr (.inr ⟨fun _ => id, .enametoolong, nofun, nofun, rfl⟩)

/-! ## The calls -/

variable {e : Env} {proc : Option Caller} {path : CString} {mode : Nat} {c : Creation} {y : D}

/-- `ffind` with `FFIND_CREATE` adds an entry where the walk gives up. -/
theorem ffind_create_cases {fetch : Fetch}
    {I : Vfs → (Nat → Option F) → (Nat → Option D) → Prop} (debug : Bool) (past : UInt8)
    (hT : FetchInv T fetch I) (hs : I s rf rd) (h : Rep T s rf rd) (h0 : 0 ∉ path)
    (hx : ∀ x, path ≠ [slash, x]) {wd : Nat} (hy : rd (start s wd path).1 = some y)
    (hrest : path.drop (start s wd path).2 ≠ []) (file : Nat) :
    (∃ p, (stop T y (path.drop (start s wd path).2)).GivesUp p ∧
      Adds T rf rd file p (outcome (ffind debug fetch past s wd path (some file) true))) ∨
    (∀ p, ¬ (stop T y (path.drop (start s wd path).2)).GivesUp p) ∧
      Refused T rf rd (outcome (ffind debug fetch past s wd path (some file) true)) := by
  obtain ⟨s', rf', rd', -, hrep, hext, -, hends⟩ :=
    ffind_rest_ends debug past hT hs h h0 hx hy hrest (some file) true
  exact hends.creates hrep hext

/-- A creation faults, adds an entry where the walk gives up, or is refused. -/
theorem Creation.run_cases (hc : c.Accepted) (hm : Mounted T e s rf rd)
    (hfresh : Fresh e s proc path) (h0 : 0 ∉ path) (hx : ∀ x, path ≠ [slash, x])
    (hy : rd (start s (getWorkingDir s proc) path).1 = some y)
    (hrest : path.drop (start s (getWorkingDir s proc) path).2 ≠ []) (mode : Nat) :
    let st := stop T y (path.drop (start s (getWorkingDir s proc) path).2)
    (c.run e s proc path mode = .fault ∧ st ≠ .nameTooLong) ∨
      (∃ p, st.GivesUp p ∧ Adds T rf rd e.fileAddr p (c.run e s proc path mode)) ∨
        (∀ p, ¬ st.GivesUp p) ∧ Refused T rf rd (c.run e s proc path mode) := by
  intro st
  obtain ⟨I, hT, hA, hI⟩ := hm.fetches
  obtain ⟨s₁, rf₁, rd₁, hI₁, hrep₁, hext₁, hsteps₁, hends₁⟩ :=
    ffind_rest_ends e.debug e.past hT hI hm.rep h0 hx hy hrest none false
  rw [run_eq hc]
  rcases hends₁.checks with ⟨hfault, hst⟩ | ⟨p, hst, hret⟩ | ⟨hup, status, hne, hne', hret⟩
  · left
    rw [hfault]
    exact ⟨rfl, hst⟩
  · refine .inr (.inl ⟨p, ?_, ?_⟩)
    · show (stop T y _).GivesUp p
      rw [hst]
      rfl
    -- the second lookup gives up in the same directory
    obtain ⟨hfile, hdir⟩ := hfresh _ _ _ hret
    have hroot := (hsteps₁.keeps hm.keeps).root
    have hstart : start (c.allocate e proc mode s₁) (getWorkingDir s proc) path =
        start s (getWorkingDir s proc) path := start_of_root (allocate_root.trans hroot) _ _
    have hrep : Rep T (c.allocate e proc mode s₁) rf₁ rd₁ := allocate_rep hrep₁ hfile hdir
    have hsecond := ffind_create_cases e.debug e.past hT
      (c.allocate_inv hA hI₁ hfile hdir proc mode) hrep h0 hx
      (hstart ▸ hext₁.dirs _ _ hy) (hstart ▸ hrest) e.fileAddr
    rw [hstart, hst] at hsecond
    obtain ⟨p', rfl, hadds⟩ := hsecond.resolve_right fun h => h.1 p rfl
    rw [hret, Outcome.ret_bind]
    dsimp only
    rw [if_neg (not_not.mpr rfl), hadds.release (c.release e)]
    obtain ⟨s', rf', rd', a, hrep', hext', ha, hadd⟩ := hadds
    exact ⟨s', rf', rd', a, hrep', hext₁.trans hext', ha, hadd⟩
  · refine .inr (.inr ⟨hup, ?_⟩)
    rw [hret, Outcome.ret_bind]
    exact ⟨status, s₁, rf₁, rd₁, by simp [hne, hne'], hne', hrep₁, hext₁⟩

/-- No entry is added in a wrong place: there is a parent directory, or a component of more than
255 bytes comes before the first one that does not lead on. -/
def Tree.Guards (T : Tree F D) (y : D) (rest : CString) : Prop :=
  (T.parent y rest).isSome ∨ stop T y rest = .nameTooLong

/-- A creation that faults, adds where the walk gives up, or is refused. -/
theorem onlyInParent_iff {rest : CString} (hrest : rest ≠ [])
    (h : (r = .fault ∧ stop T y rest ≠ .nameTooLong) ∨
      (∃ p, (stop T y rest).GivesUp p ∧ Adds T rf rd file p r) ∨
        (∀ p, ¬ (stop T y rest).GivesUp p) ∧ Refused T rf rd r) :
    OnlyInParent T rf rd (T.parent y rest) file r ↔ T.Guards y rest := by
  rw [Tree.Guards, Option.isSome_iff_ne_none]
  rcases h with ⟨rfl, hlong⟩ | ⟨p, hup, hadds⟩ | ⟨hup, hrefused⟩
  · rw [onlyInParent_fault]
    exact ⟨.inl, fun h => h.resolve_right hlong⟩
  · cases hparent : T.parent y rest with
    | none =>
        refine iff_of_false (hadds.not_onlyInParent rfl) fun h => ?_
        rw [h.resolve_left fun hne => hne rfl] at hup
        exact hup
    | some q =>
        obtain ⟨rfl, -⟩ := stopFrom_parent (components_ne_nil hrest) hparent hup
        exact iff_of_true (hadds.onlyInParent_of_some rfl) (.inl nofun)
  · refine iff_of_true hrefused.onlyInParent ?_
    cases hparent : T.parent y rest with
    | none =>
        right
        refine (stopFrom_noParent hparent).resolve_right fun ⟨p, hp⟩ => ?_
        exact hup p hp
    | some q => exact .inl nofun

/-- The parent of one byte is where the lookup starts. -/
theorem parent_oneByte (x : UInt8) : T.parent y [x] = some (T.redirect y) := by
  have hone : (components [x]).dropLast = [] := by
    by_cases hx : x = slash
    · subst hx
      rw [show [slash] = [] ++ [slash] from rfl, components_slash (List.not_mem_nil)]
      rfl
    · rw [components_last (by simpa using Ne.symm hx)]
      rfl
  rw [Tree.parent, hone]
  rfl

/-- **When nothing is created below a missing directory.**  For every tree, path and node, the
lookup with `FFIND_CREATE` adds an entry to the parent directory only, and returns an error
and leaves the tree as it is where there is none, exactly if there is a parent directory or a
component of more than 255 bytes comes first.  The same holds of `vfs_mkdir` and `vfs_mknod`,
where a refused type is an error too. -/
theorem create_below_iff (hm : Mounted T e s rf rd) (hfresh : Fresh e s proc path) (h0 : 0 ∉ path)
    (hy : rd (start s (getWorkingDir s proc) path).1 = some y)
    (hrest : path.drop (start s (getWorkingDir s proc) path).2 ≠ []) (file : Nat) (c : Creation)
    (mode : Nat) :
    let rest := path.drop (start s (getWorkingDir s proc) path).2
    (OnlyInParent T rf rd (T.parent y rest) file (outcome
        (ffind e.debug e.fetch e.past s (getWorkingDir s proc) path (some file) true)) ↔
      T.Guards y rest) ∧
    (OnlyInParent T rf rd (T.parent y rest) e.fileAddr (c.run e s proc path mode) ↔
      T.Guards y rest ∨ ¬ c.Accepted) := by
  intro rest
  have hrefuses : ¬ c.Accepted → Refused T rf rd (c.run e s proc path mode) := fun hc =>
    ⟨.einval, s, rf, rd, c.run_of_not_accepted hc, nofun, hm.rep, Extends.refl rf rd⟩
  by_cases hx : ∃ x, path = [slash, x]
  · obtain ⟨x, rfl⟩ := hx
    have hparent : T.parent y rest = some (T.redirect y) := parent_oneByte x
    have hguards : T.Guards y rest := .inl (by rw [hparent]; rfl)
    refine ⟨iff_of_true (Refused.onlyInParent ?_) hguards, iff_of_true ?_ (.inl hguards)⟩
    · exact ⟨.eexist, s, rf, rd, rfl, nofun, hm.rep, Extends.refl rf rd⟩
    · by_cases hc : c.Accepted
      · have hfault : c.run e s proc [slash, x] mode = .fault := by
          rw [c.run_eq hc]
          rfl
        rw [hfault, onlyInParent_fault, hparent]
        exact nofun
      · exact (hrefuses hc).onlyInParent
  · have hx' := not_exists.mp hx
    refine ⟨onlyInParent_iff hrest (.inr ?_), ?_⟩
    · obtain ⟨I, hT, -, hI⟩ := hm.fetches
      exact ffind_create_cases e.debug e.past hT hI hm.rep h0 hx' hy hrest file
    · by_cases hc : c.Accepted
      · rw [or_iff_left (not_not.mpr hc)]
        exact onlyInParent_iff hrest (c.run_cases hc hm hfresh h0 hx' hy hrest mode)
      · exact iff_of_true (hrefuses hc).onlyInParent (.inr hc)

end

/-- `mkdir /dev` in a root directory that holds only itself. -/
theorem create_below_dev : OnlyInParent dotTree (fun _ => none) dotRoot (some ()) 16
    (Creation.mkdir.run devEnv dotVfs none devPath 0o755) :=
  (create_below_iff devEnv_mounted devPath_fresh (by decide) rfl (by decide) 16 .mkdir
    0o755).2.mpr (.inl (.inl rfl))

/-- `"a/b"`. -/
def belowPath : CString := [97, slash, 98]

theorem belowPath_fresh : Fresh devEnv dotVfs none belowPath :=
  devEnv_fresh (show _ = Outcome.ret (.enoent, none, dotVfs) from rfl)

/-- `mkdir a/b` returns `SUCCESS` where there is no `a`. -/
theorem mkdir_below_missing : ¬ ∀ (T : Tree Unit Unit) (e : Env) (s : Vfs)
    (rf rd : Nat → Option Unit) (proc : Option Caller) (path : CString) (y : Unit),
    Mounted T e s rf rd → Fresh e s proc path → 0 ∉ path →
    rd (start s (getWorkingDir s proc) path).1 = some y →
    path.drop (start s (getWorkingDir s proc) path).2 ≠ [] → ∀ mode,
      OnlyInParent T rf rd (T.parent y (path.drop (start s (getWorkingDir s proc) path).2))
        e.fileAddr (Creation.mkdir.run e s proc path mode) := by
  intro h
  have honly := h dotTree devEnv dotVfs _ _ none belowPath () devEnv_mounted belowPath_fresh
    (by decide) rfl (by decide) 0o755
  obtain ⟨status, s', -, -, hret, hne, -⟩ := honly.refused rfl
  have hrun : ∃ s', Creation.mkdir.run devEnv dotVfs none belowPath 0o755 = .ret (.success, s') :=
    ⟨_, rfl⟩
  obtain ⟨s'', hs''⟩ := hrun
  rw [hs''] at hret
  cases hret
  exact hne rfl

end UlmerOS.Fs
