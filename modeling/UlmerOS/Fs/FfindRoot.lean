import UlmerOS.Fs.FfindWalk

/-!
# Absolute paths

`ffind` moves an absolute path behind its slash, starts at the root and then looks at the
second byte of what is left, where it means the first.  So it takes every path of a slash and
one byte for the root (`absolute_path_iff`), and for the path `/` it reads the byte behind the
terminator.  A longer path is looked up like the one without the slash
(`ffindRecursiveWith_cons`): the lookup never looks at what is in front of the place where it
starts.
-/

namespace UlmerOS.Fs

/-! ## A path behind a slash -/

section

variable {debug : Bool} {fetch : Fetch} {node : Option Nat} {create : Bool} {str : CString}

theorem lookBack_cons (c : UInt8) {rem : Nat} (h : rem ≠ 0) :
    lookBack (c :: str) (rem + 1) = lookBack str rem := by
  obtain ⟨rem, rfl⟩ := Nat.exists_eq_succ_of_ne_zero h
  rfl

theorem ffindLast_cons (c : UInt8) (s : Vfs) {rem : Nat} (h : rem ≠ 0) (file : Nat) :
    ffindLast s (c :: str) (rem + 1) file node create = ffindLast s str rem file node create := by
  rw [ffindLast, lookBack_cons c h]
  rfl

/-- A byte in front of the path makes no difference. -/
theorem ffindRecursiveWith_cons (c : UInt8) (hstr : str ≠ []) (fuel : Nat) :
    ∀ (s : Vfs) (pathname dir : Nat),
      ffindRecursiveWith debug fetch fuel s (c :: str) (pathname + 1) dir node create =
        ffindRecursiveWith debug fetch fuel s str pathname dir node create := by
  induction fuel with
  | zero => exact fun _ _ _ => rfl
  | succ fuel ih =>
      intro s pathname dir
      rw [ffindRecursiveWith, ffindRecursiveWith, List.drop_succ_cons]
      refine if_congr Iff.rfl rfl (bind_congr fun component => ?_)
      obtain ⟨copied, n⟩ := component
      refine bind_congr fun wd => bind_congr fun wd' => if_congr Iff.rfl rfl ?_
      refine bind_congr fun found => ?_
      cases found with
      | none => rfl
      | some i =>
          refine bind_congr fun s₁ => bind_congr fun slot => ?_
          have hshift : pathname + 1 + n = pathname + n + 1 := Nat.add_right_comm _ _ _
          simp only [hshift, List.length_cons, Nat.add_le_add_iff_right]
          split
          next hend =>
            have hpos := List.length_pos_iff.mpr hstr
            exact ffindLast_cons c s₁ (by omega) _
          next hend =>
            refine bind_congr fun f => if_congr Iff.rfl rfl ?_
            exact ih s₁ (pathname + n) f.special

/-- A path that is not absolute is looked up from the working directory. -/
theorem ffind_relative {past : UInt8} {s : Vfs} {wd : Nat} (hstr : str ≠ [])
    (hslash : str.head? ≠ some slash) :
    ffind debug fetch past s wd str node create =
      ffindRecursive debug fetch s str 0 wd node create := by
  obtain ⟨x, rest, rfl⟩ := List.exists_cons_of_ne_nil hstr
  have hx : byteAt (x :: rest) past 0 ≠ slash := by
    simpa [byteAt] using hslash
  exact if_neg hx

/-- An absolute path of two bytes at least is looked up from the root. -/
theorem ffind_absolute {past : UInt8} {s : Vfs} {wd : Nat} (h0 : 0 ∉ str)
    (htwo : 2 ≤ str.length) :
    ffind debug fetch past s wd (slash :: str) node create =
      ffindRecursive debug fetch s str 0 s.root node create := by
  obtain ⟨x, z, rest, rfl⟩ : ∃ x z rest, str = x :: z :: rest := by
    match str, htwo with
    | x :: z :: rest, _ => exact ⟨x, z, rest, rfl⟩
  have hz : byteAt (slash :: x :: z :: rest) past 2 ≠ 0 := by
    rintro rfl
    simp at h0
  have hslash : byteAt (slash :: x :: z :: rest) past 0 = slash := rfl
  rw [ffind, if_pos hslash, if_neg hz]
  exact ffindRecursiveWith_cons slash (List.cons_ne_nil _ _) _ s 0 s.root

/-- An absolute path of one byte is taken for the root. -/
theorem ffind_oneByte (debug : Bool) (fetch : Fetch) (past : UInt8) {s : Vfs} {d : DirT}
    (hroot : s.dirs s.root = some d) (wd : Nat) (x : UInt8) (node : Option Nat) (create : Bool) :
    ffind debug fetch past s wd [slash, x] node create =
      if create then .ret (.eexist, node, s) else storeNode s d.file node false := by
  have hdir : s.dir s.root = .ret d := by rw [Vfs.dir, hroot]
  cases node with
  | none => rfl
  | some target =>
      simp only [ffind, hdir]
      rfl

/-- A path of one byte is looked up in one directory. -/
theorem ffindRecursive_oneByte (debug : Bool) (fetch : Fetch) (s : Vfs) {x : UInt8}
    (hx : x ≠ slash) (dir : Nat) (node : Option Nat) (create : Bool) :
    ffindRecursive debug fetch s [x] 0 dir node create = (do
      let wd ← s.dir dir
      let wd' ← s.dir (mountPoint wd dir)
      if wd'.files.length = 0 then do
        let file ← derefNode node
        noent s (mountPoint wd dir) node create file
      else do
        let found ← findEntry s [x] wd'.files 0
        match found with
        | none => noent s (mountPoint wd dir) node create (node.getD 0)
        | some i => do
            let s ← fsFetch debug fetch s (mountPoint wd dir) i
            let slot ← s.slot (mountPoint wd dir) i
            storeNode s (slotFile s slot) node create) := by
  have hcopy : copyName ([x].drop 0) = .ret ([x], 1) := by
    simp [copyName, strccpy, hx]
  have hlast : ∀ (s : Vfs) (file : Nat), ffindLast s [x] 1 file node create =
      storeNode s file node create := fun _ _ => if_neg hx
  rw [ffindRecursive, ffindRecursiveWith, if_neg (by simp [strclen, hx]), hcopy]
  simp only [Outcome.ret_bind, List.length_singleton, Nat.zero_add, Nat.le_refl, if_true, hlast]
  rfl

end

/-! ## One byte -/

/-- The first entry with this name in the root directory is the file of the root directory. -/
def RootItself (s : Vfs) (name : CString) : Prop :=
  ∃ d wd i slot, s.dirs s.root = some d ∧ s.dirs (mountPoint d s.root) = some wd ∧
    findEntry s name wd.files 0 = .ret (some i) ∧ s.slot (mountPoint d s.root) i = .ret slot ∧
    slotFile s slot = d.file

/-- A creation that returns has created. -/
theorem ffindNoent_status {s s' : Vfs} {parent file : Nat} {status : Status}
    (h : ffindNoent s parent true file = .ret (status, s')) : status = .success := by
  rw [ffindNoent, if_neg (by decide)] at h
  obtain ⟨d, -, h⟩ := Outcome.bind_eq_ret.mp h
  obtain ⟨f, -, h⟩ := Outcome.bind_eq_ret.mp h
  obtain ⟨pf, -, h⟩ := Outcome.bind_eq_ret.mp h
  dsimp only at h
  split at h
  · obtain ⟨nd, -, h⟩ := Outcome.bind_eq_ret.mp h
    cases h
    rfl
  · cases h
    rfl

section

variable {debug : Bool} {fetch : Fetch} {s : Vfs} {d : DirT} {x : UInt8}

/-- The file of the root directory is there, so that it is not fetched. -/
theorem RootItself.lookup (h : RootItself s [x]) (hroot : s.dirs s.root = some d)
    (hfile : d.file ≠ 0) (hx : x ≠ slash) (node : Option Nat) :
    ffindRecursive debug fetch s [x] 0 s.root node false = storeNode s d.file node false := by
  obtain ⟨d', wd, i, slot, hd', hwd, hfind, hslot, hsame⟩ := h
  obtain rfl : d = d' := Option.some.inj (hroot.symm.trans hd')
  have hfetch : fsFetch debug fetch s (mountPoint d s.root) i = .ret s := by
    rw [fsFetch, Vfs.dir, hwd, Outcome.ret_bind, hslot, Outcome.ret_bind,
      if_pos (hsame ▸ hfile)]
  have hne : wd.files.length ≠ 0 := by
    intro hempty
    rw [List.length_eq_zero_iff.mp hempty] at hfind
    cases hfind
  rw [ffindRecursive_oneByte debug fetch s hx]
  simp only [Vfs.dir, hroot, hwd, Outcome.ret_bind, if_neg hne, hfind, hfetch, hslot, hsame]

/-- A lookup of one byte that finds the file of the root directory, and leaves the memory. -/
theorem rootItself_of_lookup (hroot : s.dirs s.root = some d) (hx : x ≠ slash)
    (h : ffindRecursive debug fetch s [x] 0 s.root (some 1) false =
      .ret (.success, some d.file, s)) : RootItself s [x] := by
  rw [ffindRecursive_oneByte debug fetch s hx] at h
  obtain ⟨d', hd', h⟩ := Outcome.bind_eq_ret.mp h
  obtain rfl : d' = d := Option.some.inj ((Vfs.dir_eq_ret hd').symm.trans hroot)
  obtain ⟨wd, hwd, h⟩ := Outcome.bind_eq_ret.mp h
  split at h
  · cases h
  obtain ⟨found, hfound, h⟩ := Outcome.bind_eq_ret.mp h
  cases found with
  | none => cases h
  | some i =>
      obtain ⟨s₁, -, h⟩ := Outcome.bind_eq_ret.mp h
      obtain ⟨slot, hslot, h⟩ := Outcome.bind_eq_ret.mp h
      have hret : Outcome.ret (Status.success, some (slotFile s₁ slot), s₁) =
        .ret (.success, some d'.file, s) := h
      simp only [Outcome.ret.injEq, Prod.mk.injEq, Option.some.injEq, true_and] at hret
      obtain ⟨hsame, rfl⟩ := hret
      exact ⟨d', wd, i, slot, hroot, Vfs.dir_eq_ret hwd, hfound, hslot, hsame⟩

/-- Where there is no node, a creation never returns that the file exists. -/
theorem oneByte_ne_eexist (hx : x ≠ slash) (dir : Nat) (s' : Vfs) :
    ffindRecursive debug fetch s [x] 0 dir none true ≠ .ret (.eexist, none, s') := by
  intro h
  rw [ffindRecursive_oneByte debug fetch s hx] at h
  obtain ⟨d, -, h⟩ := Outcome.bind_eq_ret.mp h
  obtain ⟨wd, -, h⟩ := Outcome.bind_eq_ret.mp h
  split at h
  · cases h
  obtain ⟨found, -, h⟩ := Outcome.bind_eq_ret.mp h
  cases found with
  | none =>
      obtain ⟨⟨status, s₁⟩, hcreate, h⟩ := Outcome.bind_eq_ret.mp h
      cases h
      cases ffindNoent_status hcreate
  | some i =>
      obtain ⟨s₁, -, h⟩ := Outcome.bind_eq_ret.mp h
      obtain ⟨slot, -, h⟩ := Outcome.bind_eq_ret.mp h
      cases h

end

/-! ## Absolute paths -/

/-- The places of the path that `ffind` reads itself. -/
def ffindReads (str : CString) (past : UInt8) : List Nat :=
  if byteAt str past 0 = slash then [0, 2] else [0]

/-- If it reads none behind the terminator, what is there makes no difference. -/
theorem ffind_past (debug : Bool) (fetch : Fetch) {past : UInt8} (past' : UInt8) (s : Vfs)
    (wd : Nat) {str : CString} (node : Option Nat) (create : Bool)
    (h : ∀ i ∈ ffindReads str past, i ≤ str.length) :
    ffind debug fetch past s wd str node create = ffind debug fetch past' s wd str node create := by
  have hsame : ∀ i ∈ ffindReads str past, byteAt str past i = byteAt str past' i := by
    intro i hi
    have hle := h i hi
    rw [byteAt, byteAt]
    split
    · rfl
    · rw [if_pos (by omega), if_pos (by omega)]
  rw [ffindReads] at hsame
  split at hsame
  next hslash =>
    have hfirst := hsame 0 (by simp)
    rw [ffind, ffind, ← hfirst, ← hsame 2 (by simp)]
  next hslash =>
    rw [ffind, ffind, ← hsame 0 (by simp), if_neg hslash, if_neg hslash]

/-- The path `/` leads to a file, and nothing behind its terminator is read. -/
structure RootFound (debug : Bool) (fetch : Fetch) (past : UInt8) (s : Vfs) (file : Nat) :
    Prop where
  found : ∀ wd node, node ≠ 0 → ∃ s',
    ffind debug fetch past s wd [slash] (some node) false = .ret (.success, some file, s')
  inside : ∀ i ∈ ffindReads [slash] past, i ≤ [slash].length

/-- **When an absolute path is one from the root.**  For every memory with a root directory,
working directory and node, and for both flags, the lookup of a path behind a slash is that
of the path from the root exactly if the path has two bytes at least, or nothing is to be
created and the root directory has an entry of this name that is the root directory itself.
The path `/` is never looked up without reading behind its terminator. -/
theorem absolute_path_iff (debug : Bool) (fetch : Fetch) (past past' : UInt8) {s : Vfs} {d : DirT}
    (hroot : s.dirs s.root = some d) (hfile : d.file ≠ 0) {path : CString} (hpath : path ≠ [])
    (hslash : path.head? ≠ some slash) (h0 : 0 ∉ path) (create : Bool) :
    ((∀ wd node, ffind debug fetch past s wd (slash :: path) node create =
        ffind debug fetch past' s s.root path node create) ↔
      2 ≤ path.length ∨ create = false ∧ RootItself s path) ∧
    ¬ RootFound debug fetch past s d.file := by
  refine ⟨?_, fun h => absurd (h.inside 2 (by simp [ffindReads, byteAt])) (by decide)⟩
  simp only [ffind_relative hpath hslash]
  by_cases htwo : 2 ≤ path.length
  · exact iff_of_true (fun wd node => ffind_absolute h0 htwo) (.inl htwo)
  obtain ⟨x, rfl⟩ : ∃ x, path = [x] := by
    refine List.length_eq_one_iff.mp ?_
    have := List.length_pos_iff.mpr hpath
    omega
  have hx : x ≠ slash := fun h => hslash (congrArg some h)
  simp only [ffind_oneByte debug fetch past hroot]
  cases create with
  | true =>
      refine iff_of_false (fun h => ?_) fun h => ?_
      · exact oneByte_ne_eexist hx s.root s (h 0 none).symm
      · exact h.elim htwo fun h => absurd h.1 nofun
  | false =>
      constructor
      · intro h
        exact .inr ⟨rfl, rootItself_of_lookup hroot hx (h 0 (some 1)).symm⟩
      · intro h wd node
        exact ((h.resolve_left htwo).2.lookup hroot hfile hx node).symm

/-- `/dev`, in a root directory that has only `.`. -/
theorem absolute_path_dev :
    (∀ wd node, ffind true dotFetch 0 dotVfs wd [slash, 100, 101, 118] node true =
      ffind true dotFetch 0 dotVfs dotVfs.root [100, 101, 118] node true) ∧
    ¬ RootFound true dotFetch 0 dotVfs 9 := by
  have hroot : dotVfs.dirs dotVfs.root =
    some { file := 9, files := [.dentry { name := dot, inode := 2, file := 0 }], parent := 8,
           mounted := 0, fstype := 1, driver := 0 } := rfl
  have hpath : ([100, 101, 118] : CString) ≠ [] := List.cons_ne_nil _ _
  obtain ⟨hsame, hnot⟩ := absolute_path_iff true dotFetch 0 0 hroot (by decide) hpath
    (by decide) (by decide) true
  exact ⟨hsame.mpr (.inl (by decide)), hnot⟩

/-- `/a` is the root directory, where the root directory has no entry `a`. -/
theorem one_byte_is_root : ¬ ∀ (debug : Bool) (fetch : Fetch) (past past' : UInt8) (s : Vfs)
    (d : DirT), s.dirs s.root = some d → d.file ≠ 0 →
    (∀ path : CString, path ≠ [] → path.head? ≠ some slash → 0 ∉ path → ∀ create wd node,
      ffind debug fetch past s wd (slash :: path) node create =
        ffind debug fetch past' s s.root path node create) ∧
    RootFound debug fetch past s d.file := by
  intro h
  have hsame := (h true dotFetch 0 0 dotVfs _ rfl (by decide)).1 [97] (by decide) (by decide)
    (by decide) false 8 (some 1)
  have hroot : ffind true dotFetch 0 dotVfs 8 [slash, 97] (some 1) false =
    .ret (.success, some 9, dotVfs) := rfl
  have hnone : ffind true dotFetch 0 dotVfs dotVfs.root [97] (some 1) false =
    .ret (.enoent, some 1, dotVfs) := rfl
  rw [hroot, hnone] at hsame
  cases hsame

end UlmerOS.Fs
