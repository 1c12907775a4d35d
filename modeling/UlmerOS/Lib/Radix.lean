import Mathlib.Data.List.Infix
import Mathlib.Data.List.Nodup

/-!
# Radix trees in a memory of tables

A memory `mem f i` has a cell at every index of every table `f`.  The contents of
a cell may point to a further table, which is what `child` says, so that a root
and a path of indices lead to a table, or nowhere.

The tables are shared memory, and a write to a cell can be seen along every path
that reaches the table.  A tree is `Separated` down to a depth if no table is
reached by two paths of at most that length.  `Updated` is then the write of one
cell as the paths see it.  Two ways of writing are enough for a tree that grows
and shrinks: `node_install` puts an empty table that was nowhere in the tree
below an empty cell, and `node_last` writes a cell of the deepest tables.
-/

namespace Radix

variable {F I E : Type} {child : E → Option F} {mem mem' : F → I → E}

/-- The table that a path leads to. -/
def node (child : E → Option F) (mem : F → I → E) (root : F) : List I → Option F
  | [] => some root
  | i :: p => (child (mem root i)).bind fun f => node child mem f p

@[simp] theorem node_nil (root : F) : node child mem root [] = some root := rfl

theorem node_append (root : F) (p q : List I) :
    node child mem root (p ++ q) =
      (node child mem root p).bind fun f => node child mem f q := by
  induction p generalizing root with
  | nil => rfl
  | cons i p ih =>
      rw [List.cons_append, node, node]
      cases child (mem root i) with
      | none => rfl
      | some f => exact ih f

theorem node_snoc (root : F) (p : List I) (i : I) :
    node child mem root (p ++ [i]) =
      (node child mem root p).bind fun f => child (mem f i) := by
  rw [node_append]
  congr
  funext f
  rw [node]
  cases child (mem f i) <;> rfl

/-- A table below a path exists only if the path leads somewhere. -/
theorem node_prefix {root f : F} {p q : List I} (hpq : p <+: q)
    (h : node child mem root q = some f) : ∃ g, node child mem root p = some g := by
  obtain ⟨r, rfl⟩ := hpq
  rw [node_append] at h
  cases hp : node child mem root p with
  | none => rw [hp] at h; cases h
  | some g => exact ⟨g, rfl⟩

/-- The contents of a cell of the table that a path leads to. -/
def cell (child : E → Option F) (mem : F → I → E) (root : F) (p : List I) (i : I) : Option E :=
  (node child mem root p).map fun f => mem f i

theorem node_snoc_cell (root : F) (p : List I) (i : I) :
    node child mem root (p ++ [i]) = (cell child mem root p i).bind child := by
  rw [node_snoc, cell]
  cases node child mem root p <;> rfl

/-! ## Separation -/

/-- No table is reached by two paths of length at most `d`. -/
def Separated (child : E → Option F) (mem : F → I → E) (root : F) (d : Nat) : Prop :=
  ∀ p q f, p.length ≤ d → q.length ≤ d →
    node child mem root p = some f → node child mem root q = some f → p = q

/-- A tree is separated if no cell above the deepest tables points to its root, and no two of
them to the same table. -/
theorem separated_of_parent {root : F} {d : Nat} (inner : F → Prop)
    (hinner : ∀ p f, p.length < d → node child mem root p = some f → inner f)
    (hroot : ∀ f i, inner f → child (mem f i) ≠ some root)
    (hparent : ∀ f g i j h, inner f → inner g → child (mem f i) = some h →
      child (mem g j) = some h → f = g ∧ i = j) : Separated child mem root d := by
  intro p
  induction p using List.reverseRecOn with
  | nil =>
      intro q f _ hq hpf hqf
      cases q using List.reverseRecOn with
      | nil => rfl
      | append_singleton q j =>
          rw [node_snoc] at hqf
          obtain ⟨g, hg, hchild⟩ := Option.bind_eq_some_iff.mp hqf
          rw [List.length_append, List.length_singleton] at hq
          obtain rfl := Option.some.inj hpf
          exact absurd hchild (hroot g j (hinner q g (by omega) hg))
  | append_singleton p i ih =>
      intro q f hp hq hpf hqf
      rw [node_snoc] at hpf
      obtain ⟨e, he, hchild⟩ := Option.bind_eq_some_iff.mp hpf
      rw [List.length_append, List.length_singleton] at hp
      cases q using List.reverseRecOn with
      | nil =>
          obtain rfl := Option.some.inj hqf
          exact absurd hchild (hroot e i (hinner p e (by omega) he))
      | append_singleton q j =>
          rw [node_snoc] at hqf
          obtain ⟨g, hg, hchild'⟩ := Option.bind_eq_some_iff.mp hqf
          rw [List.length_append, List.length_singleton] at hq
          obtain ⟨rfl, rfl⟩ := hparent e g i j f (hinner p e (by omega) he)
            (hinner q g (by omega) hg) hchild hchild'
          rw [ih q e (by omega) (by omega) he hg]

/-- Memories that agree on the tables of a tree have the same tree. -/
theorem node_congr {root : F} {d : Nat}
    (h : ∀ p f i, p.length ≤ d → node child mem root p = some f → mem' f i = mem f i)
    {q : List I} (hq : q.length ≤ d + 1) :
    node child mem' root q = node child mem root q := by
  induction q using List.reverseRecOn with
  | nil => rfl
  | append_singleton q i ih =>
      rw [List.length_append, List.length_singleton] at hq
      rw [node_snoc, node_snoc, ih (by omega)]
      cases hf : node child mem root q with
      | none => rfl
      | some f => exact congrArg child (h q f i (by omega) hf)

/-! ## The tables of a tree -/

/-- What `body` lists for the tables below one table, at these indices. -/
def branch (child : E → Option F) (mem : F → I → E) (idx : List I) (body : F → List F) (f : F) :
    List F :=
  idx.flatMap fun i => ((child (mem f i)).map body).getD []

/-- The tables that paths of length at most `d` lead to, the deeper ones first. -/
def tree (child : E → Option F) (mem : F → I → E) (idx : List I) : Nat → F → List F
  | 0, f => [f]
  | d + 1, f => branch child mem idx (tree child mem idx d) f ++ [f]

theorem mem_branch {idx : List I} {body : F → List F} {f g : F} :
    g ∈ branch child mem idx body f ↔ ∃ i ∈ idx, ∃ h, child (mem f i) = some h ∧ g ∈ body h := by
  rw [branch, List.mem_flatMap]
  refine exists_congr fun i => and_congr Iff.rfl ?_
  cases child (mem f i) with
  | none => simp
  | some h => simp

theorem mem_tree {idx : List I} (hidx : ∀ i, i ∈ idx) {d : Nat} {f g : F} :
    g ∈ tree child mem idx d f ↔ ∃ p : List I, p.length ≤ d ∧ node child mem f p = some g := by
  induction d generalizing f with
  | zero =>
      rw [tree, List.mem_singleton]
      constructor
      · rintro rfl
        exact ⟨[], Nat.le_refl 0, rfl⟩
      · rintro ⟨p, hp, hg⟩
        rw [List.length_eq_zero_iff.mp (Nat.le_zero.mp hp)] at hg
        exact (Option.some.inj hg).symm
  | succ d ih =>
      rw [tree, List.mem_append, List.mem_singleton, mem_branch]
      constructor
      · rintro (⟨i, -, h, hh, hg⟩ | rfl)
        · obtain ⟨p, hp, hpg⟩ := ih.mp hg
          refine ⟨i :: p, Nat.succ_le_succ hp, ?_⟩
          rw [node, hh]
          exact hpg
        · exact ⟨[], Nat.zero_le _, rfl⟩
      · rintro ⟨p, hp, hg⟩
        cases p with
        | nil => exact .inr (Option.some.inj hg).symm
        | cons i p =>
            rw [node] at hg
            obtain ⟨h, hh, hpg⟩ := Option.bind_eq_some_iff.mp hg
            exact .inl ⟨i, hidx i, h, hh, ih.mpr ⟨p, Nat.le_of_succ_le_succ hp, hpg⟩⟩

/-- The tables below one table are listed once each if they are for every index, and
no table is listed for two indices. -/
theorem nodup_branch {idx : List I} (hidx : idx.Nodup) {body : F → List F} {f : F}
    (hbody : ∀ i ∈ idx, ∀ h, child (mem f i) = some h → (body h).Nodup)
    (hdisj : ∀ i ∈ idx, ∀ j ∈ idx, ∀ h h' g, child (mem f i) = some h →
      child (mem f j) = some h' → g ∈ body h → g ∈ body h' → i = j) :
    (branch child mem idx body f).Nodup := by
  rw [branch, List.nodup_flatMap]
  constructor
  · intro i hi
    cases hh : child (mem f i) with
    | none => exact List.nodup_nil
    | some h => exact hbody i hi h hh
  · refine (hidx.imp_of_mem fun {i j} hi hj hne => ?_)
    intro g hgi hgj
    simp only at hgi hgj
    cases hh : child (mem f i) with
    | none => rw [hh] at hgi; exact absurd hgi List.not_mem_nil
    | some h =>
        cases hh' : child (mem f j) with
        | none => rw [hh'] at hgj; exact absurd hgj List.not_mem_nil
        | some h' =>
            rw [hh] at hgi
            rw [hh'] at hgj
            exact hne (hdisj i hi j hj h h' g hh hh' hgi hgj)

/-- The tables of a separated tree are listed once each. -/
theorem nodup_tree {idx : List I} (hidx : idx.Nodup) (hall : ∀ i, i ∈ idx) {d : Nat} {f : F}
    (hsep : Separated child mem f d) : (tree child mem idx d f).Nodup := by
  induction d generalizing f with
  | zero => exact List.nodup_singleton f
  | succ d ih =>
      have hcons : ∀ i h p g, child (mem f i) = some h → node child mem h p = some g →
          node child mem f (i :: p) = some g := by
        intro i h p g hh hg
        rw [node, hh]
        exact hg
      have hbelow : ∀ i h, child (mem f i) = some h → Separated child mem h d := by
        intro i h hh p q g hp hq hpg hqg
        exact (List.cons.inj (hsep _ _ g (Nat.succ_le_succ hp) (Nat.succ_le_succ hq)
          (hcons i h p g hh hpg) (hcons i h q g hh hqg))).2
      rw [tree, List.nodup_append]
      refine ⟨nodup_branch hidx (fun i _ h hh => ih (hbelow i h hh)) ?_,
        List.nodup_singleton f, ?_⟩
      · intro i _ j _ h h' g hh hh' hg hg'
        obtain ⟨p, hp, hpg⟩ := (mem_tree hall).mp hg
        obtain ⟨q, hq, hqg⟩ := (mem_tree hall).mp hg'
        exact (List.cons.inj (hsep _ _ g (Nat.succ_le_succ hp) (Nat.succ_le_succ hq)
          (hcons i h p g hh hpg) (hcons j h' q g hh' hqg))).1
      · intro g hg g' hg' he
        rw [List.mem_singleton] at hg'
        obtain ⟨i, -, h, hh, hgh⟩ := mem_branch.mp hg
        obtain ⟨p, hp, hpg⟩ := (mem_tree hall).mp hgh
        have hcycle := hsep (i :: p) [] f (Nat.succ_le_succ hp) (Nat.zero_le _)
          (hcons i h p f hh (by rw [hpg, he, hg'])) rfl
        cases hcycle

/-! ## Writing a cell -/

/-- `mem'` is `mem` with the contents `e` in the cell `i` of the table at `p`, as
far as the paths of length at most `d` can see. -/
structure Updated (child : E → Option F) (mem mem' : F → I → E) (root : F) (d : Nat)
    (p : List I) (i : I) (e : E) : Prop where
  parent : ∃ f, node child mem root p = some f ∧ mem' f i = e
  keep : ∀ q f j, q.length ≤ d → node child mem root q = some f → ¬ (q = p ∧ j = i) →
    mem' f j = mem f j

namespace Updated

variable {root : F} {d : Nat} {p : List I} {i : I} {e : E}

/-- In a separated tree, one path goes through the cell of a table that was written. -/
theorem of_separated (hsep : Separated child mem root d) (hp : p.length ≤ d) {f : F}
    (hf : node child mem root p = some f) (he : mem' f i = e)
    (hkeep : ∀ q g j, q.length ≤ d → node child mem root q = some g → ¬ (g = f ∧ j = i) →
      mem' g j = mem g j) : Updated child mem mem' root d p i e := by
  refine ⟨⟨f, hf, he⟩, fun q g j hq hg hne => hkeep q g j hq hg ?_⟩
  rintro ⟨rfl, rfl⟩
  exact hne ⟨hsep q p g hq hp hg hf, rfl⟩

/-- Paths that do not go through the cell lead where they did. -/
theorem node_of_not_prefix (h : Updated child mem mem' root d p i e) {q : List I}
    (hq : q.length ≤ d + 1) (hpre : ¬ p ++ [i] <+: q) :
    node child mem' root q = node child mem root q := by
  induction q using List.reverseRecOn with
  | nil => rfl
  | append_singleton q j ih =>
      rw [List.length_append, List.length_singleton] at hq
      have hpre' : ¬ p ++ [i] <+: q := fun hp => hpre (hp.trans (List.prefix_append q [j]))
      rw [node_snoc, node_snoc, ih (by omega) hpre']
      cases hf : node child mem root q with
      | none => rfl
      | some f =>
          refine congrArg child (h.keep q f j (by omega) hf ?_)
          rintro ⟨rfl, rfl⟩
          exact hpre (List.prefix_refl _)

/-- The path to the table that was written leads there still. -/
theorem node_parent (h : Updated child mem mem' root d p i e) (hp : p.length ≤ d) :
    node child mem' root p = node child mem root p := by
  refine h.node_of_not_prefix (by omega) fun hpre => ?_
  have := hpre.length_le
  rw [List.length_append, List.length_singleton] at this
  omega

/-- The path through the cell leads where its new contents point. -/
theorem node_self (h : Updated child mem mem' root d p i e) (hp : p.length ≤ d) :
    node child mem' root (p ++ [i]) = child e := by
  obtain ⟨f, hf, he⟩ := h.parent
  rw [node_snoc, h.node_parent hp, hf, Option.bind_some, he]

/-- A cell of the deepest tables was written: one path changed. -/
theorem node_last [DecidableEq I] (h : Updated child mem mem' root d p i e) (hp : p.length = d)
    {q : List I} (hq : q.length ≤ d + 1) :
    node child mem' root q =
      if q = p ++ [i] then child e else node child mem root q := by
  split
  · rename_i he
    rw [he]
    exact h.node_self (by omega)
  · rename_i hne
    refine h.node_of_not_prefix hq fun hpre => hne ?_
    refine (hpre.eq_of_length_le ?_).symm
    rw [List.length_append, List.length_singleton]
    omega

/-- An empty table was put below an empty cell: one path more leads somewhere. -/
theorem node_install [DecidableEq I] (h : Updated child mem mem' root d p i e) (hp : p.length < d)
    {f g : F} (hparent : node child mem root p = some f) (hnone : child (mem f i) = none)
    (hg : child e = some g) (hempty : ∀ j, child (mem' g j) = none)
    {q : List I} (hq : q.length ≤ d + 1) :
    node child mem' root q =
      if q = p ++ [i] then some g else node child mem root q := by
  by_cases hpre : p ++ [i] <+: q
  · obtain ⟨r, rfl⟩ := hpre
    cases r with
    | nil =>
        rw [List.append_nil, if_pos rfl, h.node_self (by omega), hg]
    | cons j r =>
        have hne : p ++ [i] ++ j :: r ≠ p ++ [i] := by simp
        rw [if_neg hne, node_append, h.node_self (by omega), hg, node_append, node_snoc, hparent]
        simp [node, hempty, hnone]
  · rw [h.node_of_not_prefix hq hpre, if_neg]
    rintro rfl
    exact hpre (List.prefix_refl _)

/-- The other cells of a table that is where it was hold what they did. -/
theorem cell_of_node_eq (h : Updated child mem mem' root d p i e) {q : List I} {j : I}
    (hq : q.length ≤ d) (hne : ¬ (q = p ∧ j = i))
    (hnode : node child mem' root q = node child mem root q) :
    cell child mem' root q j = cell child mem root q j := by
  rw [cell, cell, hnode]
  cases hf : node child mem root q with
  | none => rfl
  | some f => exact congrArg some (h.keep q f j hq hf hne)

/-- The cell that was written holds what was written. -/
theorem cell_self (h : Updated child mem mem' root d p i e) (hp : p.length ≤ d) :
    cell child mem' root p i = some e := by
  obtain ⟨f, hf, he⟩ := h.parent
  rw [cell, h.node_parent hp, hf, Option.map_some, he]

end Updated

/-- A tree with one table more, that was nowhere in it, is separated. -/
theorem Separated.of_node_install [DecidableEq I] {root g : F} {d : Nat} {r : List I}
    (hsep : Separated child mem root d)
    (hfresh : ∀ q, q.length ≤ d → node child mem root q ≠ some g)
    (h : ∀ q : List I, q.length ≤ d →
      node child mem' root q = if q = r then some g else node child mem root q) :
    Separated child mem' root d := by
  intro p q f hp hq hpf hqf
  rw [h p hp] at hpf
  rw [h q hq] at hqf
  split at hpf <;> split at hqf
  · rename_i hpr hqr
    rw [hpr, hqr]
  · exact absurd (hqf.trans hpf.symm) (hfresh q hq)
  · exact absurd (hpf.trans hqf.symm) (hfresh p hp)
  · exact hsep p q f hp hq hpf hqf

/-- A tree whose tables are where they were is separated. -/
theorem Separated.of_node_eq {root root' : F} {d : Nat}
    (hsep : Separated child mem root d)
    (h : ∀ q : List I, q.length ≤ d →
      node child mem' root' q = node child mem root q) :
    Separated child mem' root' d := by
  intro p q f hp hq hpf hqf
  rw [h p hp] at hpf
  rw [h q hq] at hqf
  exact hsep p q f hp hq hpf hqf

end Radix
