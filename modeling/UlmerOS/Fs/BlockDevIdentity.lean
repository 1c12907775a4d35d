import UlmerOS.Fs.BlockDev
import Mathlib.Data.List.Pairwise

/-!
# Which machines have devices with numbers and names of their own

The list after the start is that of the disks, each followed by its partitions
(`initDrivers_ret`).  So the numbers and the names are unique if any two disks are
`Apart`: they differ in both, they have no partition index in common, and neither has
the name of a partition of the other.  The numbers of a partition are the major number of
`partscan` and its index, whatever the disk it lies on, and the name of a drive is its
place on its controller, whatever the controller.

`Distinct` says the same of the machine.
-/

namespace UlmerOS.BlockDev

open ByteMem

/-! ## Names -/

theorem utoa_of_lt {i : Nat} (h : i < 4) : utoa i = [Nat.digitChar i] :=
  Nat.toDigits_of_lt_base (by omega)

theorem utoa_inj {i j : Nat} (hi : i < 4) (hj : j < 4) (h : utoa i = utoa j) : i = j := by
  have hall : ∀ i < 4, ∀ j < 4, Nat.digitChar i = Nat.digitChar j → i = j := by decide
  rw [utoa_of_lt hi, utoa_of_lt hj] at h
  exact hall i hi j hj (by simpa using h)

theorem partName_inj {n n' : List Char} {i j : Nat} (hi : i < 4) (hj : j < 4)
    (h : partName n i = partName n' j) : n = n' ∧ i = j := by
  unfold partName at h
  rw [utoa_of_lt hi, utoa_of_lt hj] at h
  obtain ⟨hn, ht⟩ := List.append_inj' h rfl
  refine ⟨hn, utoa_inj hi hj ?_⟩
  rw [utoa_of_lt hi, utoa_of_lt hj]
  simpa using ht

theorem ne_partName_self (n : List Char) (i : Nat) : n ≠ partName n i := by
  intro h
  simpa [partName] using congrArg List.length h

theorem driveName_inj {i j : Fin 4} (h : driveName i = driveName j) : i = j := by
  have hu : utoa i = utoa j := by simpa [driveName] using h
  exact Fin.ext (utoa_inj i.isLt j.isLt hu)

/-- A drive is not called like a partition, whose last character but one is a `p`. -/
theorem driveName_ne_partName {n : List Char} {k : Fin 4} {i : Nat} (hi : i < 4) :
    driveName k ≠ partName n i := by
  intro h
  unfold driveName partName at h
  rw [utoa_of_lt hi, utoa_of_lt k.isLt] at h
  have hs : ['h', 'd'] ++ ['d', Nat.digitChar k] = n ++ ['p', Nat.digitChar i] := h
  have ht := (List.append_inj' hs rfl).2
  simp at ht

/-! ## Disks apart -/

/-- The first block of a disk, which its partition table is read from. -/
def Bd.table (d : Bd) : Option Mem := readblk d.data 0

/-- Two devices with different numbers and different names. -/
def Differ (s : BdState) (x y : Bd) : Prop := s.numbers x ≠ s.numbers y ∧ x.name ≠ y.name

/-- The devices of two disks differ. -/
structure Apart (d d' : Bd) : Prop where
  numbers : ¬ (d.driver = d'.driver ∧ d.minor = d'.minor)
  names : d.name ≠ d'.name
  parts : ∀ i < 4, ¬ (HasPart d.table i ∧ HasPart d'.table i)
  nameParts : ∀ i < 4, (HasPart d'.table i → d.name ≠ partName d'.name i) ∧
    (HasPart d.table i → d'.name ≠ partName d.name i)

section

variable {s : BdState}

theorem differ_parts (d : Bd) : (partsOf d).Pairwise (Differ s) := by
  unfold partsOf
  cases readblk d.data 0 with
  | none => exact .nil
  | some mbr =>
      dsimp only
      split
      · rw [List.pairwise_map]
        have h4 : ([0, 1, 2, 3] : List Nat).Pairwise fun i j => i < 4 ∧ j < 4 ∧ i ≠ j := by decide
        refine (h4.filter _).imp ?_
        rintro i j ⟨hi, hj, hij⟩
        refine ⟨?_, ?_⟩
        · intro h
          exact hij (congrArg Prod.snd h)
        · intro h
          exact hij (partName_inj hi hj h).2
      · exact .nil

variable (hmaj : Function.Injective s.major)
include hmaj

/-- A disk differs from a partition if it has another name. -/
theorem differ_part_iff {d p : Bd} {i : Nat} (hd : d.driver ≠ .partscan)
    (hp : s.numbers p = (s.major .partscan, i)) : Differ s d p ↔ d.name ≠ p.name := by
  constructor
  · intro h
    exact h.2
  · intro h
    refine ⟨?_, h⟩
    rw [hp]
    intro he
    exact hd (hmaj (congrArg Prod.fst he))

theorem differ_withParts {d : Bd} (hd : d.driver ≠ .partscan) :
    (withParts d).Pairwise (Differ s) := by
  refine List.pairwise_cons.2 ⟨?_, differ_parts d⟩
  intro p hp
  obtain ⟨i, h4, -, hn, hname⟩ := partsOf_numbers s hp
  rw [differ_part_iff hmaj hd hn, hname]
  exact ne_partName_self _ _

theorem apart_iff {d d' : Bd} (hd : d.driver ≠ .partscan) (hd' : d'.driver ≠ .partscan) :
    (∀ x ∈ withParts d, ∀ y ∈ withParts d', Differ s x y) ↔ Apart d d' := by
  have hsymm : ∀ {x y}, Differ s x y → Differ s y x := fun h => ⟨h.1.symm, h.2.symm⟩
  constructor
  · intro h
    have hself : ∀ {e : Bd}, e ∈ withParts e := List.mem_cons_self
    have hpart : ∀ {e p : Bd}, p ∈ partsOf e → p ∈ withParts e := List.mem_cons_of_mem _
    refine ⟨?_, (h _ hself _ hself).2, ?_, ?_⟩
    · rintro ⟨hdr, hmi⟩
      exact (h _ hself _ hself).1 (by simp [BdState.numbers, hdr, hmi])
    · rintro i h4 ⟨hi, hi'⟩
      obtain ⟨x, hx, hxn, -⟩ := exists_mem_partsOf s h4 hi
      obtain ⟨y, hy, hyn, -⟩ := exists_mem_partsOf s h4 hi'
      exact (h _ (hpart hx) _ (hpart hy)).1 (hxn.trans hyn.symm)
    · intro i h4
      refine ⟨?_, ?_⟩
      · intro hi
        obtain ⟨y, hy, -, hyn⟩ := exists_mem_partsOf s h4 hi
        rw [← hyn]
        exact (h _ hself _ (hpart hy)).2
      · intro hi
        obtain ⟨x, hx, -, hxn⟩ := exists_mem_partsOf s h4 hi
        rw [← hxn]
        exact (h _ (hpart hx) _ hself).2.symm
  · intro h x hx y hy
    rcases List.mem_cons.1 hx with rfl | hx
    · rcases List.mem_cons.1 hy with rfl | hy
      · refine ⟨?_, h.names⟩
        intro he
        exact h.numbers ⟨hmaj (congrArg Prod.fst he), congrArg Prod.snd he⟩
      · obtain ⟨i, h4, hi, hn, hname⟩ := partsOf_numbers s hy
        rw [differ_part_iff hmaj hd hn, hname]
        exact (h.nameParts i h4).1 hi
    · obtain ⟨i, h4, hi, hn, hname⟩ := partsOf_numbers s hx
      rcases List.mem_cons.1 hy with rfl | hy
      · refine hsymm ?_
        rw [differ_part_iff hmaj hd' hn, hname]
        exact (h.nameParts i h4).2 hi
      · obtain ⟨j, hj4, hj, hnj, hnamej⟩ := partsOf_numbers s hy
        have hij : i ≠ j := by
          rintro rfl
          exact h.parts i h4 ⟨hi, hj⟩
        refine ⟨?_, ?_⟩
        · rw [hn, hnj]
          simpa using hij
        · rw [hname, hnamej]
          intro he
          exact hij (partName_inj h4 hj4 he).2

/-- The devices of a list of disks differ if the disks are apart. -/
theorem nodup_iff_apart {D : List Bd} (hD : ∀ d ∈ D, d.driver ≠ .partscan)
    (hl : s.bdList = D.flatMap withParts) :
    ((s.bdList.map s.numbers).Nodup ∧ (s.bdList.map Bd.name).Nodup) ↔ D.Pairwise Apart := by
  have hdiffer : ((s.bdList.map s.numbers).Nodup ∧ (s.bdList.map Bd.name).Nodup) ↔
      s.bdList.Pairwise (Differ s) := by
    unfold List.Nodup
    rw [List.pairwise_map, List.pairwise_map, ← List.pairwise_and_iff]
    rfl
  rw [hdiffer, hl, List.pairwise_flatMap]
  constructor
  · rintro ⟨-, h⟩
    exact h.imp_of_mem fun hd hd' h => (apart_iff hmaj (hD _ hd) (hD _ hd')).1 h
  · intro h
    exact ⟨fun d hd => differ_withParts hmaj (hD d hd),
      h.imp_of_mem fun hd hd' h => (apart_iff hmaj (hD _ hd) (hD _ hd')).2 h⟩

end

/-! ## The disks of a machine -/

theorem mem_ramdiskBds {k : Nat} {rds : List Ramdisk} {d : Bd} (h : d ∈ ramdiskBds k rds) :
    ∃ m, ∃ rd ∈ rds, d = ramdiskBd m rd := by
  induction rds generalizing k with
  | nil => cases h
  | cons rd rds ih =>
      rcases List.mem_cons.1 h with rfl | h
      · exact ⟨k, rd, List.mem_cons_self, rfl⟩
      · obtain ⟨m, rd', hrd, rfl⟩ := ih h
        exact ⟨m, rd', List.mem_cons_of_mem _ hrd, rfl⟩

theorem exists_mem_ramdiskBds {rds : List Ramdisk} {rd : Ramdisk} (h : rd ∈ rds) (k : Nat) :
    ∃ m, ramdiskBd m rd ∈ ramdiskBds k rds := by
  induction rds generalizing k with
  | nil => cases h
  | cons rd' rds ih =>
      rcases List.mem_cons.1 h with rfl | h
      · exact ⟨k, List.mem_cons_self⟩
      · obtain ⟨m, hm⟩ := ih h (wrap64 (k + 1))
        exact ⟨m, List.mem_cons_of_mem _ hm⟩

theorem mem_controllerBds {b : Nat} {c : Controller} {d : Bd} :
    d ∈ controllerBds b c ↔ ∃ i ∈ probed, ∃ drive, c i = some drive ∧ d = driveBd b i drive := by
  simp [controllerBds, eq_comm]

theorem dvd_nextBase {b : Nat} (h : 4 ∣ b) : 4 ∣ wrap64 (b + 4) := by
  unfold wrap64 word
  omega

theorem mem_ataBds {b : Nat} (hb : 4 ∣ b) {cs : List Controller} {d : Bd} (h : d ∈ ataBds b cs) :
    ∃ m, 4 ∣ m ∧ ∃ c ∈ cs, ∃ i ∈ probed, ∃ drive, c i = some drive ∧ d = driveBd m i drive := by
  induction cs generalizing b with
  | nil => cases h
  | cons c cs ih =>
      rcases List.mem_append.1 h with h | h
      · obtain ⟨i, hi, drive, hc, rfl⟩ := mem_controllerBds.1 h
        exact ⟨b, hb, c, List.mem_cons_self, i, hi, drive, hc, rfl⟩
      · obtain ⟨m, hm, c', hc', rest⟩ := ih (dvd_nextBase hb) h
        exact ⟨m, hm, c', List.mem_cons_of_mem _ hc', rest⟩

theorem exists_mem_ataBds {cs : List Controller} {c : Controller} {i : Fin 4} {drive : Drive}
    (hc : c ∈ cs) (hi : i ∈ probed) (hd : c i = some drive) (b : Nat) :
    ∃ m, driveBd m i drive ∈ ataBds b cs := by
  induction cs generalizing b with
  | nil => cases hc
  | cons c' cs ih =>
      rcases List.mem_cons.1 hc with rfl | hc
      · exact ⟨b, List.mem_append_left _ (mem_controllerBds.2 ⟨i, hi, drive, hd, rfl⟩)⟩
      · obtain ⟨m, hm⟩ := ih hc (wrap64 (b + 4))
        exact ⟨m, List.mem_append_right _ hm⟩

theorem disks_driver {rds : List Ramdisk} {cs : List Controller} {d : Bd} (h : d ∈ disks rds cs) :
    d.driver ≠ .partscan := by
  rcases List.mem_append.1 h with h | h
  · obtain ⟨m, rd, -, rfl⟩ := mem_ramdiskBds h
    simp [ramdiskBd]
  · obtain ⟨m, -, c, -, i, -, drive, -, rfl⟩ := mem_ataBds (Nat.dvd_zero 4) h
    simp [driveBd]

/-- The first blocks of the disks of a machine. -/
def tables (rds : List Ramdisk) (cs : List Controller) : List (Option Mem) :=
  rds.map (fun rd => initrdRead rd 0) ++
    cs.flatMap fun c => probed.filterMap fun i => (c i).map fun drive => drive.read 0

theorem ramdiskBds_table (k : Nat) (rds : List Ramdisk) :
    (ramdiskBds k rds).map Bd.table = rds.map fun rd => initrdRead rd 0 := by
  induction rds generalizing k with
  | nil => rfl
  | cons rd rds ih =>
      rw [ramdiskBds, List.map_cons, ih, List.map_cons]
      rfl

theorem ataBds_table (b : Nat) (cs : List Controller) :
    (ataBds b cs).map Bd.table =
      cs.flatMap fun c => probed.filterMap fun i => (c i).map fun drive => drive.read 0 := by
  induction cs generalizing b with
  | nil => rfl
  | cons c cs ih =>
      rw [ataBds, List.map_append, ih, List.flatMap_cons, controllerBds, List.map_filterMap]
      simp only [Option.map_map]
      rfl

theorem disks_table (rds : List Ramdisk) (cs : List Controller) :
    (disks rds cs).map Bd.table = tables rds cs := by
  rw [disks, List.map_append, ramdiskBds_table, ataBds_table, tables]

/-! ## Names of disks -/

theorem ramdiskBds_name (k : Nat) (rds : List Ramdisk) :
    (ramdiskBds k rds).map Bd.name = rds.map Ramdisk.name := by
  induction rds generalizing k with
  | nil => rfl
  | cons rd rds ih =>
      rw [ramdiskBds, List.map_cons, ih, List.map_cons]
      rfl

/-- No two controllers have a drive in the same place. -/
def DrivesApart (cs : List Controller) : Prop :=
  cs.Pairwise fun c c' => ∀ i ∈ probed, c i = none ∨ c' i = none

/-- The drives of one controller have different places. -/
theorem controllerBds_pairwise {R : Bd → Bd → Prop} {b : Nat} (c : Controller)
    (h : ∀ (i j : Fin 4) (x y : Drive), i ≠ j → R (driveBd b i x) (driveBd b j y)) :
    (controllerBds b c).Pairwise R := by
  unfold controllerBds
  rw [List.pairwise_filterMap]
  have hp : probed.Pairwise (· ≠ ·) := by decide
  refine hp.imp ?_
  intro i j hij x hx y hy
  obtain ⟨_, -, rfl⟩ := Option.map_eq_some_iff.1 hx
  obtain ⟨_, -, rfl⟩ := Option.map_eq_some_iff.1 hy
  exact h i j _ _ hij

theorem ataBds_names_iff {b : Nat} (hb : 4 ∣ b) (cs : List Controller) :
    (ataBds b cs).Pairwise (fun d d' => d.name ≠ d'.name) ↔ DrivesApart cs := by
  induction cs generalizing b with
  | nil => exact ⟨fun _ => .nil, fun _ => .nil⟩
  | cons c cs ih =>
      unfold ataBds DrivesApart
      rw [List.pairwise_append, List.pairwise_cons, ih (dvd_nextBase hb)]
      constructor
      · rintro ⟨-, hr, hcross⟩
        refine ⟨?_, hr⟩
        intro c' hc' i hi
        by_contra hno
        obtain ⟨h1, h2⟩ := not_or.1 hno
        obtain ⟨x, hx⟩ := Option.ne_none_iff_exists'.1 h1
        obtain ⟨y, hy⟩ := Option.ne_none_iff_exists'.1 h2
        obtain ⟨m, hm⟩ := exists_mem_ataBds hc' hi hy (wrap64 (b + 4))
        exact hcross _ (mem_controllerBds.2 ⟨i, hi, x, hx, rfl⟩) _ hm rfl
      · rintro ⟨hc, hr⟩
        refine ⟨controllerBds_pairwise c ?_, hr, ?_⟩
        · intro i j x y hij h
          exact hij (driveName_inj h)
        · intro d hd d' hd' h
          obtain ⟨i, hi, x, hx, rfl⟩ := mem_controllerBds.1 hd
          obtain ⟨m, -, c', hc', j, -, y, hy, rfl⟩ := mem_ataBds (dvd_nextBase hb) hd'
          obtain rfl := driveName_inj h
          rcases hc c' hc' i hi with h0 | h0
          · rw [h0] at hx
            cases hx
          · rw [h0] at hy
            cases hy

/-- No ramdisk has the name of a drive. -/
def NotDrives (rds : List Ramdisk) (cs : List Controller) : Prop :=
  ∀ rd ∈ rds, ∀ c ∈ cs, ∀ i ∈ probed, c i ≠ none → rd.name ≠ driveName i

theorem disks_names_iff (rds : List Ramdisk) (cs : List Controller) :
    (disks rds cs).Pairwise (fun d d' => d.name ≠ d'.name) ↔
      (rds.map Ramdisk.name).Nodup ∧ DrivesApart cs ∧ NotDrives rds cs := by
  have hrd : (ramdiskBds 0 rds).Pairwise (fun d d' => d.name ≠ d'.name) ↔
      (rds.map Ramdisk.name).Nodup := by
    rw [← ramdiskBds_name 0, List.Nodup, List.pairwise_map]
  unfold disks
  rw [List.pairwise_append, hrd, ataBds_names_iff (Nat.dvd_zero 4)]
  refine and_congr_right fun _ => and_congr_right fun _ => ?_
  constructor
  · intro h rd hr c hc i hi hn
    obtain ⟨drive, hd⟩ := Option.ne_none_iff_exists'.1 hn
    obtain ⟨m, hm⟩ := exists_mem_ramdiskBds hr 0
    obtain ⟨m', hm'⟩ := exists_mem_ataBds hc hi hd 0
    exact h _ hm _ hm'
  · intro h d hd d' hd'
    obtain ⟨m, rd, hr, rfl⟩ := mem_ramdiskBds hd
    obtain ⟨m', -, c, hc, i, hi, drive, hdr, rfl⟩ := mem_ataBds (Nat.dvd_zero 4) hd'
    exact h rd hr c hc i hi (by simp [hdr])

/-- No ramdisk has the name of a partition. -/
def NotParts (rds : List Ramdisk) (cs : List Controller) : Prop :=
  ∀ rd ∈ rds,
    (∀ rd' ∈ rds, ∀ i < 4, HasPart (initrdRead rd' 0) i → rd.name ≠ partName rd'.name i) ∧
    (∀ c ∈ cs, ∀ k ∈ probed, ∀ drive, c k = some drive →
      ∀ i < 4, HasPart (drive.read 0) i → rd.name ≠ partName (driveName k) i)

theorem disks_nameParts_iff (rds : List Ramdisk) (cs : List Controller) :
    (disks rds cs).Pairwise (fun d d' => ∀ i < 4,
      (HasPart d'.table i → d.name ≠ partName d'.name i) ∧
        (HasPart d.table i → d'.name ≠ partName d.name i)) ↔ NotParts rds cs := by
  constructor
  · intro h rd hrd
    obtain ⟨m, hm⟩ := exists_mem_ramdiskBds hrd 0
    have : Std.Symm fun d d' : Bd => ∀ i < 4,
        (HasPart d'.table i → d.name ≠ partName d'.name i) ∧
          (HasPart d.table i → d'.name ≠ partName d.name i) :=
      ⟨fun _ _ h i h4 => (h i h4).symm⟩
    have hall : ∀ d' ∈ disks rds cs, ∀ i < 4,
        HasPart d'.table i → rd.name ≠ partName d'.name i := by
      intro d' hd' i h4
      have hself : ∀ d ∈ disks rds cs, ∀ i < 4,
          (HasPart d.table i → d.name ≠ partName d.name i) ∧
            (HasPart d.table i → d.name ≠ partName d.name i) :=
        fun _ _ _ _ => ⟨fun _ => ne_partName_self _ _, fun _ => ne_partName_self _ _⟩
      exact (h.forall_of_forall hself (List.mem_append_left _ hm) hd' i h4).1
    refine ⟨?_, ?_⟩
    · intro rd' hrd' i h4 hp
      obtain ⟨m', hm'⟩ := exists_mem_ramdiskBds hrd' 0
      exact hall _ (List.mem_append_left _ hm') i h4 hp
    · intro c hc k hk drive hd i h4 hp
      obtain ⟨m', hm'⟩ := exists_mem_ataBds hc hk hd 0
      exact hall _ (List.mem_append_right _ hm') i h4 hp
  · intro h
    -- A drive never has the name of a partition, so only a ramdisk can.
    have hall : ∀ d ∈ disks rds cs, ∀ d' ∈ disks rds cs, ∀ i < 4, HasPart d'.table i →
        d.name ≠ partName d'.name i := by
      intro d hd d' hd' i h4 hp
      rcases List.mem_append.1 hd with hd | hd
      · obtain ⟨m, rd, hrd, rfl⟩ := mem_ramdiskBds hd
        rcases List.mem_append.1 hd' with hd' | hd'
        · obtain ⟨m', rd', hrd', rfl⟩ := mem_ramdiskBds hd'
          exact (h rd hrd).1 rd' hrd' i h4 hp
        · obtain ⟨m', -, c, hc, k, hk, drive, hdr, rfl⟩ := mem_ataBds (Nat.dvd_zero 4) hd'
          exact (h rd hrd).2 c hc k hk drive hdr i h4 hp
      · obtain ⟨m, -, c, -, k, -, drive, -, rfl⟩ := mem_ataBds (Nat.dvd_zero 4) hd
        exact driveName_ne_partName h4
    refine List.pairwise_iff_forall_sublist.2 fun {d d'} hsub i h4 => ?_
    have hd : d ∈ disks rds cs := hsub.subset List.mem_cons_self
    have hd' : d' ∈ disks rds cs := hsub.subset (by simp)
    exact ⟨hall d hd d' hd' i h4, hall d' hd' d hd i h4⟩

/-! ## Numbers of disks -/

theorem ramdiskBds_minor {k : Nat} (hk : k < word) (rds : List Ramdisk) :
    (ramdiskBds k rds).map Bd.minor = (List.range rds.length).map fun i => wrap64 (k + i) := by
  induction rds generalizing k with
  | nil => rfl
  | cons rd rds ih =>
      rw [ramdiskBds, List.map_cons, ih (wrap64_lt _), List.length_cons, List.range_succ_eq_map,
        List.map_cons, List.map_map]
      congr 1
      · exact (wrap64_of_lt hk).symm
      · refine List.map_congr_left fun i _ => ?_
        unfold wrap64
        rw [Function.comp_apply, Nat.mod_add_mod, Nat.add_right_comm, Nat.add_assoc]

/-- The counter of the ramdisks starts again after `2^64` of them. -/
theorem ramdiskBds_numbers_iff (rds : List Ramdisk) :
    (ramdiskBds 0 rds).Pairwise (fun d d' => ¬ (d.driver = d'.driver ∧ d.minor = d'.minor)) ↔
      rds.length ≤ word := by
  have hminor : (ramdiskBds 0 rds).Pairwise
      (fun d d' => ¬ (d.driver = d'.driver ∧ d.minor = d'.minor)) ↔
      ((List.range rds.length).map wrap64).Nodup := by
    have hm := ramdiskBds_minor (k := 0) (by decide) rds
    simp only [Nat.zero_add] at hm
    rw [← hm, List.Nodup, List.pairwise_map]
    constructor
    · intro h
      refine h.imp_of_mem fun hd hd' hn he => hn ⟨?_, he⟩
      obtain ⟨_, _, -, rfl⟩ := mem_ramdiskBds hd
      obtain ⟨_, _, -, rfl⟩ := mem_ramdiskBds hd'
      rfl
    · exact fun h => h.imp fun hn he => hn he.2
  rw [hminor]
  constructor
  · intro h
    by_contra hlt
    have hinj := List.inj_on_of_nodup_map h
    have h0 : 0 ∈ List.range rds.length := List.mem_range.2 (by omega)
    have hw : word ∈ List.range rds.length := List.mem_range.2 (by omega)
    exact absurd (hinj h0 hw (by decide)) (by decide)
  · intro h
    refine List.Nodup.map_on ?_ List.nodup_range
    intro i hi j hj he
    rw [List.mem_range] at hi hj
    rwa [wrap64_of_lt (by omega), wrap64_of_lt (by omega)] at he

/-- The place of a drive can be read off its minor number. -/
theorem driveBd_minor_inj {b b' : Nat} (hb : 4 ∣ b) (hb' : 4 ∣ b') {i j : Fin 4} {x y : Drive}
    (h : (driveBd b i x).minor = (driveBd b' j y).minor) : i = j := by
  have hi := i.isLt
  have hj := j.isLt
  have hm : wrap64 (b + i) = wrap64 (b' + j) := h
  unfold wrap64 word at hm
  refine Fin.ext ?_
  omega

theorem ataBds_numbers {b : Nat} (hb : 4 ∣ b) {cs : List Controller} (h : DrivesApart cs) :
    (ataBds b cs).Pairwise (fun d d' => ¬ (d.driver = d'.driver ∧ d.minor = d'.minor)) := by
  refine ((ataBds_names_iff hb cs).2 h).imp_of_mem ?_
  intro d d' hd hd' hname hnum
  obtain ⟨m, hm, c, -, i, -, x, -, rfl⟩ := mem_ataBds hb hd
  obtain ⟨m', hm', c', -, j, -, y, -, rfl⟩ := mem_ataBds hb hd'
  obtain rfl := driveBd_minor_inj hm hm' hnum.2
  exact hname rfl

theorem disks_numbers {rds : List Ramdisk} {cs : List Controller} (hr : rds.length ≤ word)
    (h : DrivesApart cs) :
    (disks rds cs).Pairwise (fun d d' => ¬ (d.driver = d'.driver ∧ d.minor = d'.minor)) := by
  unfold disks
  refine List.pairwise_append.2
    ⟨(ramdiskBds_numbers_iff rds).2 hr, ataBds_numbers (Nat.dvd_zero 4) h, ?_⟩
  intro d hd d' hd' hnum
  obtain ⟨_, _, -, rfl⟩ := mem_ramdiskBds hd
  obtain ⟨_, -, _, -, _, -, _, -, rfl⟩ := mem_ataBds (Nat.dvd_zero 4) hd'
  cases hnum.1

/-! ## Lookup -/

theorem bdGetByName_of_nodup {s : BdState} (h : (s.bdList.map Bd.name).Nodup) {bd : Bd}
    (hbd : bd ∈ s.bdList) : bdGetByName s bd.name = some (s.numbers bd) := by
  unfold bdGetByName
  cases hf : s.bdList.find? fun bd' => bd'.name == bd.name with
  | none => simpa using List.find?_eq_none.1 hf bd hbd
  | some bd' =>
      have hn : bd'.name = bd.name := by simpa using List.find?_some hf
      obtain rfl := List.inj_on_of_nodup_map h (List.mem_of_find?_eq_some hf) hbd hn
      rfl

theorem bdOpen_of_nodup {s : BdState} (h : (s.bdList.map s.numbers).Nodup) {i : Nat} {bd : Bd}
    (hbd : s.bdList[i]? = some bd) : bdOpen s (s.major bd.driver) bd.minor = some i := by
  obtain ⟨hi, rfl⟩ := List.getElem?_eq_some_iff.1 hbd
  refine List.findIdx?_eq_some_iff_getElem.2 ⟨hi, by simp, ?_⟩
  intro j hj heq
  simp only [Bool.and_eq_true, beq_iff_eq] at heq
  have hnum : s.numbers s.bdList[j] = s.numbers s.bdList[i] := Prod.ext heq.2 heq.1
  have hpair := List.pairwise_iff_getElem.1 (List.pairwise_map.1 h) j i (by omega) hi hj
  exact hpair hnum

/-! ## The machine -/

/-- A machine whose devices are told apart. -/
structure Distinct (rds : List Ramdisk) (cs : List Controller) : Prop where
  ramdisks : rds.length ≤ word
  drives : DrivesApart cs
  /-- No two disks have a partition of the same index. -/
  parts : (tables rds cs).Pairwise fun t t' => ∀ i < 4, ¬ (HasPart t i ∧ HasPart t' i)
  leftNames : (rds.map Ramdisk.name).Nodup
  notDrives : NotDrives rds cs
  notParts : NotParts rds cs

theorem disks_apart_iff (rds : List Ramdisk) (cs : List Controller) :
    (disks rds cs).Pairwise Apart ↔ Distinct rds cs := by
  have hparts : (disks rds cs).Pairwise
      (fun d d' => ∀ i < 4, ¬ (HasPart d.table i ∧ HasPart d'.table i)) ↔
      (tables rds cs).Pairwise fun t t' => ∀ i < 4, ¬ (HasPart t i ∧ HasPart t' i) := by
    rw [← disks_table, List.pairwise_map]
  constructor
  · intro h
    obtain ⟨hl, hd, hn⟩ := (disks_names_iff rds cs).1 (h.imp fun a => a.names)
    have hr := (List.pairwise_append.1 (h.imp fun a => a.numbers)).1
    exact ⟨(ramdiskBds_numbers_iff rds).1 hr, hd, hparts.1 (h.imp fun a => a.parts), hl, hn,
      (disks_nameParts_iff rds cs).1 (h.imp fun a => a.nameParts)⟩
  · intro h
    have hnum := disks_numbers h.ramdisks h.drives
    have hname := (disks_names_iff rds cs).2 ⟨h.leftNames, h.drives, h.notDrives⟩
    have hnp := (disks_nameParts_iff rds cs).2 h.notParts
    exact (((hnum.and hname).and (hparts.2 h.parts)).and hnp).imp
      fun ⟨⟨⟨h1, h2⟩, h3⟩, h4⟩ => ⟨h1, h2, h3, h4⟩

/-- The devices of a machine have numbers and names of their own, and each is opened by its
name, if and only if no two controllers have a drive in the same place, no two disks have a
partition of the same index, and no name left over is that of another device. -/
theorem identified_iff {debug : Bool} {rds : List Ramdisk} {cs : List Controller} {s : BdState}
    (h : initDrivers debug rds cs = .ret s) : Identified s ↔ Distinct rds cs := by
  obtain ⟨hl, h1, h2, h3⟩ := initDrivers_ret h
  have hmaj : Function.Injective s.major := by
    intro d d' hdd
    cases d <;> cases d' <;> simp_all
  rw [← disks_apart_iff, ← nodup_iff_apart hmaj (fun d hd => disks_driver hd) hl]
  constructor
  · intro hid
    exact ⟨hid.numbers, hid.names⟩
  · rintro ⟨hn, hm⟩
    refine ⟨hn, hm, ?_⟩
    intro i bd hbd
    exact ⟨_, _, bdGetByName_of_nodup hm (List.mem_of_getElem? hbd), bdOpen_of_nodup hn hbd⟩

/-- A disk whose only partition is the first one. -/
def oneDisk : Drive where
  sectors := 4096
  read := fun _ => some fun a =>
    if a = 510 then 0x55 else if a = 511 then 0xAA else if a = 450 then 0x83
    else if a = 459 then 1 else 0

/-- A controller with this disk as its primary master. -/
def oneController : Controller := fun i => if i.val = 0 then some oneDisk else none

theorem identified_iff_one_disk :
    ∃ s, initDrivers true [] [oneController] = .ret s ∧ Identified s := by
  have h := identified_iff (show initDrivers true [] [oneController] = .ret _ from rfl)
  refine ⟨_, rfl, h.2 ?_⟩
  exact ⟨by decide, List.pairwise_singleton _ _, List.pairwise_singleton _ _, List.nodup_nil,
    (fun _ h => nomatch h), (fun _ h => nomatch h)⟩

/-- Two controllers with such a disk.  Both disks are `hdd0`, and both partitions have the
numbers of the first partition.  The name of the second disk opens the first one. -/
theorem second_disk_not_opened :
    ∃ s, initDrivers true [] [oneController, oneController] = .ret s ∧
      ¬ (s.bdList.map s.numbers).Nodup ∧ ¬ (s.bdList.map Bd.name).Nodup ∧
      s.bdList[2]?.map Bd.name = some (driveName 0) ∧
      bdGetByName s (driveName 0) = some (3, 0) ∧ bdOpen s 3 0 = some 0 := by
  refine ⟨_, rfl, ?_, ?_, ?_, ?_, ?_⟩
  · decide
  · decide
  · rfl
  · rfl
  · rfl

end UlmerOS.BlockDev
