import UlmerOS.Base
import UlmerOS.Lib.ByteMem
import Mathlib.Data.List.Nodup

/-!
# Block devices

`fs/blockdev.c`, `fs/blkdev_ops.c`, `fs/partscan.c`, `fs/ramdisk.c` and the probe of
`drivers/pc/ata.c`.  A driver gets a major number when it registers, and it gives each of
its devices a minor number and a name.  Registering a device puts it at the end of
`bd_list` and scans it for partitions, which are devices of the `partscan` driver and
are registered in turn.

The inputs are what the machine has: the ramdisks, and the controllers in the order in
which they are probed.  Which drives of a controller are present is what `ide_identify`
left in `ide_devices`, and what a drive delivers is a function from blocks.  A ramdisk's
name is the one field of a `bd_t` that `ramdisk_install` does not set.  It is what the
memory held before, so it is an input too.

Device nodes are left out.  All drivers are initialised before `vfs_init`, and
`vfs_initialized` is not set while devices are registered.

The numbers and the names are given in three places.  `identified_iff` says for which
machines they tell the devices apart: when no two controllers have a drive in the same
place, no two disks have a partition with the same index, and no name left over in memory
happens to be that of another device.
-/

namespace UlmerOS.BlockDev

open ByteMem

/-! ## Drivers and devices -/

/-- The `bd_driver_t` of the kernel. -/
inductive BdDriver where
  | partscan
  | ramdisk
  | ata
deriving DecidableEq, Repr

/-- `bd_t.data`, as far as reads depend on it.  A disk delivers a block or fails, and a
partition refers to the device it lies on. -/
inductive BdData where
  | disk (read : Nat → Option Mem)
  | part (blkdev : BdData) (blkOffset : Nat)

/-- `readblk` of one block.  `ps_read` passes the read on. -/
def readblk : BdData → Nat → Option Mem
  | .disk read, lba => read lba
  | .part blkdev blkOffset, lba => readblk blkdev (wrap64 (lba + blkOffset))

/-- `bd_t`. -/
structure Bd where
  minor : Nat
  capacity : Nat
  driver : BdDriver
  data : BdData
  name : List Char

/-- The globals of the block device layer and of the drivers. -/
structure BdState where
  majorCounter : Nat
  /-- `major` of each driver. -/
  major : BdDriver → Nat
  partMajor : Nat
  bdList : List Bd
  /-- `minor_counter` of `ramdisk.c`. -/
  rdCounter : Nat
  /-- `minor_counter` of `ata.c`. -/
  ataCounter : Nat

/-- `bd_register_driver`. -/
def bdRegisterDriver (s : BdState) (driver : BdDriver) : BdState :=
  { s with
    majorCounter := wrap64 (s.majorCounter + 1)
    major := Function.update s.major driver s.majorCounter }

/-- `partscan_init`. -/
def partscanInit (s : BdState) : BdState :=
  let s := bdRegisterDriver s .partscan
  { s with partMajor := s.major .partscan }

/-- `blockdev_init`, from the initial values of the globals. -/
def blockdevInit : BdState :=
  partscanInit
    { majorCounter := 1, major := fun _ => 0, partMajor := 0, bdList := [],
      rdCounter := 0, ataCounter := 0 }

/-! ## Partitions -/

/-- `%zu`. -/
def utoa (n : Nat) : List Char := Nat.toDigits 10 n

/-- `mbr.magic`. -/
def hasTable (mbr : Mem) : Bool := mbr 510 == 0x55 && mbr 511 == 0xAA

/-- `mbr.parts[i].type`. -/
def partType (mbr : Mem) (i : Nat) : UInt8 := mbr (446 + 16 * i + 4)

/-- `mbr.parts[i].lba_start`. -/
def lbaStart (mbr : Mem) (i : Nat) : Nat := load mbr (446 + 16 * i + 8) 4

/-- `mbr.parts[i].lba_size`. -/
def lbaSize (mbr : Mem) (i : Nat) : Nat := load mbr (446 + 16 * i + 12) 4

/-- The name of a partition, `"%sp%zu"`. -/
def partName (name : List Char) (i : Nat) : List Char := name ++ 'p' :: utoa i

/-- The device of a partition. -/
def partBd (blkdev : Bd) (mbr : Mem) (i : Nat) : Bd where
  minor := i
  capacity := lbaSize mbr i
  driver := .partscan
  data := .part blkdev.data (lbaStart mbr i)
  name := partName blkdev.name i

/-- One round of the loop of `partscan`.  A name of 32 characters or more does not fit in
`prefix`, and what is overwritten then is not in the model. -/
def partscanEntry (register : BdState → Bd → Outcome BdState) (blkdev : Bd) (mbr : Mem)
    (s : BdState) (i : Nat) : Outcome BdState :=
  if partType mbr i = 0 then .ret s
  else if 32 ≤ (partName blkdev.name i).length then .fault
  else register s (partBd blkdev mbr i)

/-- `partscan`. -/
def partscan (register : BdState → Bd → Outcome BdState) (s : BdState) (blkdev : Bd) :
    Outcome BdState :=
  if s.major blkdev.driver = s.partMajor then .ret s
  else
    match readblk blkdev.data 0 with
    | none => .ret s
    | some mbr =>
        if hasTable mbr then [0, 1, 2, 3].foldlM (partscanEntry register blkdev mbr) s
        else .ret s

/-- `bd_register`.  It calls itself through `partscan`, to the given depth. -/
def bdRegisterWith (debug : Bool) : Nat → BdState → Bd → Outcome BdState
  | 0, _, _ => .hang
  | depth + 1, s, blkdev =>
      if debug ∧ blkdev.capacity = 0 then
        .panic "assert failed: blkdev must have non-zero capacity"
      else
        partscan (bdRegisterWith debug depth) { s with bdList := s.bdList ++ [blkdev] } blkdev

/-- `bd_register`.  Partitions are not scanned again, so that two levels are enough. -/
def bdRegister (debug : Bool) (s : BdState) (blkdev : Bd) : Outcome BdState :=
  bdRegisterWith debug 2 s blkdev

/-! ## The drivers -/

/-- A ramdisk: its bytes, their number and the name left over in its `bd_t`. -/
structure Ramdisk where
  bytes : Mem
  size : Nat
  name : List Char

/-- `rd->ramdisk_size`, in blocks. -/
def Ramdisk.blocks (rd : Ramdisk) : Nat := rd.size / 2 ^ 9

/-- `initrd_read` of one block.  At the end of the disk the count becomes zero. -/
def initrdRead (rd : Ramdisk) (lba : Nat) : Option Mem :=
  if rd.blocks < lba + 1 then none else some fun i => rd.bytes (lba * 512 + i)

/-- The device of a ramdisk. -/
def ramdiskBd (minor : Nat) (rd : Ramdisk) : Bd where
  minor := minor
  capacity := rd.blocks / 512
  driver := .ramdisk
  data := .disk (initrdRead rd)
  name := rd.name

/-- `ramdisk_init`. -/
def ramdiskInit (s : BdState) : BdState := bdRegisterDriver s .ramdisk

/-- `ramdisk_install`. -/
def ramdiskInstall (debug : Bool) (s : BdState) (rd : Ramdisk) : Outcome BdState :=
  bdRegister debug { s with rdCounter := wrap64 (s.rdCounter + 1) } (ramdiskBd s.rdCounter rd)

/-- A drive that is present: `sectors`, and what reading its blocks delivers. -/
structure Drive where
  sectors : Nat
  read : Nat → Option Mem

/-- `ide_devices` of a controller. -/
abbrev Controller := Fin 4 → Option Drive

/-- The name of a drive, `"hdd%zu"`. -/
def driveName (i : Nat) : List Char := 'h' :: 'd' :: 'd' :: utoa i

/-- The device of a drive. -/
def driveBd (minorBase : Nat) (i : Fin 4) (drive : Drive) : Bd where
  minor := wrap64 (minorBase + i)
  capacity := drive.sectors
  driver := .ata
  data := .disk drive.read
  name := driveName i

/-- One round of the last loop of `ata_probe`. -/
def ataProbeDrive (debug : Bool) (minorBase : Nat) (controller : Controller) (s : BdState)
    (i : Fin 4) : Outcome BdState :=
  match controller i with
  | none => .ret s
  | some drive => bdRegister debug s (driveBd minorBase i drive)

/-- The indices of the loop of `ata_probe`.  The last drive of a controller is left out. -/
def probed : List (Fin 4) := [0, 1, 2]

/-- `ata_probe`. -/
def ataProbe (debug : Bool) (s : BdState) (controller : Controller) : Outcome BdState :=
  probed.foldlM (ataProbeDrive debug s.ataCounter controller)
    { s with ataCounter := wrap64 (s.ataCounter + 4) }

/-- `pc_ata_init`, up to the probes. -/
def pcAtaInit (s : BdState) : BdState := bdRegisterDriver s .ata

/-- `blockdev_init` and `init_drivers`. -/
def initDrivers (debug : Bool) (ramdisks : List Ramdisk) (controllers : List Controller) :
    Outcome BdState := do
  let s ← ramdisks.foldlM (ramdiskInstall debug) (ramdiskInit blockdevInit)
  controllers.foldlM (ataProbe debug) (pcAtaInit s)

/-! ## Lookup -/

/-- The numbers of a device. -/
def BdState.numbers (s : BdState) (bd : Bd) : Nat × Nat := (s.major bd.driver, bd.minor)

/-- `bd_get_by_name`. -/
def bdGetByName (s : BdState) (name : List Char) : Option (Nat × Nat) :=
  (s.bdList.find? fun bd => bd.name == name).map s.numbers

/-- `bd_open`.  The device is given by its place in `bd_list`. -/
def bdOpen (s : BdState) (major minor : Nat) : Option Nat :=
  s.bdList.findIdx? fun bd => bd.minor == minor && s.major bd.driver == major

/-- The numbers and the names tell the devices apart, and a device is opened by its
name. -/
structure Identified (s : BdState) : Prop where
  numbers : (s.bdList.map s.numbers).Nodup
  names : (s.bdList.map Bd.name).Nodup
  opens : ∀ (i : Nat) (bd : Bd), s.bdList[i]? = some bd →
    ∃ major minor, bdGetByName s bd.name = some (major, minor) ∧ bdOpen s major minor = some i

/-! ## What a scan finds -/

/-- The first block of a disk holds a table with this partition. -/
def HasPart (sector : Option Mem) (i : Nat) : Prop :=
  ∃ mbr, sector = some mbr ∧ hasTable mbr = true ∧ partType mbr i ≠ 0

/-- The partitions of a device, in the order of its table. -/
def partsOf (bd : Bd) : List Bd :=
  match readblk bd.data 0 with
  | none => []
  | some mbr =>
      if hasTable mbr then
        ([0, 1, 2, 3].filter fun i => partType mbr i ≠ 0).map (partBd bd mbr)
      else []

theorem mem_partsOf {bd x : Bd} :
    x ∈ partsOf bd ↔ ∃ mbr i, readblk bd.data 0 = some mbr ∧ hasTable mbr = true ∧
      i < 4 ∧ partType mbr i ≠ 0 ∧ x = partBd bd mbr i := by
  have hi : ∀ i : Nat, i ∈ [0, 1, 2, 3] ↔ i < 4 := by simp; omega
  unfold partsOf
  cases hr : readblk bd.data 0 with
  | none => simp
  | some mbr =>
      by_cases ht : hasTable mbr = true
      · simp only [ht, if_true, List.mem_map, List.mem_filter, hi, Option.some.injEq]
        constructor
        · rintro ⟨i, ⟨h4, hp⟩, rfl⟩
          exact ⟨mbr, i, rfl, ht, h4, by simpa using hp, rfl⟩
        · rintro ⟨_, i, rfl, _, h4, hp, rfl⟩
          exact ⟨i, ⟨h4, by simpa using hp⟩, rfl⟩
      · simp only [ht, if_neg, Bool.false_eq_true, not_false_eq_true, List.not_mem_nil,
          false_iff]
        rintro ⟨_, _, hm, ht', _⟩
        cases hm
        exact ht ht'

/-- A partition is a device of `partscan`, with its index as minor number. -/
theorem partsOf_numbers {bd x : Bd} (s : BdState) (h : x ∈ partsOf bd) :
    ∃ i < 4, HasPart (readblk bd.data 0) i ∧ s.numbers x = (s.major .partscan, i) ∧
      x.name = partName bd.name i := by
  obtain ⟨mbr, i, hr, ht, h4, hp, rfl⟩ := mem_partsOf.1 h
  exact ⟨i, h4, ⟨mbr, hr, ht, hp⟩, rfl, rfl⟩

theorem exists_mem_partsOf {bd : Bd} {i : Nat} (s : BdState) (h4 : i < 4)
    (h : HasPart (readblk bd.data 0) i) :
    ∃ x ∈ partsOf bd, s.numbers x = (s.major .partscan, i) ∧ x.name = partName bd.name i := by
  obtain ⟨mbr, hr, ht, hp⟩ := h
  exact ⟨_, mem_partsOf.2 ⟨mbr, i, hr, ht, h4, hp, rfl⟩, rfl, rfl⟩

/-- Put devices at the end of the list. -/
def BdState.append (s : BdState) (bds : List Bd) : BdState := { s with bdList := s.bdList ++ bds }

@[simp] theorem append_nil (s : BdState) : s.append [] = s := by simp [BdState.append]

@[simp] theorem append_append (s : BdState) (l l' : List Bd) :
    (s.append l).append l' = s.append (l ++ l') := by simp [BdState.append]

/-- A loop whose rounds put devices at the end puts all of them there. -/
theorem foldlM_append {α : Type} {f : BdState → α → Outcome BdState} {g : α → List Bd}
    {P : BdState → Prop} (hP : ∀ s l, P s → P (s.append l))
    (hf : ∀ s a s', P s → f s a = .ret s' → s' = s.append (g a)) (l : List α)
    {s s' : BdState} (hs : P s) (h : l.foldlM f s = .ret s') : s' = s.append (l.flatMap g) := by
  induction l generalizing s with
  | nil =>
      cases h
      simp
  | cons a l ih =>
      rw [List.foldlM_cons, Outcome.bind_eq_ret] at h
      obtain ⟨s1, h1, h⟩ := h
      obtain rfl := hf s a s1 hs h1
      rw [ih (hP s _ hs) h, append_append, List.flatMap_cons]

/-- The partition driver has a number of its own. -/
def Numbered (s : BdState) : Prop :=
  s.major .partscan = s.partMajor ∧ s.major .ramdisk ≠ s.partMajor ∧ s.major .ata ≠ s.partMajor

theorem Numbered.append {s : BdState} (h : Numbered s) (l : List Bd) : Numbered (s.append l) := h

/-- Registering a partition only puts it on the list. -/
theorem bdRegisterWith_part {debug : Bool} {depth : Nat} {s s' : BdState} {bd : Bd}
    (hs : Numbered s) (hd : bd.driver = .partscan)
    (h : bdRegisterWith debug (depth + 1) s bd = .ret s') : s' = s.append [bd] := by
  unfold bdRegisterWith at h
  split at h
  · cases h
  · rw [partscan, if_pos (by rw [hd]; exact hs.1)] at h
    cases h
    rfl

theorem flatMap_if_eq_map_filter {α β : Type} (p : α → Prop) [DecidablePred p] (f : α → β)
    (l : List α) :
    (l.flatMap fun a => if p a then [f a] else []) = (l.filter fun a => p a).map f := by
  induction l with
  | nil => rfl
  | cons a l ih =>
      by_cases h : p a
      · simp [h, ih]
      · simp [h, ih]

/-- Registering a disk puts it and its partitions on the list. -/
theorem bdRegister_ret {debug : Bool} {s s' : BdState} {bd : Bd} (hs : Numbered s)
    (hd : bd.driver ≠ .partscan) (h : bdRegister debug s bd = .ret s') :
    s' = s.append (bd :: partsOf bd) := by
  have hm : s.major bd.driver ≠ s.partMajor := by
    cases hb : bd.driver with
    | partscan => exact absurd hb hd
    | ramdisk => exact hs.2.1
    | ata => exact hs.2.2
  unfold bdRegister bdRegisterWith at h
  split at h
  · cases h
  rw [partscan, if_neg hm] at h
  unfold partsOf
  cases hr : readblk bd.data 0 with
  | none =>
      rw [hr] at h
      cases h
      rfl
  | some mbr =>
      simp only [hr] at h
      dsimp only
      by_cases ht : hasTable mbr = true
      · rw [if_pos ht] at h ⊢
        have hl := foldlM_append (P := Numbered)
          (g := fun i => if partType mbr i ≠ 0 then [partBd bd mbr i] else [])
          (fun s l hs => hs.append l) ?_ _ (hs.append [bd]) h
        · rw [hl, flatMap_if_eq_map_filter]
          simp [BdState.append]
        · intro s i s' hs h
          unfold partscanEntry at h
          split at h
          · cases h
            simp [*]
          · split at h
            · cases h
            · rw [if_pos ‹_›]
              exact bdRegisterWith_part hs rfl h
      · rw [if_neg ht] at h ⊢
        cases h
        rfl

/-! ## The disks of a machine -/

/-- A device and its partitions. -/
def withParts (bd : Bd) : List Bd := bd :: partsOf bd

/-- The devices of the ramdisks, from a value of the counter on. -/
def ramdiskBds : Nat → List Ramdisk → List Bd
  | _, [] => []
  | minor, rd :: rds => ramdiskBd minor rd :: ramdiskBds (wrap64 (minor + 1)) rds

/-- The devices of a controller. -/
def controllerBds (minorBase : Nat) (c : Controller) : List Bd :=
  probed.filterMap fun i => (c i).map (driveBd minorBase i)

/-- The devices of the controllers, from a value of the counter on. -/
def ataBds : Nat → List Controller → List Bd
  | _, [] => []
  | minorBase, c :: cs => controllerBds minorBase c ++ ataBds (wrap64 (minorBase + 4)) cs

theorem ramdisks_ret {debug : Bool} {rds : List Ramdisk} {s s' : BdState} (hs : Numbered s)
    (h : rds.foldlM (ramdiskInstall debug) s = .ret s') :
    s'.bdList = s.bdList ++ (ramdiskBds s.rdCounter rds).flatMap withParts ∧
      s'.major = s.major ∧ s'.partMajor = s.partMajor ∧ s'.majorCounter = s.majorCounter ∧
      s'.ataCounter = s.ataCounter := by
  induction rds generalizing s with
  | nil =>
      cases h
      simp [ramdiskBds]
  | cons rd rds ih =>
      rw [List.foldlM_cons, Outcome.bind_eq_ret] at h
      obtain ⟨s1, h1, h⟩ := h
      have hs' : Numbered { s with rdCounter := wrap64 (s.rdCounter + 1) } := hs
      obtain rfl := bdRegister_ret hs' (by simp [ramdiskBd]) h1
      obtain ⟨hl, hr⟩ := ih (hs'.append _) h
      refine ⟨?_, hr⟩
      rw [hl]
      simp [BdState.append, ramdiskBds, withParts]

theorem ataProbe_ret {debug : Bool} {c : Controller} {s s' : BdState} (hs : Numbered s)
    (h : ataProbe debug s c = .ret s') :
    s' = BdState.append { s with ataCounter := wrap64 (s.ataCounter + 4) }
      ((controllerBds s.ataCounter c).flatMap withParts) := by
  have hs' : Numbered { s with ataCounter := wrap64 (s.ataCounter + 4) } := hs
  have hl := foldlM_append (P := Numbered)
    (g := fun i => ((c i).map (driveBd s.ataCounter i)).toList.flatMap withParts)
    (fun s l hs => hs.append l) ?_ _ hs' h
  · rw [hl, controllerBds, List.filterMap_eq_flatMap_toList, List.flatMap_assoc]
  · intro s1 i s2 hs1 h1
    unfold ataProbeDrive at h1
    cases hc : c i with
    | none =>
        rw [hc] at h1
        cases h1
        simp
    | some drive =>
        rw [hc] at h1
        rw [bdRegister_ret hs1 (by simp [driveBd]) h1]
        simp [withParts]

theorem controllers_ret {debug : Bool} {cs : List Controller} {s s' : BdState} (hs : Numbered s)
    (h : cs.foldlM (ataProbe debug) s = .ret s') :
    s'.bdList = s.bdList ++ (ataBds s.ataCounter cs).flatMap withParts ∧
      s'.major = s.major := by
  induction cs generalizing s with
  | nil =>
      cases h
      simp [ataBds]
  | cons c cs ih =>
      rw [List.foldlM_cons, Outcome.bind_eq_ret] at h
      obtain ⟨s1, h1, h⟩ := h
      obtain rfl := ataProbe_ret hs h1
      have hs' : Numbered { s with ataCounter := wrap64 (s.ataCounter + 4) } := hs
      obtain ⟨hl, hr⟩ := ih (hs'.append _) h
      refine ⟨?_, hr⟩
      rw [hl]
      simp [BdState.append, ataBds]

/-- The disks of a machine, in the order in which they are registered. -/
def disks (rds : List Ramdisk) (cs : List Controller) : List Bd :=
  ramdiskBds 0 rds ++ ataBds 0 cs

/-- The list after the start, and the numbers of the drivers. -/
theorem initDrivers_ret {debug : Bool} {rds : List Ramdisk} {cs : List Controller} {s : BdState}
    (h : initDrivers debug rds cs = .ret s) :
    s.bdList = (disks rds cs).flatMap withParts ∧
      s.major .partscan = 1 ∧ s.major .ramdisk = 2 ∧ s.major .ata = 3 := by
  have hs : Numbered (ramdiskInit blockdevInit) := ⟨rfl, by decide, by decide⟩
  obtain ⟨s1, h1, h⟩ := Outcome.bind_eq_ret.1 h
  obtain ⟨hl1, hm1, hp1, hc1, ha1⟩ := ramdisks_ret hs h1
  have hm : (pcAtaInit s1).major = Function.update (ramdiskInit blockdevInit).major .ata 3 := by
    simp only [pcAtaInit, bdRegisterDriver, hm1, hc1]
    rfl
  have hs1 : Numbered (pcAtaInit s1) := by
    have hp : (pcAtaInit s1).partMajor = 1 := hp1
    unfold Numbered
    rw [hm, hp]
    exact ⟨rfl, by decide, by decide⟩
  obtain ⟨hl, hm2⟩ := controllers_ret hs1 h
  have ha : (pcAtaInit s1).ataCounter = 0 := ha1
  have hl' : (pcAtaInit s1).bdList = (ramdiskBds 0 rds).flatMap withParts := hl1
  rw [hm2, hm, hl, ha, hl', disks, List.flatMap_append]
  exact ⟨rfl, rfl, rfl, rfl⟩

end UlmerOS.BlockDev
