import UlmerOS.Fs.BlockDev
import Mathlib.Logic.Function.Basic

/-!
# Which drives are found

`ide_identify` and the last loop of `ata_probe` of `drivers/pc/ata.c`.  The records of the
drives are given by their place from the start of `ide_devices`, and the places from 4 on are
memory behind the controller.

`ide_identify` has a pointer to the record of its drive, and it clears `present` there.  All
that it finds out is stored through `ide_device[drv_id]`, so that the place is twice the
number of the drive.  Only the first drive is described in its own record.

The name of a drive is cut off from its last byte on.  That byte is the one that was in memory
before, and if it is neither a blank nor zero then nothing is cut off.
-/

namespace UlmerOS

open ByteMem
open BlockDev (Drive Controller Bd driveBd probed ataProbe ataProbeDrive bdRegister BdState)

/-! ## Records -/

/-- `ide_dev_t`.  `model` has 41 bytes. -/
structure IdeDev where
  present : Nat
  channel : Nat
  drive : Nat
  type : Nat
  signat : Nat
  capa : Nat
  cmdSets : Nat
  sectors : Nat
  model : Mem

/-- What a drive answers to `ATA_CMD_IDENTIFY`: the status is zero, it has the error bit, or
the drive delivers its identification space. -/
inductive DriveResponse where
  | absent
  | notAta
  | ata (idspace : Mem)

/-- The loop that copies the name of a drive, after `n` rounds.  The bytes of each word are
swapped. -/
def copyModel (idspace : Mem) : Nat → Mem → Mem
  | 0, model => model
  | n + 1, model =>
      let i := 2 * n
      Function.update (Function.update (copyModel idspace n model) i (idspace (54 + i + 1)))
        (i + 1) (idspace (54 + i))

/-- The loop that cuts off blanks, from the byte before `n` downwards. -/
def cutModel : Nat → Mem → Mem
  | 0, model => model
  | i + 1, model =>
      if model i ≠ 0x20 ∧ model i ≠ 0 then model
      else cutModel i (if model i = 0x20 then Function.update model i 0 else model)

/-- `sectors` of an identification space.  Bit 26 of the command sets says that the drive has
block numbers of 48 bits. -/
def identSectors (idspace : Mem) : Nat :=
  if (load idspace 164 4).testBit 26 then load idspace 200 4 else load idspace 120 4

/-- What `ide_identify` stores in a record. -/
def identified (old : IdeDev) (channel drive : Nat) (idspace : Mem) : IdeDev where
  present := 1
  channel := channel
  drive := drive
  type := old.type
  signat := load idspace 0 2
  capa := load idspace 98 2
  cmdSets := load idspace 164 4
  sectors := identSectors idspace
  model := Function.update (cutModel 41 (copyModel idspace 20 old.model)) 40 0

/-- `ide_identify`, on the records at `ide_devices` and behind.  `ide_device` is the place of the
record, and it is indexed with that place again. -/
def ideIdentify (devices : Nat → IdeDev) (channel drive : Nat) (response : DriveResponse) :
    Nat → IdeDev :=
  let drvId := channel * 2 + drive
  let ideDevice := drvId
  let devices := Function.update devices ideDevice { devices ideDevice with present := 0 }
  match response with
  | .absent => devices
  | .notAta => devices
  | .ata idspace =>
      Function.update devices (ideDevice + drvId)
        (identified (devices (ideDevice + drvId)) channel drive idspace)

/-- The records after the first `n` calls of `ata_probe`.  The channel changes with every second
call. -/
def identifyCalls (responses : Nat → DriveResponse) (devices : Nat → IdeDev) : Nat → Nat → IdeDev
  | 0 => devices
  | n + 1 => ideIdentify (identifyCalls responses devices n) (n / 2) (n % 2) (responses n)

/-- What the loop of `ata_probe` finds in `ide_devices`, with what reading a drive delivers. -/
def foundController (devices : Nat → IdeDev) (read : Fin 4 → Nat → Option Mem) : Controller :=
  fun i => if (devices i).present ≠ 0 then some ⟨(devices i).sectors, read i⟩ else none

/-- The devices that `ata_probe` registers, in order. -/
def registeredDrives (minorBase : Nat) (controller : Controller) : List Bd :=
  probed.filterMap fun i => (controller i).map (driveBd minorBase i)

/-- They are those of its loop. -/
theorem ataProbe_registers (debug : Bool) (s : BdState) (controller : Controller) :
    ataProbe debug s controller =
      (registeredDrives s.ataCounter controller).foldlM (bdRegister debug)
        { s with ataCounter := wrap64 (s.ataCounter + 4) } := by
  rw [ataProbe, registeredDrives]
  generalize ({ s with ataCounter := wrap64 (s.ataCounter + 4) } : BdState) = s'
  generalize s.ataCounter = minorBase
  induction probed generalizing s' with
  | nil => rfl
  | cons i is ih =>
      rw [List.foldlM_cons, List.filterMap_cons, ataProbeDrive]
      cases controller i with
      | none => exact ih s'
      | some drive =>
          simp only [Option.map_some, List.foldlM_cons]
          exact bind_congr ih

/-! ## Discovery -/

/-- A byte of the name, with the bytes of each word swapped. -/
def swappedModel (idspace : Mem) (k : Nat) : UInt8 :=
  idspace (54 + if k % 2 = 0 then k + 1 else k - 1)

/-- A blank, or the end of a string. -/
def IsBlank (b : UInt8) : Prop := b = 0x20 ∨ b = 0

instance (b : UInt8) : Decidable (IsBlank b) := inferInstanceAs (Decidable (_ ∨ _))

/-- The name has no more than blanks from a byte on. -/
def BlankFrom (name : Mem) (n k : Nat) : Prop := ∀ j < n, k ≤ j → IsBlank (name j)

instance (name : Mem) (n k : Nat) : Decidable (BlankFrom name n k) :=
  inferInstanceAs (Decidable (∀ j < n, k ≤ j → IsBlank (name j)))

/-- The name of a drive, without the blanks at its end. -/
def identModel (idspace : Mem) (k : Nat) : UInt8 :=
  if BlankFrom (swappedModel idspace) 40 k then 0 else swappedModel idspace k

/-- A record describes a drive. -/
def IdeDev.Describes (dev : IdeDev) (i : Nat) : DriveResponse → Prop
  | .absent => dev.present = 0
  | .notAta => dev.present = 0
  | .ata idspace => dev.present = 1 ∧ dev.channel = i / 2 ∧ dev.drive = i % 2 ∧
      dev.sectors = identSectors idspace ∧ ∀ k < 41, dev.model k = identModel idspace k

/-- The drive that a response stands for. -/
def respondedDrive (read : Nat → Option Mem) : DriveResponse → Option Drive
  | .absent => none
  | .notAta => none
  | .ata idspace => some ⟨identSectors idspace, read⟩

/-- Each record describes its drive, identifying a drive changes no other record, and the
drives that are present are registered. -/
structure Discovers (responses : Nat → DriveResponse) (devices : Nat → IdeDev) (minorBase : Nat)
    (read : Fin 4 → Nat → Option Mem) : Prop where
  describes : ∀ i < 4, (identifyCalls responses devices 4 i).Describes i (responses i)
  frame : ∀ n < 4, ∀ i ≠ n,
    identifyCalls responses devices (n + 1) i = identifyCalls responses devices n i
  registers :
    registeredDrives minorBase (foundController (identifyCalls responses devices 4) read) =
      (List.finRange 4).filterMap fun i =>
        (respondedDrive (read i) (responses i)).map (driveBd minorBase i)

/-- A name whose end has no blanks. -/
def EndsWithoutBlank (idspace : Mem) : Prop :=
  ∀ k < 40, BlankFrom (swappedModel idspace) 40 k → swappedModel idspace k = 0

/-- No drive but the first one is found.  If that one is, then the byte behind its name was
blank before, or there is nothing to cut off. -/
structure FirstAlone (responses : Nat → DriveResponse) (devices : Nat → IdeDev) : Prop where
  others : ∀ i, 1 ≤ i → i < 4 → ∀ idspace, responses i ≠ .ata idspace
  name : ∀ idspace, responses 0 = .ata idspace →
    IsBlank ((devices 0).model 40) ∨ EndsWithoutBlank idspace

/-! ## The name -/

theorem copyModel_apply (idspace model : Mem) (n k : Nat) :
    copyModel idspace n model k = if k < 2 * n then swappedModel idspace k else model k := by
  induction n with
  | zero => rfl
  | succ n ih =>
      simp only [copyModel, Function.update_apply, ih]
      by_cases hodd : k = 2 * n + 1
      · rw [if_pos hodd, if_pos (by omega), swappedModel, if_neg (by omega), hodd]
        rfl
      · by_cases heven : k = 2 * n
        · rw [if_neg hodd, if_pos heven, if_pos (by omega), swappedModel, if_pos (by omega), heven,
            Nat.add_assoc]
        · rw [if_neg hodd, if_neg heven]
          exact if_congr (by omega) rfl rfl

theorem blankFrom_congr {model model' : Mem} {n k : Nat} (h : ∀ j < n, model j = model' j) :
    BlankFrom model n k ↔ BlankFrom model' n k :=
  forall₂_congr fun j hj => by rw [h j hj]

theorem blankFrom_succ {model : Mem} {n k : Nat} (hk : k ≤ n) :
    BlankFrom model (n + 1) k ↔ BlankFrom model n k ∧ IsBlank (model n) := by
  constructor
  · intro h
    exact ⟨fun j hj => h j (Nat.lt_succ_of_lt hj), h n (Nat.lt_succ_self n) hk⟩
  · rintro ⟨h, hn⟩ j hj hkj
    rcases Nat.lt_succ_iff_lt_or_eq.mp hj with hlt | rfl
    · exact h j hlt hkj
    · exact hn

/-- The blanks at the end are cut off. -/
theorem cutModel_apply (n k : Nat) (model : Mem) :
    cutModel n model k = if k < n ∧ BlankFrom model n k then 0 else model k := by
  induction n generalizing model with
  | zero => exact (if_neg (fun h => Nat.not_lt_zero k h.1)).symm
  | succ i ih =>
      rw [cutModel]
      by_cases hblank : IsBlank (model i)
      · -- A blank and zero are both zero afterwards.
        have hcut : (if model i = 0x20 then Function.update model i 0 else model) =
            Function.update model i 0 := by
          split
          next => rfl
          next hne => rw [← hblank.resolve_left hne, Function.update_eq_self]
        have hsame : BlankFrom (Function.update model i 0) i k ↔ BlankFrom model i k :=
          blankFrom_congr fun j hj => Function.update_of_ne (Nat.ne_of_lt hj) _ _
        rw [if_neg (fun h => hblank.elim h.1 h.2), hcut, ih]
        rcases Nat.lt_trichotomy k i with hlt | rfl | hgt
        · rw [Function.update_of_ne (Nat.ne_of_lt hlt)]
          refine if_congr ?_ rfl rfl
          rw [hsame, blankFrom_succ hlt.le]
          simp only [hlt, Nat.lt_succ_of_lt hlt, hblank, and_true]
        · have hend : BlankFrom model (k + 1) k := fun j hj hkj => by
            rwa [Nat.le_antisymm (Nat.lt_succ_iff.mp hj) hkj]
          rw [if_neg (fun h => Nat.lt_irrefl k h.1), Function.update_self,
            if_pos ⟨Nat.lt_succ_self k, hend⟩]
        · rw [if_neg (fun h => Nat.lt_asymm hgt h.1), if_neg (by omega),
            Function.update_of_ne (Nat.ne_of_gt hgt)]
      · rw [if_pos (not_or.mp hblank), if_neg]
        rintro ⟨hk, h⟩
        exact hblank (h i (Nat.lt_succ_self i) (Nat.lt_succ_iff.mp hk))

/-- The name in a record is that of the drive, exactly if the last byte was blank or there is
nothing to cut off. -/
theorem identified_model_iff (old : IdeDev) (channel drive : Nat) (idspace : Mem) :
    (∀ k < 41, (identified old channel drive idspace).model k = identModel idspace k) ↔
      IsBlank (old.model 40) ∨ EndsWithoutBlank idspace := by
  have hlast : copyModel idspace 20 old.model 40 = old.model 40 :=
    (copyModel_apply ..).trans (if_neg (by decide))
  have hname : ∀ k < 40, copyModel idspace 20 old.model k = swappedModel idspace k :=
    fun k hk => (copyModel_apply ..).trans (if_pos hk)
  have hmodel : ∀ k < 40, (identified old channel drive idspace).model k =
      if BlankFrom (swappedModel idspace) 40 k ∧ IsBlank (old.model 40) then 0
      else swappedModel idspace k := by
    intro k hk
    show Function.update (cutModel 41 _) 40 0 k = _
    rw [Function.update_of_ne (Nat.ne_of_lt hk), cutModel_apply, hname k hk]
    refine if_congr ?_ rfl rfl
    rw [blankFrom_succ hk.le, blankFrom_congr hname, hlast]
    exact and_iff_right (Nat.lt_succ_of_lt hk)
  have hend : (identified old channel drive idspace).model 40 = identModel idspace 40 :=
    (if_pos fun j hj hkj => absurd hj (Nat.not_lt.mpr hkj)).symm
  constructor
  · intro h
    refine or_iff_not_imp_left.mpr fun hstale k hk hblank => ?_
    have heq := (hmodel k hk).symm.trans (h k (Nat.lt_succ_of_lt hk))
    rwa [if_neg (fun h => hstale h.2), identModel, if_pos hblank] at heq
  · intro h k hk
    rcases Nat.lt_succ_iff_lt_or_eq.mp hk with hlt | rfl
    · rw [hmodel k hlt, identModel]
      by_cases hblank : BlankFrom (swappedModel idspace) 40 k
      · rw [if_pos hblank]
        rcases h with hstale | hzero
        · exact if_pos ⟨hblank, hstale⟩
        · rw [hzero k hlt hblank]
          exact ite_self 0
      · rw [if_neg hblank, if_neg (fun h => hblank h.1)]
    · exact hend

/-! ## The calls -/

/-- What a call stores in the record of its own drive and in the one at twice its place. -/
theorem ideIdentify_apply (devices : Nat → IdeDev) (channel drive : Nat)
    (response : DriveResponse) {i : Nat} (hi : i ≠ (channel * 2 + drive) + (channel * 2 + drive)) :
    ideIdentify devices channel drive response i =
      if i = channel * 2 + drive then { devices i with present := 0 } else devices i := by
  have hclear : Function.update devices (channel * 2 + drive)
      { devices (channel * 2 + drive) with present := 0 } i =
        if i = channel * 2 + drive then { devices i with present := 0 } else devices i := by
    rw [Function.update_apply]
    split
    next h => rw [h]
    next => rfl
  cases response with
  | absent => exact hclear
  | notAta => exact hclear
  | ata idspace => exact (Function.update_of_ne hi _ _).trans hclear

/-- A drive that is not found changes its own record only. -/
theorem ideIdentify_of_not_ata (devices : Nat → IdeDev) (channel drive : Nat)
    {response : DriveResponse} (hresponse : ∀ idspace, response ≠ .ata idspace) {i : Nat}
    (hi : i ≠ channel * 2 + drive) : ideIdentify devices channel drive response i = devices i := by
  cases response with
  | absent => exact Function.update_of_ne hi _ _
  | notAta => exact Function.update_of_ne hi _ _
  | ata idspace => exact absurd rfl (hresponse idspace)

section

variable (responses : Nat → DriveResponse) (devices : Nat → IdeDev)

theorem identifyCalls_succ {n i : Nat} (hi : i ≠ n + n) :
    identifyCalls responses devices (n + 1) i =
      if i = n then { identifyCalls responses devices n i with present := 0 }
      else identifyCalls responses devices n i := by
  have hdrv : n / 2 * 2 + n % 2 = n := by omega
  have happly := ideIdentify_apply (identifyCalls responses devices n) (n / 2) (n % 2)
    (responses n) (by rwa [hdrv])
  rwa [hdrv] at happly

/-- The first record is the one of the first call. -/
theorem identifyCalls_zero (n : Nat) :
    identifyCalls responses devices (n + 1) 0 = ideIdentify devices 0 0 (responses 0) 0 := by
  induction n with
  | zero => rfl
  | succ n ih => rw [identifyCalls_succ responses devices (by omega), if_neg (by omega), ih]

/-- No other record says that its drive is present. -/
theorem identifyCalls_present {i n : Nat} (hpos : 0 < i) (hlt : i < n) :
    (identifyCalls responses devices n i).present = 0 := by
  induction n with
  | zero => exact absurd hlt (Nat.not_lt_zero i)
  | succ n ih =>
      rw [identifyCalls_succ responses devices (by omega)]
      split
      next => rfl
      next hne => exact ih (by omega)

/-- What the first call leaves. -/
theorem ideIdentify_zero_describes_iff (response : DriveResponse) :
    (ideIdentify devices 0 0 response 0).Describes 0 response ↔
      ∀ idspace, response = .ata idspace →
        IsBlank ((devices 0).model 40) ∨ EndsWithoutBlank idspace := by
  cases response with
  | absent => exact iff_of_true rfl (fun _ h => nomatch h)
  | notAta => exact iff_of_true rfl (fun _ h => nomatch h)
  | ata idspace =>
      have hfound : ideIdentify devices 0 0 (.ata idspace) 0 =
          identified { devices 0 with present := 0 } 0 0 idspace := by
        simp only [ideIdentify, Nat.zero_mul, Nat.add_zero, Function.update_self]
      have hmodel := identified_model_iff { devices 0 with present := 0 } 0 0 idspace
      rw [hfound]
      constructor
      · rintro ⟨-, -, -, -, h⟩ _ ⟨⟩
        exact hmodel.mp h
      · intro h
        exact ⟨rfl, rfl, rfl, rfl, hmodel.mpr (h idspace rfl)⟩

/-- The loop of `ata_probe` finds the first drive if it is present. -/
theorem foundController_zero (read : Fin 4 → Nat → Option Mem) :
    foundController (identifyCalls responses devices 4) read 0 =
      respondedDrive (read 0) (responses 0) := by
  have hzero := identifyCalls_zero responses devices 3
  cases hresponse : responses 0 with
  | absent => rw [hresponse] at hzero; exact if_neg (fun h => h (congrArg IdeDev.present hzero))
  | notAta => rw [hresponse] at hzero; exact if_neg (fun h => h (congrArg IdeDev.present hzero))
  | ata idspace =>
      rw [hresponse] at hzero
      have hpresent : (identifyCalls responses devices 4 0).present = 1 :=
        congrArg IdeDev.present hzero
      have hsectors : (identifyCalls responses devices 4 0).sectors = identSectors idspace :=
        congrArg IdeDev.sectors hzero
      exact (if_pos (hpresent.trans_ne Nat.one_ne_zero)).trans
        (congrArg (fun n => some (Drive.mk n (read 0))) hsectors)

/-- It finds no other. -/
theorem foundController_pos (read : Fin 4 → Nat → Option Mem) {i : Fin 4} (hpos : i ≠ 0) :
    foundController (identifyCalls responses devices 4) read i = none :=
  if_neg (not_not.mpr (identifyCalls_present responses devices
    (Nat.pos_of_ne_zero (fun h => hpos (Fin.ext h))) i.isLt))

end

/-- **Which drives are found.**  For all responses of the drives and all previous contents of
the records, each record describes its drive, identifying a drive changes no other record and
the drives that are present are registered, exactly if no drive but the first one is found,
and the byte behind its name was blank or there are no blanks to cut off. -/
theorem discovers_iff (responses : Nat → DriveResponse) (devices : Nat → IdeDev)
    (minorBase : Nat) (read : Fin 4 → Nat → Option Mem) :
    Discovers responses devices minorBase read ↔ FirstAlone responses devices := by
  have hzero := identifyCalls_zero responses devices 3
  constructor
  · intro h
    refine ⟨fun i hpos hlt idspace hata => ?_, ?_⟩
    · have hdescribes := h.describes i hlt
      rw [hata] at hdescribes
      have habsent := identifyCalls_present responses devices hpos hlt
      exact absurd (habsent.symm.trans hdescribes.1) (by decide)
    · refine (ideIdentify_zero_describes_iff devices (responses 0)).mp ?_
      rw [← hzero]
      exact h.describes 0 (by decide)
  · intro h
    have hothers : ∀ i, 0 < i → i < 4 → (identifyCalls responses devices 4 i).present = 0 :=
      fun i hpos hlt => identifyCalls_present responses devices hpos hlt
    refine ⟨fun i hlt => ?_, fun n hlt i hne => ?_, ?_⟩
    · rcases Nat.eq_zero_or_pos i with rfl | hpos
      · rw [hzero]
        exact (ideIdentify_zero_describes_iff devices (responses 0)).mpr h.name
      · have hpresent := hothers i hpos hlt
        cases hresponse : responses i with
        | absent => exact hpresent
        | notAta => exact hpresent
        | ata idspace => exact absurd hresponse (h.others i hpos hlt idspace)
    · rcases Nat.eq_zero_or_pos n with rfl | hpos
      · rw [identifyCalls_succ responses devices hne, if_neg hne]
      · exact ideIdentify_of_not_ata _ _ _ (h.others n hpos hlt) (by omega)
    · have hnone : ∀ i : Fin 4, i ≠ 0 → respondedDrive (read i) (responses i) = none := by
        intro i hne
        have hpos : 1 ≤ i.val := Nat.pos_of_ne_zero (fun h => hne (Fin.ext h))
        cases hresponse : responses i with
        | absent => rfl
        | notAta => rfl
        | ata idspace => exact absurd hresponse (h.others i hpos i.isLt idspace)
      have hall : List.finRange 4 = [0, 1, 2, 3] := rfl
      simp only [registeredDrives, probed, hall, List.filterMap_cons, List.filterMap_nil,
        foundController_zero, foundController_pos responses devices read (i := 1) (by decide),
        foundController_pos responses devices read (i := 2) (by decide),
        hnone 1 (by decide), hnone 2 (by decide), hnone 3 (by decide), Option.map_none]
      rfl

/-- A machine with one drive, whose record was cleared before. -/
theorem discovers_first :
    Discovers (fun i => if i = 0 then .ata (fun k => UInt8.ofNat k) else .absent)
      (fun _ => ⟨0, 0, 0, 0, 0, 0, 0, 0, fun _ => 0⟩) 0 (fun _ _ => none) :=
  (discovers_iff _ _ 0 _).mpr
    { others := fun i hpos _ idspace h => by
        rw [if_neg (Nat.ne_of_gt hpos)] at h
        cases h
      name := fun _ _ => .inl (.inr rfl) }

/-- The second drive is described in the record of the third. -/
theorem second_drive_not_present : ¬ ∀ (responses : Nat → DriveResponse) (devices : Nat → IdeDev)
    (minorBase : Nat) (read : Fin 4 → Nat → Option Mem),
      Discovers responses devices minorBase read := by
  intro h
  have hdescribes := (h (fun _ => .ata fun _ => 1)
    (fun _ => ⟨0, 0, 0, 0, 0, 0, 0, 0, fun _ => 0⟩) 0 (fun _ _ => none)).describes 1 (by decide)
  exact absurd hdescribes.1 (by decide)

end UlmerOS
