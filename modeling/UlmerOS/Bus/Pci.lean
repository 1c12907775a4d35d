import UlmerOS.Lib.ByteMem

/-!
# Devices and drivers on the PCI bus

`bus/pci.c`, and `pci_read32` of `pc/pci.c`.  The configuration space is a function of the
address that is written to `CONFIG_ADDRESS`, and `left` is what is in the memory that `kmalloc`
returns for the records.  `pci_init` does not store to `driver`, so that a record begins with the
eight bytes that are there.

What a driver returns from `probe` may depend on everything that has been probed before.  The
probes are recorded in their order, with the index of the device.  Every call holds
`device_list_lock`, so that calls do not overlap.

`pci_binding_iff` says for which devices the drivers are probed and bound as they should be.
-/

namespace UlmerOS.Pci

open ByteMem

/-! ## Enumerating the bus -/

/-- `pci_idpair_t`. -/
structure PciIdpair where
  vendor : Nat
  device : Nat
deriving DecidableEq, Repr

/-- `pci_dev_t`. -/
structure PciDev where
  bus : Nat
  slot : Nat
  func : Nat
  id : PciIdpair
  driver : Nat
  driverData : Nat

/-- `pci_read32`. -/
def pciRead32 (config : Nat → Nat) (bus slot func offset : Nat) : Nat :=
  config (bus <<< 16 ||| slot <<< 11 ||| func <<< 8 ||| (offset &&& 0xfc) ||| 1 <<< 31) % 2 ^ 32

/-- `pci_read16`. -/
def pciRead16 (config : Nat → Nat) (bus slot func offset : Nat) : Nat :=
  pciRead32 config bus slot func offset >>> ((offset &&& 2) * 8) &&& 0xffff

/-- `pci_is_present`. -/
def pciIsPresent (config : Nat → Nat) (bus slot func : Nat) : Bool :=
  decide (pciRead16 config bus slot func 0 ≠ 0xffff)

/-- The functions that the loops of `pci_init` find. -/
def pciFunctions (config : Nat → Nat) : List (Nat × Nat × Nat) :=
  (List.range 256).flatMap fun bus => (List.range 32).flatMap fun slot =>
    if pciIsPresent config bus slot 0 then
      ((List.range 8).filter fun fnc => pciIsPresent config bus slot fnc).map fun fnc =>
        (bus, slot, fnc)
    else []

/-- The record of a function, in memory that holds `record`. -/
def newDev (config : Nat → Nat) (record : Mem) (bus slot fnc : Nat) : PciDev where
  bus := bus
  slot := slot
  func := fnc
  id := ⟨pciRead16 config bus slot fnc 0x00, pciRead16 config bus slot fnc 0x02⟩
  driver := load record 8 8
  driverData := load record 16 8

/-- `pci_init`: the devices in `device_list`. -/
def pciInit (config : Nat → Nat) (left : Nat → Mem) : List PciDev :=
  (pciFunctions config).mapIdx fun i (bus, slot, fnc) => newDev config (left i) bus slot fnc

/-! ## Registering a driver -/

/-- `pci_driver_t`.  The pairs in `devices` are different, and `{0, 0}` is behind them within 100
entries. -/
structure PciDriver where
  addr : Nat
  devices : List PciIdpair
  addr_ne : addr ≠ 0
  nodup : devices.Nodup
  no_end : ⟨0, 0⟩ ∉ devices
  length_lt : devices.length < 100

/-- `drv_info->devices[i]`, up to the end of the list. -/
def PciDriver.idpair (drv : PciDriver) (i : Nat) : PciIdpair := drv.devices.getD i ⟨0, 0⟩

/-- A call of `probe`. -/
structure Probe where
  /-- The index of the device. -/
  index : Nat
  drv : PciDriver
  ret : Nat

/-- What `probe` returns for a device, after the probes of a list. -/
abbrev ProbeFn := List Probe → PciDriver → PciDev → Nat

/-- `device->driver = drv_info`, if the probe returned data. -/
def PciDev.bindTo (device : PciDev) (drv : PciDriver) (drvData : Nat) : PciDev :=
  if drvData ≠ 0 then { device with driver := drv.addr, driverData := drvData } else device

/-- The inner loop of `pci_register_driver`, from entry `i` on. -/
def idLoop (probe : ProbeFn) (drv : PciDriver) (index : Nat) :
    Nat → Nat → PciDev → List Probe → PciDev × List Probe
  | 0, _, device, log => (device, log)
  | rounds + 1, i, device, log =>
      if drv.idpair i = ⟨0, 0⟩ then (device, log)
      else if device.id = drv.idpair i then
        let drvData := probe log drv device
        idLoop probe drv index rounds (i + 1) (device.bindTo drv drvData)
          (log ++ [⟨index, drv, drvData⟩])
      else idLoop probe drv index rounds (i + 1) device log

/-- The outer loop, from the device with an index on. -/
def deviceLoop (probe : ProbeFn) (drv : PciDriver) :
    Nat → List PciDev → List Probe → List PciDev × List Probe
  | _, [], log => ([], log)
  | index, device :: devices, log =>
      let (device, log) :=
        if device.driver ≠ 0 then (device, log) else idLoop probe drv index 100 0 device log
      let (devices, log) := deviceLoop probe drv (index + 1) devices log
      (device :: devices, log)

/-- `pci_register_driver`. -/
def pciRegisterDriver (probe : ProbeFn) (s : List PciDev × List Probe) (drv : PciDriver) :
    List PciDev × List Probe := deviceLoop probe drv 0 s.1 s.2

/-- `pci_init`, and the drivers register one after the other. -/
def pciRun (config : Nat → Nat) (left : Nat → Mem) (probe : ProbeFn) (drvs : List PciDriver) :
    List PciDev × List Probe := drvs.foldl (pciRegisterDriver probe) (pciInit config left, [])

/-! ## What should happen to a device -/

/-- The probes of a device: the driver and what it returned. -/
def probesOf (index : Nat) (log : List Probe) : List (PciDriver × Nat) :=
  (log.filter fun p => p.index = index).map fun p => (p.drv, p.ret)

/-- The drivers that list a pair. -/
def listing (id : PciIdpair) (drvs : List PciDriver) : List PciDriver :=
  drvs.filter fun drv => id ∈ drv.devices

/-- Each driver of a list is probed once, until one returns data, and the device is bound to that
one. -/
inductive Binds (device : PciDev) : List PciDriver → List (PciDriver × Nat) → Prop where
  /-- No driver is left. -/
  | unbound : Binds device [] []
  /-- A driver does not take the device. -/
  | failed {drv : PciDriver} {drvs : List PciDriver} {probes : List (PciDriver × Nat)} :
      Binds device drvs probes → Binds device (drv :: drvs) ((drv, 0) :: probes)
  /-- A driver takes the device. -/
  | bound {drv : PciDriver} {drvs : List PciDriver} {drvData : Nat} :
      drvData ≠ 0 → device.driver = drv.addr → device.driverData = drvData →
      Binds device (drv :: drvs) [(drv, drvData)]

/-- Without a probe no driver lists the device. -/
theorem binds_nil {device : PciDev} {drvs : List PciDriver} : Binds device drvs [] ↔ drvs = [] := by
  constructor
  · intro h
    cases h
    rfl
  · rintro rfl
    exact .unbound

/-! ## One registration -/

variable {probe : ProbeFn} {drv : PciDriver} {drvs : List PciDriver} {device device' : PciDev}
  {devices : List PciDev} {log : List Probe} {index : Nat} {probes : List (PciDriver × Nat)}

@[simp] theorem bindTo_id (device : PciDev) (drv : PciDriver) (drvData : Nat) :
    (device.bindTo drv drvData).id = device.id := by
  rw [PciDev.bindTo]
  split <;> rfl

theorem bindTo_zero (device : PciDev) (drv : PciDriver) : device.bindTo drv 0 = device :=
  if_neg fun h => h rfl

/-- The inner loop probes the driver once if it lists the pair, and not otherwise. -/
theorem idLoop_eq {rounds i : Nat} (hi : i ≤ drv.devices.length)
    (hrounds : drv.devices.length - i < rounds) :
    idLoop probe drv index rounds i device log =
      if device.id ∈ drv.devices.drop i then
        (device.bindTo drv (probe log drv device), log ++ [⟨index, drv, probe log drv device⟩])
      else (device, log) := by
  induction rounds generalizing i device log with
  | zero => exact absurd hrounds (Nat.not_lt_zero _)
  | succ rounds ih =>
      rcases Nat.lt_or_eq_of_le hi with hlt | rfl
      · have hpair : drv.idpair i = drv.devices[i] := List.getD_eq_getElem _ _ hlt
        have hnotend : drv.idpair i ≠ ⟨0, 0⟩ := by
          intro he
          exact drv.no_end (he ▸ hpair ▸ List.getElem_mem hlt)
        have hdrop : drv.devices.drop i = drv.idpair i :: drv.devices.drop (i + 1) := by
          rw [hpair]
          exact List.drop_eq_getElem_cons hlt
        have hmem : device.id ∈ drv.devices.drop i ↔
            device.id = drv.idpair i ∨ device.id ∈ drv.devices.drop (i + 1) := by
          rw [hdrop, List.mem_cons]
        rw [idLoop, if_neg hnotend]
        by_cases hid : device.id = drv.idpair i
        · -- the pair does not come again
          have hnodup := (List.drop_sublist i drv.devices).nodup drv.nodup
          rw [hdrop, List.nodup_cons, ← hid] at hnodup
          rw [if_pos hid, if_pos (hmem.mpr (.inl hid)), ih hlt (by omega), bindTo_id,
            if_neg hnodup.1]
        · rw [if_neg hid, ih hlt (by omega)]
          simp only [hmem, hid, false_or]
      · have hend : drv.idpair drv.devices.length = ⟨0, 0⟩ :=
          List.getD_eq_default _ _ (Nat.le_refl _)
        rw [idLoop, if_pos hend, List.drop_length, if_neg List.not_mem_nil]

/-- What one registration does to a device: its record afterwards, and its probes. -/
inductive Turn (drv : PciDriver) (device : PciDev) :
    PciDev → List (PciDriver × Nat) → Prop where
  | skip : device.driver ≠ 0 ∨ device.id ∉ drv.devices → Turn drv device device []
  | probe (drvData : Nat) : device.driver = 0 → device.id ∈ drv.devices →
      Turn drv device (device.bindTo drv drvData) [(drv, drvData)]

theorem probesOf_append (index : Nat) (log log' : List Probe) :
    probesOf index (log ++ log') = probesOf index log ++ probesOf index log' := by
  rw [probesOf, List.filter_append, List.map_append]
  rfl

/-- The turn of one device in the outer loop. -/
theorem turn_of_loop (probe : ProbeFn) (drv : PciDriver) (index : Nat) (device : PciDev)
    (log : List Probe) :
    ∃ device' new, (if device.driver ≠ 0 then (device, log)
        else idLoop probe drv index 100 0 device log) = (device', log ++ new) ∧
      Turn drv device device' (probesOf index new) ∧ ∀ i ≠ index, probesOf i new = [] := by
  by_cases hbound : device.driver ≠ 0
  · rw [if_pos hbound]
    exact ⟨device, [], by rw [List.append_nil], .skip (.inl hbound), fun _ _ => rfl⟩
  · rw [if_neg hbound, idLoop_eq (Nat.zero_le _) drv.length_lt, List.drop_zero]
    by_cases hid : device.id ∈ drv.devices
    · rw [if_pos hid]
      refine ⟨_, [⟨index, drv, probe log drv device⟩], rfl, ?_, fun i hi => ?_⟩
      · have hprobes : probesOf index [⟨index, drv, probe log drv device⟩] =
            [(drv, probe log drv device)] := by simp [probesOf]
        rw [hprobes]
        exact .probe _ (not_not.mp hbound) hid
      · simp [probesOf, Ne.symm hi]
    · rw [if_neg hid]
      exact ⟨device, [], by rw [List.append_nil], .skip (.inr hid), fun _ _ => rfl⟩

/-- The loop does not come back to the devices before. -/
theorem deviceLoop_before {i : Nat} (hi : i < index) :
    probesOf i (deviceLoop probe drv index devices log).2 = probesOf i log := by
  induction devices generalizing index log with
  | nil => rfl
  | cons first devices ih =>
      obtain ⟨first', added, hfirst, -, hothers⟩ := turn_of_loop probe drv index first log
      rw [deviceLoop]
      simp only [hfirst]
      rw [ih (Nat.lt_succ_of_lt hi), probesOf_append, hothers i (Nat.ne_of_lt hi),
        List.append_nil]

/-- Every device has its turn, and nothing else is probed for it. -/
theorem deviceLoop_turn (probe : ProbeFn) (drv : PciDriver) (index : Nat) (log : List Probe)
    {i : Nat} (hdevice : devices[i]? = some device) :
    ∃ device' new, (deviceLoop probe drv index devices log).1[i]? = some device' ∧
      Turn drv device device' new ∧
      probesOf (index + i) (deviceLoop probe drv index devices log).2 =
        probesOf (index + i) log ++ new := by
  induction devices generalizing index log i with
  | nil => cases hdevice
  | cons first devices ih =>
      obtain ⟨first', added, hfirst, hturn, hothers⟩ := turn_of_loop probe drv index first log
      rw [deviceLoop]
      simp only [hfirst]
      cases i with
      | zero =>
          obtain rfl := Option.some.inj hdevice
          refine ⟨first', _, rfl, hturn, ?_⟩
          rw [Nat.add_zero, deviceLoop_before (Nat.lt_succ_self index), probesOf_append]
      | succ i =>
          obtain ⟨device', new, hget, hturn', hprobes⟩ :=
            ih (index + 1) (log ++ added) hdevice
          refine ⟨device', new, hget, hturn', ?_⟩
          rw [Nat.add_right_comm] at hprobes
          rw [← Nat.add_assoc, hprobes, probesOf_append, hothers _ (by omega), List.append_nil]

/-! ## All registrations -/

/-- What a sequence of registrations does to a device. -/
inductive Turns : List PciDriver → PciDev → PciDev → List (PciDriver × Nat) → Prop where
  | nil {device : PciDev} : Turns [] device device []
  | cons {drv : PciDriver} {drvs : List PciDriver} {device device1 device2 : PciDev}
      {new probes : List (PciDriver × Nat)} :
      Turn drv device device1 new → Turns drvs device1 device2 probes →
      Turns (drv :: drvs) device device2 (new ++ probes)

/-- Every device has its turn in every registration. -/
theorem turns_of_run (probe : ProbeFn) (drvs : List PciDriver) (s : List PciDev × List Probe)
    {i : Nat} (hdevice : s.1[i]? = some device) :
    ∃ device' probes, (drvs.foldl (pciRegisterDriver probe) s).1[i]? = some device' ∧
      Turns drvs device device' probes ∧
      probesOf i (drvs.foldl (pciRegisterDriver probe) s).2 = probesOf i s.2 ++ probes := by
  induction drvs generalizing s device with
  | nil => exact ⟨device, [], hdevice, .nil, (List.append_nil _).symm⟩
  | cons drv drvs ih =>
      obtain ⟨device1, new, hget, hturn, hnew⟩ := deviceLoop_turn probe drv 0 s.2 hdevice
      obtain ⟨device2, probes, hget2, hturns, hprobes⟩ := ih (pciRegisterDriver probe s drv) hget
      refine ⟨device2, new ++ probes, hget2, .cons hturn hturns, ?_⟩
      rw [Nat.zero_add] at hnew
      rw [List.foldl_cons, hprobes, pciRegisterDriver, hnew, List.append_assoc]

/-- A device whose record has a driver is left alone. -/
theorem Turns.eq_of_driver (h : Turns drvs device device' probes) (hdriver : device.driver ≠ 0) :
    device' = device ∧ probes = [] := by
  induction h with
  | nil => exact ⟨rfl, rfl⟩
  | cons hturn _ ih =>
      cases hturn with
      | skip => exact ih hdriver
      | probe _ hzero _ => exact absurd hzero hdriver

/-- A device whose record has no driver is probed and bound as it should be. -/
theorem Turns.binds (h : Turns drvs device device' probes) (hzero : device.driver = 0) :
    Binds device' (listing device.id drvs) probes := by
  induction h with
  | nil => exact .unbound
  | @cons drv drvs device device1 device2 new probes hturn hturns ih =>
      cases hturn with
      | skip hskip =>
          have hid : device.id ∉ drv.devices := hskip.resolve_left (not_not.mpr hzero)
          rw [listing, List.filter_cons_of_neg (by simpa using hid)]
          exact ih hzero
      | probe drvData _ hid =>
          rw [listing, List.filter_cons_of_pos (by simpa using hid), List.singleton_append]
          by_cases hdata : drvData = 0
          · subst hdata
            rw [bindTo_zero] at ih
            exact .failed (ih hzero)
          · -- the device has a driver from now on
            have hbind : device.bindTo drv drvData =
                { device with driver := drv.addr, driverData := drvData } := if_pos hdata
            rw [hbind] at hturns
            obtain ⟨rfl, rfl⟩ := hturns.eq_of_driver drv.addr_ne
            exact .bound hdata rfl rfl

section Run

variable (config : Nat → Nat) (left : Nat → Mem) (probe : ProbeFn) (drvs : List PciDriver)

/-- A device whose record comes with a driver is never probed. -/
theorem run_of_driver {i : Nat} (hdevice : (pciInit config left)[i]? = some device)
    (hdriver : device.driver ≠ 0) :
    (pciRun config left probe drvs).1[i]? = some device ∧
      probesOf i (pciRun config left probe drvs).2 = [] := by
  obtain ⟨device', probes, hget, hturns, hprobes⟩ :=
    turns_of_run probe drvs (pciInit config left, []) hdevice
  obtain ⟨rfl, rfl⟩ := hturns.eq_of_driver hdriver
  exact ⟨hget, hprobes⟩

/-- A device whose record comes without a driver is probed and bound as it should be. -/
theorem run_of_null {i : Nat} (hdevice : (pciInit config left)[i]? = some device)
    (hzero : device.driver = 0) :
    ∃ device', (pciRun config left probe drvs).1[i]? = some device' ∧
      Binds device' (listing device.id drvs) (probesOf i (pciRun config left probe drvs).2) := by
  obtain ⟨device', probes, hget, hturns, hprobes⟩ :=
    turns_of_run probe drvs (pciInit config left, []) hdevice
  rw [pciRun, hprobes]
  exact ⟨device', hget, hturns.binds hzero⟩

/-- Whatever functions are present and whatever drivers register, a device of the list is probed
once by every driver that lists it, until one takes it and the device is bound to that one,
exactly if there was a null pointer where `driver` is in the memory of its record, or no driver
lists it. -/
theorem pci_binding_iff {i : Nat} (hi : i < (pciInit config left).length) :
    ∃ device device', (pciInit config left)[i]? = some device ∧
      (pciRun config left probe drvs).1[i]? = some device' ∧
      (Binds device' (listing device.id drvs)
          (probesOf i (pciRun config left probe drvs).2) ↔
        load (left i) 8 8 = 0 ∨ listing device.id drvs = []) := by
  have hdevice : (pciInit config left)[i]? = some (pciInit config left)[i] :=
    List.getElem?_eq_getElem hi
  have hdriver : (pciInit config left)[i].driver = load (left i) 8 8 := by
    simp only [pciInit, List.getElem_mapIdx, newDev]
  rw [← hdriver]
  by_cases hzero : (pciInit config left)[i].driver = 0
  · obtain ⟨device', hget, hbinds⟩ := run_of_null config left probe drvs hdevice hzero
    exact ⟨_, device', hdevice, hget, iff_of_true hbinds (.inl hzero)⟩
  · obtain ⟨hget, hprobes⟩ := run_of_driver config left probe drvs hdevice hzero
    refine ⟨_, _, hdevice, hget, ?_⟩
    rw [hprobes, binds_nil]
    exact (or_iff_right hzero).symm

end Run

/-! ## A disk controller -/

/-- A bus with one function, `0:0.0`. -/
def oneFunction (address : Nat) : Nat :=
  if address &&& 0x7fffff00 = 0 then 0x70108086 else 0xffffffff

/-- A driver for it. -/
def diskDriver : PciDriver where
  addr := 0x1000
  devices := [⟨0x8086, 0x7111⟩, ⟨0x8086, 0x7010⟩]
  addr_ne := by decide
  nodup := by decide
  no_end := by decide
  length_lt := by decide

theorem oneFunction_init (left : Nat → Mem) :
    pciInit oneFunction left = [newDev oneFunction (left 0) 0 0 0] := by
  have hfunctions : pciFunctions oneFunction = [(0, 0, 0)] := by decide +kernel
  rw [pciInit, hfunctions]
  rfl

/-- In cleared memory the driver is bound to the function. -/
theorem pci_binding_iff_cleared : ∃ device device',
    (pciInit oneFunction fun _ _ => 0)[0]? = some device ∧
    (pciRun oneFunction (fun _ _ => 0) (fun _ _ _ => 0x42) [diskDriver]).1[0]? = some device' ∧
    Binds device' (listing device.id [diskDriver])
      (probesOf 0 (pciRun oneFunction (fun _ _ => 0) (fun _ _ _ => 0x42) [diskDriver]).2) := by
  obtain ⟨device, device', hdevice, hget, hiff⟩ :=
    pci_binding_iff oneFunction (fun _ _ => 0) (fun _ _ _ => 0x42) [diskDriver] (i := 0)
      (by rw [oneFunction_init]; exact Nat.one_pos)
  have hnull : load (fun _ => 0) 8 8 = 0 := load_zero fun _ _ _ => rfl
  exact ⟨device, device', hdevice, hget, hiff.mpr (.inl hnull)⟩

/-- In memory that was used before, the function is never probed. -/
theorem used_memory_not_probed : ∃ device device',
    (pciInit oneFunction fun _ _ => 1)[0]? = some device ∧
    (pciRun oneFunction (fun _ _ => 1) (fun _ _ _ => 0x42) [diskDriver]).1[0]? = some device' ∧
    probesOf 0 (pciRun oneFunction (fun _ _ => 1) (fun _ _ _ => 0x42) [diskDriver]).2 = [] ∧
    ¬ Binds device' (listing device.id [diskDriver])
      (probesOf 0 (pciRun oneFunction (fun _ _ => 1) (fun _ _ _ => 0x42) [diskDriver]).2) := by
  have hdevice : (pciInit oneFunction fun _ _ => 1)[0]? =
      some (newDev oneFunction (fun _ => 1) 0 0 0) := by
    rw [oneFunction_init]
    exact List.getElem?_cons_zero
  have hdriver : load (fun _ => 1) 8 8 ≠ 0 := by decide +kernel
  have hlisting : listing (newDev oneFunction (fun _ => 1) 0 0 0).id [diskDriver] =
      [diskDriver] := List.filter_cons_of_pos (by decide)
  obtain ⟨hget, hprobes⟩ := run_of_driver oneFunction (fun _ _ => 1) (fun _ _ _ => 0x42)
    [diskDriver] hdevice hdriver
  refine ⟨_, _, hdevice, hget, hprobes, ?_⟩
  rw [hprobes, binds_nil, hlisting]
  exact List.cons_ne_nil _ _

end UlmerOS.Pci
