import UlmerOS.Lib.ByteMem
import UlmerOS.Util.LinkedList

/-!
# A mutex in memory

`mutex_init`, `mutex_lock` and `mutex_unlock` (`sched/mutex.c`) and `spin_init`
(`sched/spinlock.c`) on the bytes of the mutex, for the objects of the kernel heap that
contain one.  One task runs, so that a lock that is taken stays so.

A mutex that was never initialised is what the memory held.  The assertions of the debug
build look at its magic numbers.  The release build takes the words for what they are: one
that is not zero is a lock that nobody gives back, and a list that is not empty is a pointer
to a task that is none.
-/

namespace UlmerOS

open ByteMem

/-! ## The functions -/

/-- `MUTEX_MAGIC` and `SPIN_MAGIC`. -/
def mutexMagic : Nat := 0xdeadbeef
def spinMagic : Nat := 0xdead0ff0

/-- The message of the assertions in `mutex_init` and in `spin_init`. -/
def alreadyInitialized : String := "mutex_init(): mutex already initialized"

/-- `list_init`. -/
def initList (mem : Mem) (list : Nat) : Mem :=
  store (store (store (store mem (list + 16) 8 0) (list + 24) 8 0) list 8 0) (list + 8) 8
    LinkedList.listMagic

/-- `spin_init`.  It compares with the magic number of a mutex. -/
def spinInit (debug : Bool) (mem : Mem) (spin : Nat) : Outcome Mem :=
  if debug = true ∧ (spin = 0 ∨ load mem (spin + 8) 8 = mutexMagic) then .panic alreadyInitialized
  else .ret (store (store mem spin 8 0) (spin + 8) 8 spinMagic)

/-- The condition under which `mutex_init` takes a mutex for an initialised one. -/
def MutexInitialized (mem : Mem) (mtx : Nat) : Prop :=
  mtx = 0 ∨ load mem (mtx + 8) 8 = mutexMagic

instance (mem : Mem) (mtx : Nat) : Decidable (MutexInitialized mem mtx) :=
  inferInstanceAs (Decidable (_ ∨ _))

/-- The stores of `mutex_init` before `spin_init`. -/
def clearMutex (mem : Mem) (mtx : Nat) : Mem :=
  initList (store (store (store mem (mtx + 8) 8 mutexMagic) mtx 8 0) (mtx + 64) 8 0) (mtx + 16)

/-- `mutex_init`. -/
def mutexInit (debug : Bool) (mem : Mem) (mtx : Nat) : Outcome Mem :=
  if debug = true ∧ MutexInitialized mem mtx then .panic alreadyInitialized
  else spinInit debug (clearMutex mem mtx) (mtx + 48)

/-- `mutex_lock`. -/
def mutexLock (debug : Bool) (mem : Mem) (mtx current : Nat) : Outcome Mem :=
  if debug = true ∧ load mem (mtx + 8) 8 ≠ mutexMagic then
    .panic "mutex_t uninitialized or corrupt"
  else if debug = true ∧ load mem mtx 8 ≠ 0 then .panic "mutex already acquired"
  else if load mem mtx 8 ≠ 0 then .blocked
  else .ret (store (store mem mtx 8 1) (mtx + 64) 8 current)

/-- The stores of `mutex_unlock` before it takes the spinlock. -/
def releaseMutex (mem : Mem) (mtx : Nat) : Mem := store (store mem (mtx + 64) 8 0) mtx 8 0

/-- `mutex_unlock`.  No task is asleep in the list of the mutex, so that one that is there is
not a task. -/
def mutexUnlock (debug : Bool) (mem : Mem) (mtx current : Nat) : Outcome Mem :=
  if debug = true ∧ load mem (mtx + 8) 8 ≠ mutexMagic then
    .panic "mutex_t uninitialized or corrupt"
  else if debug = true ∧ load mem mtx 8 = 0 then .panic "mutex released but not locked"
  else if debug = true ∧ load mem (mtx + 64) 8 ≠ current then
    .panic "mutex released by other task"
  else if debug = true ∧ load (releaseMutex mem mtx) (mtx + 56) 8 ≠ spinMagic then
    .panic "spin_t uninitialized or corrupt"
  else if load (releaseMutex mem mtx) (mtx + 48) 8 ≠ 0 then .blocked
  else if debug = true ∧ load (releaseMutex mem mtx) (mtx + 24) 8 ≠ LinkedList.listMagic then
    .panic "list is invalid or corrupt"
  else if load (releaseMutex mem mtx) (mtx + 16) 8 ≠ 0 then .fault
  else .ret (store (store (releaseMutex mem mtx) (mtx + 48) 8 1) (mtx + 48) 8 0)

/-! ## What they write -/

variable {debug : Bool} {mem mem' : Mem} {mtx current : Nat}

/-- `mutex_init` writes to the mutex, and the magic number is one of the things it writes. -/
theorem mutexInit_ret (hret : mutexInit debug mem mtx = .ret mem') :
    (∀ x, x < mtx ∨ mtx + 72 ≤ x → mem' x = mem x) ∧
      ∀ j < 8, mem' (mtx + 8 + j) = UInt8.ofNat (mutexMagic / 256 ^ j) := by
  rw [mutexInit] at hret
  split at hret
  · cases hret
  rw [spinInit] at hret
  split at hret
  · cases hret
  cases hret
  refine ⟨fun x hx => ?_, fun j hj => ?_⟩
  · simp only [clearMutex, initList]
    iterate 9 rw [store_of_not_mem (by omega)]
  · simp only [clearMutex, initList]
    iterate 8 rw [store_of_not_mem (by omega)]
    rw [store, if_pos ⟨by omega, by omega⟩, Nat.add_sub_cancel_left]

/-- `mutex_init` returns if neither magic number is that of a mutex. -/
theorem mutexInit_returns (hno : ¬ MutexInitialized mem mtx)
    (hspin : load mem (mtx + 56) 8 ≠ mutexMagic) : ∃ mem', mutexInit debug mem mtx = .ret mem' := by
  have hload : load (clearMutex mem mtx) (mtx + 48 + 8) 8 = load mem (mtx + 56) 8 := by
    simp only [clearMutex, initList]
    iterate 7 rw [load_store_of_disjoint (by omega)]
  rw [mutexInit, if_neg (fun hc => hno hc.2), spinInit, hload,
    if_neg (fun hc => hc.2.elim (by omega) hspin)]
  exact ⟨_, rfl⟩

theorem mutexInit_release (mem : Mem) (mtx : Nat) :
    ∃ mem', mutexInit false mem mtx = .ret mem' := ⟨_, rfl⟩

theorem mutexLock_ret (hret : mutexLock debug mem mtx current = .ret mem')
    (x : Nat) (hx : x < mtx ∨ (mtx + 8 ≤ x ∧ x < mtx + 64) ∨ mtx + 72 ≤ x) : mem' x = mem x := by
  simp only [mutexLock] at hret
  split at hret
  · cases hret
  split at hret
  · cases hret
  split at hret
  · cases hret
  cases hret
  rw [store_of_not_mem (by omega), store_of_not_mem (by omega)]

/-- `mutex_unlock` needs a spinlock that is free and a list that is empty, and in the debug
build the three magic numbers and the task that took the lock. -/
structure Unlockable (debug : Bool) (mem : Mem) (mtx current : Nat) : Prop where
  spin : load mem (mtx + 48) 8 = 0
  empty : load mem (mtx + 16) 8 = 0
  magic : debug = true → load mem (mtx + 8) 8 = mutexMagic
  locked : debug = true → load mem mtx 8 ≠ 0
  held : debug = true → load mem (mtx + 64) 8 = current
  spinMagic : debug = true → load mem (mtx + 56) 8 = UlmerOS.spinMagic
  listMagic : debug = true → load mem (mtx + 24) 8 = LinkedList.listMagic

/-- The stores before the spinlock is taken are to the lock and to `held_by`. -/
theorem load_releaseMutex {n : Nat} (h8 : 8 ≤ n) (h64 : n + 8 ≤ 64) :
    load (releaseMutex mem mtx) (mtx + n) 8 = load mem (mtx + n) 8 := by
  rw [releaseMutex, load_store_of_disjoint (by omega), load_store_of_disjoint (by omega)]

theorem mutexUnlock_eq_of_unlockable (h : Unlockable debug mem mtx current) :
    mutexUnlock debug mem mtx current =
      .ret (store (store (releaseMutex mem mtx) (mtx + 48) 8 1) (mtx + 48) 8 0) := by
  simp only [mutexUnlock, load_releaseMutex (n := 16) (by omega) (by omega),
    load_releaseMutex (n := 24) (by omega) (by omega),
    load_releaseMutex (n := 48) (by omega) (by omega),
    load_releaseMutex (n := 56) (by omega) (by omega)]
  rw [if_neg fun hc => hc.2 (h.magic hc.1), if_neg fun hc => h.locked hc.1 hc.2,
    if_neg fun hc => hc.2 (h.held hc.1), if_neg fun hc => hc.2 (h.spinMagic hc.1),
    if_neg fun hc => hc h.spin, if_neg fun hc => hc.2 (h.listMagic hc.1),
    if_neg fun hc => hc h.empty]

/-- `mutex_unlock` returns only then. -/
theorem unlockable_of_mutexUnlock (h : mutexUnlock debug mem mtx current = .ret mem') :
    Unlockable debug mem mtx current := by
  simp only [mutexUnlock, load_releaseMutex (n := 16) (by omega) (by omega),
    load_releaseMutex (n := 24) (by omega) (by omega),
    load_releaseMutex (n := 48) (by omega) (by omega),
    load_releaseMutex (n := 56) (by omega) (by omega)] at h
  split at h
  · cases h
  next hmagic =>
  split at h
  · cases h
  next hlocked =>
  split at h
  · cases h
  next hheld =>
  split at h
  · cases h
  next hspin =>
  split at h
  · cases h
  next hfree =>
  split at h
  · cases h
  next hlist =>
  split at h
  · cases h
  next hempty =>
  exact ⟨not_not.mp hfree, not_not.mp hempty, fun hd => not_not.mp fun hc => hmagic ⟨hd, hc⟩,
    fun hd hc => hlocked ⟨hd, hc⟩, fun hd => not_not.mp fun hc => hheld ⟨hd, hc⟩,
    fun hd => not_not.mp fun hc => hspin ⟨hd, hc⟩, fun hd => not_not.mp fun hc => hlist ⟨hd, hc⟩⟩

theorem mutexUnlock_ret (hret : mutexUnlock debug mem mtx current = .ret mem')
    (x : Nat) (hx : x < mtx ∨ (mtx + 8 ≤ x ∧ x < mtx + 16) ∨ mtx + 72 ≤ x) : mem' x = mem x := by
  rw [mutexUnlock_eq_of_unlockable (unlockable_of_mutexUnlock hret)] at hret
  cases hret
  rw [store_of_not_mem (by omega), store_of_not_mem (by omega), releaseMutex,
    store_of_not_mem (by omega), store_of_not_mem (by omega)]

/-! ## Taking it and giving it back -/

/-- The words of a mutex that is free, as the build looks at them. -/
structure FreeMutex (debug : Bool) (mem : Mem) (mtx : Nat) : Prop where
  lock : load mem mtx 8 = 0
  spin : load mem (mtx + 48) 8 = 0
  empty : load mem (mtx + 16) 8 = 0
  magic : debug = true → load mem (mtx + 8) 8 = mutexMagic
  spinMagic : debug = true → load mem (mtx + 56) 8 = UlmerOS.spinMagic
  listMagic : debug = true → load mem (mtx + 24) 8 = LinkedList.listMagic

theorem mutexLock_returns_iff :
    (∃ mem', mutexLock debug mem mtx current = .ret mem') ↔
      load mem mtx 8 = 0 ∧ (debug = true → load mem (mtx + 8) 8 = mutexMagic) := by
  constructor
  · rintro ⟨mem', h⟩
    rw [mutexLock] at h
    split at h
    · cases h
    next hmagic =>
    split at h
    · cases h
    split at h
    · cases h
    next hlock =>
    exact ⟨not_not.mp hlock, fun hd => not_not.mp fun hc => hmagic ⟨hd, hc⟩⟩
  · rintro ⟨hlock, hmagic⟩
    rw [mutexLock, if_neg fun hc => hc.2 (hmagic hc.1), if_neg fun hc => hc.2 hlock,
      if_neg fun hc => hc hlock]
    exact ⟨_, rfl⟩

/-- What `mutex_lock` leaves. -/
theorem mutexLock_eq (hret : mutexLock debug mem mtx current = .ret mem') :
    mem' = store (store mem mtx 8 1) (mtx + 64) 8 current := by
  rw [mutexLock] at hret
  split at hret
  · cases hret
  split at hret
  · cases hret
  split at hret
  · cases hret
  · exact (Outcome.ret.inj hret).symm

/-- The task that took the mutex can give it back, if the rest of it is in order. -/
theorem unlockable_locked_iff (hcurrent : current < word) :
    Unlockable debug (store (store mem mtx 8 1) (mtx + 64) 8 current) mtx current ↔
      load mem (mtx + 48) 8 = 0 ∧ load mem (mtx + 16) 8 = 0 ∧
        (debug = true → load mem (mtx + 8) 8 = mutexMagic ∧
          load mem (mtx + 56) 8 = UlmerOS.spinMagic ∧
          load mem (mtx + 24) 8 = LinkedList.listMagic) := by
  have hrest : ∀ n, 8 ≤ n → n + 8 ≤ 64 →
      load (store (store mem mtx 8 1) (mtx + 64) 8 current) (mtx + n) 8 = load mem (mtx + n) 8 := by
    intro n h8 h64
    rw [load_store_of_disjoint (by omega), load_store_of_disjoint (by omega)]
  have hlock : load (store (store mem mtx 8 1) (mtx + 64) 8 current) mtx 8 = 1 := by
    rw [load_store_of_disjoint (by omega)]
    exact load_store (by decide)
  have hheld : load (store (store mem mtx 8 1) (mtx + 64) 8 current) (mtx + 64) 8 = current :=
    load_store hcurrent
  constructor
  · intro h
    have hspin := h.spin
    have hempty := h.empty
    rw [hrest 48 (by omega) (by omega)] at hspin
    rw [hrest 16 (by omega) (by omega)] at hempty
    refine ⟨hspin, hempty, fun hd => ?_⟩
    have hmagic := h.magic hd
    have hspinMagic := h.spinMagic hd
    have hlistMagic := h.listMagic hd
    rw [hrest 8 (by omega) (by omega)] at hmagic
    rw [hrest 56 (by omega) (by omega)] at hspinMagic
    rw [hrest 24 (by omega) (by omega)] at hlistMagic
    exact ⟨hmagic, hspinMagic, hlistMagic⟩
  · rintro ⟨hspin, hempty, hmagic⟩
    refine ⟨?_, ?_, fun hd => ?_, fun _ => ?_, fun _ => hheld, fun hd => ?_, fun hd => ?_⟩
    · rw [hrest 48 (by omega) (by omega)]
      exact hspin
    · rw [hrest 16 (by omega) (by omega)]
      exact hempty
    · rw [hrest 8 (by omega) (by omega)]
      exact (hmagic hd).1
    · rw [hlock]
      decide
    · rw [hrest 56 (by omega) (by omega)]
      exact (hmagic hd).2.1
    · rw [hrest 24 (by omega) (by omega)]
      exact (hmagic hd).2.2

/-- A task takes a mutex and gives it back exactly if it was free. -/
theorem lock_unlock_returns_iff (hcurrent : current < word) :
    (∃ mem1 mem2, mutexLock debug mem mtx current = .ret mem1 ∧
      mutexUnlock debug mem1 mtx current = .ret mem2) ↔ FreeMutex debug mem mtx := by
  constructor
  · rintro ⟨mem1, mem2, hlock, hunlock⟩
    obtain ⟨hfree, -⟩ := mutexLock_returns_iff.mp ⟨mem1, hlock⟩
    obtain rfl := mutexLock_eq hlock
    obtain ⟨hspin, hempty, hmagic⟩ :=
      (unlockable_locked_iff hcurrent).mp (unlockable_of_mutexUnlock hunlock)
    exact ⟨hfree, hspin, hempty, fun hd => (hmagic hd).1, fun hd => (hmagic hd).2.1,
      fun hd => (hmagic hd).2.2⟩
  · intro h
    have hlocks : ∃ mem1, mutexLock debug mem mtx current = .ret mem1 :=
      mutexLock_returns_iff.mpr ⟨h.lock, h.magic⟩
    obtain ⟨mem1, hlock⟩ := hlocks
    obtain rfl := mutexLock_eq hlock
    have hunlock : Unlockable debug _ mtx current := (unlockable_locked_iff hcurrent).mpr
      ⟨h.spin, h.empty, fun hd => ⟨h.magic hd, h.spinMagic hd, h.listMagic hd⟩⟩
    exact ⟨_, _, hlock, mutexUnlock_eq_of_unlockable hunlock⟩

/-! ## Magic numbers -/

/-- One byte decides that a word is not the magic number. -/
theorem load_ne_mutexMagic {a : Nat} (h : mem (a + 3) = 0) : load mem a 8 ≠ mutexMagic := by
  have hload : load mem a 8 = (mem a).toNat + 256 * ((mem (a + 1)).toNat +
      256 * ((mem (a + 2)).toNat + 256 * ((mem (a + 3)).toNat + 256 * load mem (a + 4) 4))) := rfl
  have h0 := (mem a).toNat_lt
  have h1 := (mem (a + 1)).toNat_lt
  have h2 := (mem (a + 2)).toNat_lt
  have h3 : (mem (a + 3)).toNat = 0 := by
    rw [h]
    rfl
  rw [hload, h3, mutexMagic]
  omega

end UlmerOS
