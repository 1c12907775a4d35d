import UlmerOS.Fs.BlockIo
import UlmerOS.Sched.MutexMemory

/-!
# The bounds of a ramdisk

`initrd_read` and `initrd_write` of `fs/ramdisk.c`, with the bytes of the ramdisk that they
copy.  The count is cut off where `lba + count` is behind the end.  Both the sum and the
difference are of 64 bits.

If the sum wraps it is not behind the end, and the count stays as it is.  If `lba` is behind
the end the difference is negative, and it is taken for a count.  In both cases the number of
bytes is one modulo `2^64`, so that nothing is copied exactly if `2^55` divides the blocks.

`initrd_write` takes `rd_lock`, which `ramdisk_install` does not initialise.  It returns only
if the memory that `kmalloc` gave for the `rd_t` reads as a mutex that is free.
-/

namespace UlmerOS

open ByteMem
open BlockDev (Ramdisk)

/-! ## Devices -/

/-- What a call of a driver leaves: its result, the buffer and the device. -/
structure BdResult (σ : Type) where
  ret : Int
  buffer : Mem
  device : σ

/-- `bd_ops` of a device with a state. -/
structure BdDriverOps (σ : Type) where
  readblk : σ → Mem → Nat → Nat → BdResult σ
  writeblk : σ → Mem → Nat → Nat → BdResult σ

/-- A device stores and returns blocks, up to its capacity. -/
structure StoresBlocks {σ : Type} (ops : BdDriverOps σ) (contents : σ → Mem)
    (capacity : Nat) : Prop where
  readKeeps : ∀ s buffer count lba, lba + count ≤ capacity →
    contents (ops.readblk s buffer count lba).device = contents s
  readReturns : ∀ s buffer count lba, lba + count ≤ capacity → ∀ i < count * 512,
    (ops.readblk s buffer count lba).buffer i = contents s (lba * 512 + i)
  writeStores : ∀ s buffer count lba, lba + count ≤ capacity → ∀ x < capacity * 512,
    contents (ops.writeblk s buffer count lba).device x =
      if lba * 512 ≤ x ∧ x < (lba + count) * 512 then buffer (x - lba * 512) else contents s x

/-- What was written to such a device is read. -/
theorem StoresBlocks.round_trip {σ : Type} {ops : BdDriverOps σ} {contents : σ → Mem}
    {capacity : Nat} (h : StoresBlocks ops contents capacity) (s : σ) (data buffer : Mem)
    {count lba : Nat} (hspan : lba + count ≤ capacity) {i : Nat} (hi : i < count * 512) :
    (ops.readblk (ops.writeblk s data count lba).device buffer count lba).buffer i = data i := by
  rw [h.readReturns _ _ _ _ hspan i hi, h.writeStores _ _ _ _ hspan _ (by omega),
    if_pos ⟨by omega, by omega⟩, Nat.add_sub_cancel_left]

/-! ## What is copied -/

/-- The `memcpy` of a transfer: where it starts on the ramdisk, and how many bytes it copies. -/
structure InitrdCopy where
  start : Nat
  bytes : Nat

/-- The `memcpy` of `initrd_read` and of `initrd_write`. -/
def initrdCopy (rd : Ramdisk) (count lba : Nat) : InitrdCopy where
  start := wrap64 (lba * 512)
  bytes := wrap64 (initrdCount rd count lba * 512)

/-- Where a byte of the transfer stands on the ramdisk. -/
def InitrdCopy.offset (c : InitrdCopy) (i : Nat) : Nat := wrap64 (c.start + i)

/-- The bytes of the ramdisk after `initrd_write`. -/
def initrdStored (rd : Ramdisk) (buffer : Mem) (count lba : Nat) : Mem := fun x =>
  let c := initrdCopy rd count lba
  let i := wrap64 (x + word - c.start)
  if i < c.bytes then buffer i else rd.bytes x

/-- `initrd_read` is its `memcpy`. -/
theorem initrdRead_eq (rd : Ramdisk) (buffer : Mem) (count lba : Nat) :
    initrdRead rd buffer count lba =
      let c := initrdCopy rd count lba
      ⟨toSsize c.bytes, fun i => if i < c.bytes then rd.bytes (c.offset i) else buffer i,
        c.bytes⟩ := by
  have hoffset : ∀ i, (initrdCopy rd count lba).offset i = wrap64 (lba * 512 + i) := fun i =>
    Nat.mod_add_mod (lba * 512) word i
  simp only [hoffset]
  rfl

/-- What is copied does not depend on the bytes of the ramdisk. -/
theorem initrdStored_eq (rd : Ramdisk) (bytes buffer : Mem) (count lba x : Nat) :
    initrdStored { rd with bytes := bytes } buffer count lba x =
      let i := wrap64 (x + word - (initrdCopy rd count lba).start)
      if i < (initrdCopy rd count lba).bytes then buffer i else bytes x := rfl

theorem initrdRead_copied {rd : Ramdisk} (bytes : Mem) {buffer : Mem} {count lba i : Nat}
    (hi : i < (initrdCopy rd count lba).bytes) :
    (initrdRead { rd with bytes := bytes } buffer count lba).buffer i =
      bytes ((initrdCopy rd count lba).offset i) := by
  rw [initrdRead_eq]
  exact if_pos hi

/-- The driver of a ramdisk, on its bytes, while `rd_lock` is free.  `initrdWriteLocked` has the
lock. -/
def initrdDriver (rd : Ramdisk) : BdDriverOps Mem where
  readblk bytes buffer count lba :=
    let r := initrdRead { rd with bytes := bytes } buffer count lba
    ⟨r.ret, r.buffer, bytes⟩
  writeblk bytes buffer count lba :=
    ⟨(initrdWrite { rd with bytes := bytes } buffer count lba).ret, buffer,
      initrdStored { rd with bytes := bytes } buffer count lba⟩

/-- `initrd_write`, with `rd_lock` at an address of the kernel's memory. -/
def initrdWriteLocked (debug : Bool) (rd : Ramdisk) (mem : Mem) (rdLock current : Nat)
    (bytes buffer : Mem) (count lba : Nat) : Outcome (BdResult Mem × Mem) := do
  let mem ← mutexLock debug mem rdLock current
  let r := (initrdDriver rd).writeblk bytes buffer count lba
  let mem ← mutexUnlock debug mem rdLock current
  .ret (r, mem)

/-- A transfer copies bytes of the ramdisk only, and no more blocks than are asked for.  At
the end and behind it copies nothing.  Blocks of the ramdisk can be written, and what was
written is read. -/
structure InitrdBounded (debug : Bool) (rd : Ramdisk) (mem : Mem) (rdLock current count lba : Nat) :
    Prop where
  inside : ∀ i < (initrdCopy rd count lba).bytes, (initrdCopy rd count lba).offset i < rd.size
  atMost : (initrdCopy rd count lba).bytes ≤ count * 512
  behind : rd.blocks ≤ lba → (initrdCopy rd count lba).bytes = 0
  roundTrip : lba + count ≤ rd.blocks → ∀ data : Mem, ∃ r mem',
    initrdWriteLocked debug rd mem rdLock current rd.bytes data count lba = .ret (r, mem') ∧
      ∀ buffer : Mem, ∀ i < count * 512,
        ((initrdDriver rd).readblk r.device buffer count lba).buffer i = data i

/-- On the ramdisk, the sum of `lba` and `count` does not wrap.  Behind its end, the blocks
that are left over are a multiple of `2^55`: those between the end and `lba`, or `count` where
the sum wraps to a block of the ramdisk. -/
def InitrdFits (rd : Ramdisk) (count lba : Nat) : Prop :=
  if lba < rd.blocks then lba + count < word
  else if rd.blocks < wrap64 (lba + count) then 2 ^ 55 ∣ lba - rd.blocks
  else 2 ^ 55 ∣ count

/-! ## How many bytes -/

section

variable {rd : Ramdisk} {count lba : Nat}

theorem Ramdisk.blocks_le (rd : Ramdisk) : rd.blocks * 512 ≤ rd.size :=
  Nat.div_mul_le_self rd.size 512

/-- On the ramdisk, the count is cut off at the end. -/
theorem initrdCopy_of_le (hsize : rd.size < word) (hlba : lba ≤ rd.blocks)
    (hsum : lba + count < word) :
    (initrdCopy rd count lba).bytes = min count (rd.blocks - lba) * 512 := by
  have hblocks := Ramdisk.blocks_le rd
  have hcount : initrdCount rd count lba = min count (rd.blocks - lba) := by
    rw [initrdCount, wrap64_of_lt hsum]
    split
    next h =>
      simp only [wrap64, word] at *
      omega
    next h => omega
  rw [initrdCopy, hcount]
  exact wrap64_of_lt (by omega)

/-- Where the sum wraps to a block of the ramdisk, the count is not cut off. -/
theorem initrdCopy_of_wraps (hcount : count < word) (hlba : lba ≤ rd.blocks)
    (hsum : word ≤ lba + count) :
    (initrdCopy rd count lba).bytes = wrap64 (count * 512) := by
  have hle : ¬ rd.blocks < wrap64 (lba + count) := by
    simp only [wrap64, word] at *
    omega
  rw [initrdCopy, initrdCount, if_neg hle]

/-- At the end and behind it, nothing is copied exactly if `2^55` divides the blocks that are
left over. -/
theorem initrdCopy_eq_zero_iff (hsize : rd.size < word) (hlba : lba < word)
    (hend : rd.blocks ≤ lba) :
    (initrdCopy rd count lba).bytes = 0 ↔ InitrdFits rd count lba := by
  have hblocks := Ramdisk.blocks_le rd
  rw [InitrdFits, if_neg (Nat.not_lt.mpr hend)]
  simp only [initrdCopy, initrdCount]
  split <;>
  · simp only [wrap64, word] at *
    omega

/-! ## The bounds -/

/-- On the ramdisk, a sum that wraps has the transfer run over the end. -/
theorem not_bounded_of_wraps {debug : Bool} {mem : Mem} {rdLock current : Nat}
    (hsize : rd.size < word) (hcount : count < word) (hlba : lba < rd.blocks)
    (hsum : word ≤ lba + count) : ¬ InitrdBounded debug rd mem rdLock current count lba := by
  intro h
  have hblocks := Ramdisk.blocks_le rd
  -- The byte behind the last one of the ramdisk is among those that are copied.
  have hend := h.inside (rd.size - lba * 512) <| by
    rw [initrdCopy_of_wraps hcount hlba.le hsum]
    simp only [wrap64, word] at *
    omega
  simp only [InitrdCopy.offset, initrdCopy, wrap64, word] at *
  omega

/-- The place in a copy to `a`, of a byte behind `a` and of one before it. -/
theorem wrap64_back_lt_iff {x a n : Nat} (hx : x < word) (hn : a + n ≤ word) :
    wrap64 (x + word - a) < n ↔ a ≤ x ∧ x < a + n := by
  simp only [wrap64, word] at *
  omega

theorem wrap64_back {x a : Nat} (hle : a ≤ x) (hx : x < word) :
    wrap64 (x + word - a) = x - a := by
  simp only [wrap64, word] at *
  omega

/-- Within the ramdisk, the blocks that are asked for are copied. -/
theorem initrdCopy_within (hsize : rd.size < word) (hspan : lba + count ≤ rd.blocks) :
    (initrdCopy rd count lba).bytes = count * 512 ∧
      (initrdCopy rd count lba).start = lba * 512 := by
  have hblocks := Ramdisk.blocks_le rd
  have hlba : lba * 512 < word := by omega
  have hsum : lba + count < word := by omega
  refine ⟨?_, wrap64_of_lt hlba⟩
  rw [initrdCopy_of_le hsize (by omega) hsum, Nat.min_eq_left (by omega)]

theorem initrdStored_within (hsize : rd.size < word) (hspan : lba + count ≤ rd.blocks)
    (bytes buffer : Mem) {x : Nat} (hx : x < rd.blocks * 512) :
    initrdStored { rd with bytes := bytes } buffer count lba x =
      if lba * 512 ≤ x ∧ x < (lba + count) * 512 then buffer (x - lba * 512)
      else bytes x := by
  have hblocks := Ramdisk.blocks_le rd
  have hword : rd.blocks * 512 < word := hblocks.trans_lt hsize
  obtain ⟨hbytes, hstart⟩ := initrdCopy_within hsize hspan
  rw [initrdStored_eq, hbytes, hstart]
  clear hbytes hstart
  have hspan' : lba * 512 + count * 512 ≤ word := by
    rw [← Nat.add_mul]
    exact (Nat.mul_le_mul_right 512 hspan).trans hword.le
  have hback := wrap64_back_lt_iff (hx.trans hword) hspan'
  rw [← Nat.add_mul] at hback
  by_cases h : lba * 512 ≤ x ∧ x < (lba + count) * 512
  · rw [if_pos h, if_pos (hback.mpr h), wrap64_back h.1 (hx.trans hword)]
  · rw [if_neg h, if_neg (mt hback.mp h)]

theorem initrdRead_within (hsize : rd.size < word) (hspan : lba + count ≤ rd.blocks)
    (bytes buffer : Mem) {i : Nat} (hi : i < count * 512) :
    (initrdRead { rd with bytes := bytes } buffer count lba).buffer i =
      bytes (lba * 512 + i) := by
  have hblocks := Ramdisk.blocks_le rd
  have hlt : lba * 512 + i < word := by omega
  obtain ⟨hbytes, hstart⟩ := initrdCopy_within hsize hspan
  have hoffset : (initrdCopy rd count lba).offset i = lba * 512 + i := by
    rw [InitrdCopy.offset, hstart]
    exact wrap64_of_lt hlt
  exact (initrdRead_copied bytes (hbytes ▸ hi)).trans (congrArg bytes hoffset)

/-- A ramdisk stores and returns blocks. -/
theorem initrd_stores (rd : Ramdisk) (hsize : rd.size < word) :
    StoresBlocks (initrdDriver rd) (fun bytes => bytes) rd.blocks where
  readKeeps _ _ _ _ _ := rfl
  readReturns bytes buffer _ _ hspan _ hi := initrdRead_within hsize hspan bytes buffer hi
  writeStores bytes buffer _ _ hspan _ hx := initrdStored_within hsize hspan bytes buffer hx

/-! ## The lock -/

variable {debug : Bool} {mem : Mem} {rdLock current : Nat}

/-- `initrd_write` returns exactly if it finds the mutex free, whatever it is to write. -/
theorem initrdWriteLocked_returns_iff (bytes buffer : Mem) (hcurrent : current < word) :
    (∃ r mem', initrdWriteLocked debug rd mem rdLock current bytes buffer count lba =
      .ret (r, mem')) ↔ FreeMutex debug mem rdLock := by
  rw [← lock_unlock_returns_iff hcurrent]
  constructor
  · rintro ⟨r, mem', h⟩
    obtain ⟨mem1, hlock, hrest⟩ := Outcome.bind_eq_ret.mp h
    obtain ⟨mem2, hunlock, -⟩ := Outcome.bind_eq_ret.mp hrest
    exact ⟨mem1, mem2, hlock, hunlock⟩
  · rintro ⟨mem1, mem2, hlock, hunlock⟩
    refine ⟨(initrdDriver rd).writeblk bytes buffer count lba, mem2, ?_⟩
    rw [initrdWriteLocked, hlock, Outcome.ret_bind, hunlock, Outcome.ret_bind]

/-- Where it returns it has stored what the driver stores. -/
theorem initrdWriteLocked_ret {bytes buffer mem' : Mem} {r : BdResult Mem}
    (h : initrdWriteLocked debug rd mem rdLock current bytes buffer count lba = .ret (r, mem')) :
    r = (initrdDriver rd).writeblk bytes buffer count lba := by
  obtain ⟨mem1, -, hrest⟩ := Outcome.bind_eq_ret.mp h
  obtain ⟨mem2, -, hret⟩ := Outcome.bind_eq_ret.mp hrest
  cases hret
  rfl

/-- A mutex that was not initialised fails the first assertion of the debug build. -/
theorem initrdWriteLocked_panics (bytes buffer : Mem) (count lba : Nat)
    (h : load mem (rdLock + 8) 8 ≠ mutexMagic) :
    initrdWriteLocked true rd mem rdLock current bytes buffer count lba =
      .panic "mutex_t uninitialized or corrupt" := by
  rw [initrdWriteLocked, mutexLock, if_pos ⟨rfl, h⟩]
  rfl

/-- What is written to blocks of the ramdisk is read, exactly if the mutex is free. -/
theorem initrd_round_trip_iff (hsize : rd.size < word) (hcurrent : current < word)
    (hspan : lba + count ≤ rd.blocks) :
    (∀ data : Mem, ∃ r mem',
      initrdWriteLocked debug rd mem rdLock current rd.bytes data count lba = .ret (r, mem') ∧
        ∀ buffer : Mem, ∀ i < count * 512,
          ((initrdDriver rd).readblk r.device buffer count lba).buffer i = data i) ↔
      FreeMutex debug mem rdLock := by
  constructor
  · intro h
    obtain ⟨r, mem', hret, -⟩ := h rd.bytes
    exact (initrdWriteLocked_returns_iff _ _ hcurrent).mp ⟨r, mem', hret⟩
  · intro h data
    obtain ⟨r, mem', hret⟩ := (initrdWriteLocked_returns_iff rd.bytes data hcurrent).mpr h
    obtain rfl := initrdWriteLocked_ret hret
    exact ⟨_, mem', hret, fun buffer i hi =>
      (initrd_stores rd hsize).round_trip rd.bytes data buffer hspan hi⟩

/-- **The bounds of a ramdisk.**  A transfer keeps to the ramdisk and to the count, copies
nothing behind the end and reads what it wrote, exactly if the sum of `lba` and `count` does
not wrap on the ramdisk, the blocks that are left over behind its end are a multiple of
`2^55`, and for blocks of the ramdisk `rd_lock` reads as a mutex that is free. -/
theorem initrd_bounded_iff (hsize : rd.size < word) (hcount : count < word) (hlba : lba < word)
    (hcurrent : current < word) :
    InitrdBounded debug rd mem rdLock current count lba ↔
      InitrdFits rd count lba ∧ (lba + count ≤ rd.blocks → FreeMutex debug mem rdLock) := by
  rcases Nat.lt_or_ge lba rd.blocks with hlt | hend
  · constructor
    · intro h
      refine ⟨?_, fun hspan => (initrd_round_trip_iff hsize hcurrent hspan).mp (h.roundTrip hspan)⟩
      rw [InitrdFits, if_pos hlt]
      by_contra hwraps
      exact not_bounded_of_wraps hsize hcount hlt (Nat.not_lt.mp hwraps) h
    · rintro ⟨h, hfree⟩
      rw [InitrdFits, if_pos hlt] at h
      have hblocks := Ramdisk.blocks_le rd
      have hbytes := initrdCopy_of_le hsize hlt.le h
      refine ⟨fun i hi => ?_, ?_, fun hend => absurd hlt (Nat.not_lt.mpr hend),
        fun hspan => (initrd_round_trip_iff hsize hcurrent hspan).mpr (hfree hspan)⟩
      · rw [hbytes] at hi
        simp only [InitrdCopy.offset, initrdCopy, wrap64, word] at *
        omega
      · rw [hbytes]
        exact Nat.mul_le_mul_right 512 (Nat.min_le_left _ _)
  · constructor
    · intro h
      exact ⟨(initrdCopy_eq_zero_iff hsize hlba hend).mp (h.behind hend),
        fun hspan => (initrd_round_trip_iff hsize hcurrent hspan).mp (h.roundTrip hspan)⟩
    · rintro ⟨h, hfree⟩
      have hzero := (initrdCopy_eq_zero_iff hsize hlba hend).mpr h
      refine ⟨fun i hi => ?_, ?_, fun _ => hzero,
        fun hspan => (initrd_round_trip_iff hsize hcurrent hspan).mpr (hfree hspan)⟩
      · rw [hzero] at hi
        cases hi
      · rw [hzero]
        exact Nat.zero_le _

end

/-- The memory of the `rd_t` was zero, and the build is the release build. -/
theorem freeMutex_zeros (mtx : Nat) : FreeMutex false (fun _ => 0) mtx where
  lock := load_zero fun _ _ _ => rfl
  spin := load_zero fun _ _ _ => rfl
  empty := load_zero fun _ _ _ => rfl
  magic := nofun
  spinMagic := nofun
  listMagic := nofun

/-- Two blocks from the second one on, of a ramdisk of three. -/
theorem initrd_bounded_two : InitrdBounded false ⟨fun _ => 7, 1536, []⟩ (fun _ => 0) 24 1 2 1 :=
  (initrd_bounded_iff (by decide) (by decide) (by decide) (by decide)).mpr
    ⟨show 1 + 2 < word by decide, fun _ => freeMutex_zeros 24⟩

/-- A read that starts one block behind the end copies all bytes but 512. -/
theorem initrd_reads_behind : ¬ ∀ (debug : Bool) (rd : Ramdisk) (mem : Mem) (rdLock : Nat),
    rd.size < word → ∀ current < word, ∀ count < word, ∀ lba < word,
    InitrdBounded debug rd mem rdLock current count lba := by
  intro h
  have hbounded := h false ⟨fun _ => 7, 1024, []⟩ (fun _ => 0) 24 (by decide) 1 (by decide)
    1 (by decide) 3 (by decide)
  exact absurd (hbounded.behind (by decide)) (by decide)

end UlmerOS
