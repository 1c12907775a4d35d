import UlmerOS.Fs.Sprintf
import UlmerOS.Fs.SyscallBuffers

/-!
# The buffer of the console

`debug` of `debug/kprintf.c` formats into `kprintf_buffer`, and `sys_write` calls it for
descriptor 1 with the buffer of the caller as a string.  Neither of them and not the formatter
has the length of the string or of `kprintf_buffer`, so the terminator decides alone.

`console_stays_iff` says when a write reads no more than it was given and stores no more than
`kprintf_buffer` has.  The caller may pass any address, also one in `kprintf_buffer`, and then
the string is what stands there when the formatter comes to it (`prompted`).

What `printdbg` sends to the port is not in the model.
-/

namespace UlmerOS

open ByteMem Sprintf

namespace Kprintf

/-! ## The functions -/

/-- `OUTPUT_ENABLED`, and `VFS`. -/
def outputEnabled : Nat := 2 ^ 31
def vfsLevel : Nat := 9 ||| outputEnabled

/-- `debug_type`. -/
def debugType : List String := [
  "\x1b[35m VSPACE", "\x1b[37m   INIT", "\x1b[37m ASSERT", "\x1b[35mPAGEMGR",
  "\x1b[35m  KHEAP", "\x1b[31m    IRQ", "\x1b[32mPAGEFLT", "\x1b[33m  SCHED",
  "\x1b[34mFILESYS", "\x1b[34mVIRT_FS", "\x1b[34m   DISK", "\x1b[36m PCIBUS",
  "\x1b[34m BLKDEV", "\x1b[32m LOADER", "\x1b[33m   TASK", "\x1b[33mTASKMGR",
  "\x1b[34mFILESYS", "\x1b[33mPROCESS", "\x1b[33mSYSCALL", "\x1b[32m VSPACE"]

/-- `sizeof(kprintf_buffer)`. -/
def kprintfBufferSize : Nat := 2048

/-- The globals of `kprintf.c`, and `irq_ongoing`. -/
structure Console where
  /-- The address of `kprintf_buffer`. -/
  kprintfBuffer : Nat
  /-- `kprintf_buffer_lock.lock`. -/
  locked : Bool
  irqOngoing : Bool

/-- `debug`: the memory, and what the two calls of the formatter load and store.  A task waits
for the mutex, so that the memory is the one that it finds then. -/
def debug (c : Console) (left : List UInt8) (mem : Mem) (level : Nat) (fmt : List Char)
    (args : List VaArg) : Outcome (Mem × List Access) :=
  if level &&& outputEnabled = 0 then .ret (mem, [])
  else if c.irqOngoing ∧ c.locked then .ret (mem, [])
  else do
    let type := debugType.getD (level &&& 0xff) ""
    let prompt ← sprintf left mem c.kprintfBuffer "[%s]: ".toList [.text (bytes type)]
    let s ← sprintf left prompt.mem c.kprintfBuffer fmt args
    .ret (s.mem, prompt.accesses ++ s.accesses)

/-- What `sys_write` returns, the memory, and what the formatter loads and stores. -/
structure ConsoleWrite where
  ret : Int
  mem : Mem
  accesses : List Access

/-- `sys_write` to descriptor 1. -/
def sysWriteStdout (c : Console) (left : List UInt8) (mem : Mem) (buffer len : Nat) :
    Outcome ConsoleWrite :=
  if sysBufferRangeCheck buffer len then .ret ⟨-einval, mem, []⟩
  else do
    let (mem, accesses) ←
      debug c left mem vfsLevel "write() to stdout: %s\n".toList [.value buffer]
    .ret ⟨toSsize len, mem, accesses⟩

/-! ## Staying in the buffers -/

/-- The formatter loads from the buffer of the caller and stores to `kprintf_buffer`. -/
def Within (buffer len : Nat) : Access → Prop
  | .load str n => str = buffer ∧ n ≤ len
  | .store offset n => offset + n ≤ kprintfBufferSize

/-- The call returns, and it kept to the buffers. -/
def StaysInConsole (buffer len : Nat) : Outcome ConsoleWrite → Prop
  | .ret r => ∀ a ∈ r.accesses, Within buffer len a
  | _ => False

/-- The memory when the formatter comes to the string. -/
def prompted (c : Console) (mem : Mem) : Mem :=
  putBytes mem c.kprintfBuffer (bytes "write() to stdout: ")

/-- Outside the first bytes of `kprintf_buffer` the memory is what it was. -/
theorem prompted_of_outside {c : Console} {mem : Mem} {x : Nat}
    (h : ∀ i < 19, x ≠ wrap64 (c.kprintfBuffer + i)) : prompted c mem x = mem x :=
  putBytes_of_not_mem h

variable {c : Console} {left : List UInt8} {mem : Mem} {buffer len : Nat}

/-- What the first call of the formatter stores is overwritten by the second one, before that
comes to the string. -/
theorem prompt_ret (c : Console) (left : List UInt8) (mem : Mem) :
    ∃ prompt, sprintf left mem c.kprintfBuffer "[%s]: ".toList
        [.text (bytes (debugType.getD (vfsLevel &&& 0xff) ""))] = .ret prompt ∧
      prompted c prompt.mem = prompted c mem ∧
      prompt.accesses.filterMap Access.loaded = [] ∧
      ∀ offset n, Access.store offset n ∈ prompt.accesses → offset + n ≤ 17 := by
  have hpre : '%' ∉ ['['] := by decide
  have hpost : '%' ∉ [']', ':', ' '] := by decide
  obtain ⟨prompt, hret, hprinted, hloads⟩ := sprintf_text left mem c.kprintfBuffer hpre hpost
    (bytes (debugType.getD (vfsLevel &&& 0xff) ""))
  have hlast : prompt.printed = 16 := hprinted
  have hstores := (sprintf_stores_iff hret 17).mpr (by rw [hlast])
  refine ⟨prompt, hret, putBytes_congr fun x hx => ?_, hloads, hstores⟩
  refine (sprintf_contained hret).1.frame x fun i hi => hx i ?_
  rw [hlast] at hi
  exact Nat.lt_of_le_of_lt hi (by decide)

section Printed

variable {n : Nat} (left) (hcheck : sysBufferRangeCheck buffer len = false)
  (hoff : ¬ (c.irqOngoing = true ∧ c.locked = true))

include hcheck hoff

/-- A write that is printed is the second call of the formatter. -/
theorem sysWriteStdout_printed {prompt : Printing}
    (hprompt : sprintf left mem c.kprintfBuffer "[%s]: ".toList
      [.text (bytes (debugType.getD (vfsLevel &&& 0xff) ""))] = .ret prompt) :
    sysWriteStdout c left mem buffer len =
      sprintf left prompt.mem c.kprintfBuffer
        ("write() to stdout: ".toList ++ '%' :: 's' :: ['\n']) [.value buffer] >>= fun s =>
          .ret ⟨toSsize len, s.mem, prompt.accesses ++ s.accesses⟩ := by
  have hfmt : "write() to stdout: %s\n".toList =
      "write() to stdout: ".toList ++ '%' :: 's' :: ['\n'] := by decide
  rw [sysWriteStdout, hcheck, if_neg nofun, debug, if_neg (by decide), if_neg hoff, hfmt]
  simp only [hprompt, Outcome.ret_bind]
  cases sprintf left prompt.mem c.kprintfBuffer _ [.value buffer] <;> rfl

/-- A write of a string of `n` characters loads one byte more, and what it stores takes 21 bytes
more. -/
theorem sysWriteStdout_ret
    (hlen : strlen (bytesAt (prompted c mem) buffer) word = .ret n) :
    ∃ r, sysWriteStdout c left mem buffer len = .ret r ∧ r.ret = toSsize len ∧
      r.accesses.filterMap Access.loaded = [(buffer, n + 1)] ∧
      ∀ size, (∀ offset k, Access.store offset k ∈ r.accesses → offset + k ≤ size) ↔
        n + 21 ≤ size := by
  obtain ⟨prompt, hprompt, hmem, hnone, hsmall⟩ := prompt_ret c left mem
  rw [← hmem] at hlen
  have hpost : '%' ∉ ['\n'] := by decide
  obtain ⟨s, hret, hprinted, hloads⟩ :=
    sprintf_value left prompt.mem c.kprintfBuffer (by decide) hpost hlen
  rw [sysWriteStdout_printed left hcheck hoff hprompt, hret]
  refine ⟨_, rfl, rfl, ?_, fun size => ?_⟩
  · rw [List.filterMap_append, hnone, hloads, List.nil_append]
  · have hlast : s.printed + 1 = n + 21 := by
      rw [hprinted, show "write() to stdout: ".toList.length = 19 by decide, List.length_singleton]
      omega
    rw [← hlast, ← sprintf_stores_iff hret]
    constructor
    · exact fun h offset k hstore => h offset k (List.mem_append_right _ hstore)
    · intro h offset k hstore
      rcases List.mem_append.mp hstore with hstore | hstore
      · have hsize := (sprintf_stores_iff hret size).mp h
        exact (hsmall offset k hstore).trans (by omega)
      · exact h offset k hstore

/-- A string that does not end. -/
theorem sysWriteStdout_hang (hlen : strlen (bytesAt (prompted c mem) buffer) word = .hang) :
    sysWriteStdout c left mem buffer len = .hang := by
  obtain ⟨prompt, hprompt, hmem, -⟩ := prompt_ret c left mem
  rw [← hmem] at hlen
  rw [sysWriteStdout_printed left hcheck hoff hprompt,
    sprintf_hang left prompt.mem c.kprintfBuffer (by decide) (by decide) hlen]
  rfl

/-- A write that is printed keeps to the buffers exactly if the string ends early enough. -/
theorem printed_stays_iff :
    StaysInConsole buffer len (sysWriteStdout c left mem buffer len) ↔
      ∃ i < len, i + 21 ≤ kprintfBufferSize ∧ bytesAt (prompted c mem) buffer i = 0 := by
  rcases strlen_cases (bytesAt (prompted c mem) buffer) word with
    ⟨n, -, hlen, hzero, hbefore⟩ | ⟨hhang, hall⟩
  · obtain ⟨r, hret, -, hloads, hstores⟩ := sysWriteStdout_ret left hcheck hoff hlen
    rw [hret]
    constructor
    · intro h
      have hload : Access.load buffer (n + 1) ∈ r.accesses := by
        rw [load_mem_iff, hloads]
        exact List.mem_singleton_self _
      have hsize := (hstores kprintfBufferSize).mp fun offset k hstore => h _ hstore
      exact ⟨n, (h _ hload).2, hsize, hzero⟩
    · rintro ⟨i, hi, hsize, hz⟩ a ha
      have hni : n ≤ i := by
        by_contra hlt
        exact hbefore i (by omega) hz
      cases a with
      | load str k =>
          rw [load_mem_iff, hloads] at ha
          obtain ⟨rfl, rfl⟩ := Prod.mk.inj (List.mem_singleton.mp ha)
          exact ⟨rfl, Nat.succ_le_of_lt (Nat.lt_of_le_of_lt hni hi)⟩
      | store offset k => exact (hstores kprintfBufferSize).mpr (by omega) offset k ha
  · rw [sysWriteStdout_hang left hcheck hoff hhang]
    refine iff_of_false id ?_
    rintro ⟨i, -, hsize, hz⟩
    refine hall i ?_ hz
    rw [kprintfBufferSize] at hsize
    exact Nat.lt_of_le_of_lt (Nat.le_of_add_right_le hsize) (by decide)

/-- The string is in no part of `kprintf_buffer` that is printed before it.  Then `sys_write`
with the descriptors of a process does to memory what is loaded here. -/
theorem sysWrite_stdout (fdList : List (Nat × Fd))
    (hstr : strlen (bytesAt (prompted c mem) buffer) word = strlen (bytesAt mem buffer) word) :
    sysWrite fdList mem 1 buffer len = sysWriteStdout c left mem buffer len >>= fun r =>
      .ret ⟨r.ret, .lock .kprintfBuffer ::
        (r.accesses.filterMap Access.loaded).map (fun load => .touch load.1 load.2) ++
          [.unlock .kprintfBuffer]⟩ := by
  rw [sysWrite, hcheck, if_neg (by decide), if_pos rfl, debugStdout, ← hstr]
  rcases strlen_cases (bytesAt (prompted c mem) buffer) word with ⟨n, -, hlen, -⟩ | ⟨hhang, -⟩
  · obtain ⟨r, hret, hlength, hloads, -⟩ := sysWriteStdout_ret left hcheck hoff hlen
    rw [hlen, hret, Outcome.ret_bind, Outcome.ret_bind, Outcome.ret_bind, hlength, hloads]
    rfl
  · rw [hhang, sysWriteStdout_hang left hcheck hoff hhang]
    rfl

end Printed

/-- In a handler of an interrupt nothing is printed while somebody else prints. -/
theorem debug_skips (hoff : c.irqOngoing = true ∧ c.locked = true) (level : Nat)
    (fmt : List Char) (args : List VaArg) : debug c left mem level fmt args = .ret (mem, []) := by
  rw [debug, if_pos hoff, ite_self]

/-- A write to descriptor 1 keeps to the buffer of the caller and to `kprintf_buffer` if it is
rejected, if nothing is printed, or if the string has its terminator within `len` bytes and
leaves room for the 21 bytes that are printed around it. -/
theorem console_stays_iff (c : Console) (left : List UInt8) (mem : Mem) (buffer len : Nat) :
    StaysInConsole buffer len (sysWriteStdout c left mem buffer len) ↔
      sysBufferRangeCheck buffer len = true ∨ (c.irqOngoing = true ∧ c.locked = true) ∨
        ∃ i < len, i + 21 ≤ kprintfBufferSize ∧ bytesAt (prompted c mem) buffer i = 0 := by
  cases hcheck : sysBufferRangeCheck buffer len with
  | true =>
      rw [sysWriteStdout, if_pos hcheck]
      exact iff_of_true (fun a ha => absurd ha List.not_mem_nil) (.inl rfl)
  | false =>
      rw [or_iff_right nofun]
      by_cases hoff : c.irqOngoing = true ∧ c.locked = true
      · rw [sysWriteStdout, hcheck, if_neg nofun, debug_skips hoff]
        exact iff_of_true (fun a ha => absurd ha List.not_mem_nil) (.inl hoff)
      · rw [or_iff_right hoff]
        exact printed_stays_iff left hcheck hoff

/-- A memory with a string of 3000 characters. -/
def longString : Mem := fun x => if 0x400000 ≤ x ∧ x < 0x400000 + 3000 then 97 else 0

/-- A string is longer than `kprintf_buffer`, and then it is longer than the caller says as
well. -/
theorem long_write_leaves_buffers :
    ¬ StaysInConsole 0x400000 3001
      (sysWriteStdout ⟨0xffff800000200000, false, false⟩ [] longString 0x400000 3001) ∧
    ¬ StaysInConsole 0x400000 1
      (sysWriteStdout ⟨0xffff800000200000, false, false⟩ [] longString 0x400000 1) := by
  have hno : ∀ len, ¬ ∃ i < len, i + 21 ≤ kprintfBufferSize ∧
      bytesAt (prompted ⟨0xffff800000200000, false, false⟩ longString) 0x400000 i = 0 := by
    rintro len ⟨i, -, hsize, hzero⟩
    rw [kprintfBufferSize] at hsize
    have haddr : wrap64 (0x400000 + i) = 0x400000 + i := wrap64_of_lt (by rw [word]; omega)
    have hclear : ∀ k < 19, 0x400000 + i ≠ wrap64 (0xffff800000200000 + k) := by
      intro k hk
      rw [wrap64_of_lt (by rw [word]; omega)]
      omega
    rw [bytesAt, haddr, prompted_of_outside hclear, longString, if_pos ⟨by omega, by omega⟩]
      at hzero
    exact absurd hzero (by decide)
  have hoff : ¬ (false = true ∧ false = true) := by decide
  constructor
  · exact mt (printed_stays_iff [] (by decide) hoff).mp (hno 3001)
  · exact mt (printed_stays_iff [] (by decide) hoff).mp (hno 1)

end Kprintf

end UlmerOS
