import UlmerOS.Fs.Fd

/-!
# Formatted output

`_sprintf` of `libutil/sprintf.c`.  The two loops of the source read the format one character
at a time, and `Scan` says which of them reads the next one.  `dest_ptr` is the number of bytes
between it and `dest`.

The function has no limit for what it stores.  `sprintf_stores_iff` says that what it stores
is what it prints and a terminator, and nothing else limits it.

A format that ends in a directive makes the source read what is behind it, and a `va_arg` that
is not there, or that is the address of a constant, has no value.  The outcome is `.fault` in
these cases.
-/

namespace UlmerOS

open ByteMem

namespace Sprintf

/-! ## Text -/

/-- The byte of a character. -/
def byte (c : Char) : UInt8 := c.val.toUInt8

/-- The bytes of a string constant, without its terminator. -/
def bytes (s : String) : List UInt8 := s.toList.map byte

/-- `nchar`. -/
def nchar (index : Nat) : UInt8 :=
  if index < 10 then UInt8.ofNat ('0'.toNat + index) else UInt8.ofNat ('a'.toNat + index - 10)

/-- `hex_char`. -/
def hexChar (nibble : Nat) : UInt8 :=
  if nibble > 0xf then byte '*'
  else if nibble ≥ 0xa then UInt8.ofNat ('a'.toNat + nibble - 0xa)
  else UInt8.ofNat ('0'.toNat + nibble)

/-- The loop of `itoa` and `utoa`, in its order.  The remainder of a negative number is
negative, and `nchar` takes it as an `unsigned`. -/
def digits (base : Int) : Nat → Int → List UInt8
  | 0, _ => []
  | fuel + 1, value =>
      nchar (value.tmod base % 2 ^ 32).toNat ::
        if value.tdiv base = 0 then [] else digits base fuel (value.tdiv base)

/-- A number as an `int`. -/
def toInt32 (n : Nat) : Int :=
  if n % 2 ^ 32 < 2 ^ 31 then (n % 2 ^ 32 : Nat) else (n % 2 ^ 32 : Nat) - 2 ^ 32

/-- `itoa`.  The smallest `int` is its own negative. -/
def itoa (value : Int) (base : Int) : List UInt8 :=
  let value' := if value < 0 ∧ value ≠ -2 ^ 31 then -value else value
  (digits base 32 value' ++ if value < 0 then [byte '-'] else []).reverse

/-- `utoa`. -/
def utoa (value : Nat) (base : Int) : List UInt8 :=
  (digits base 32 (value % 2 ^ 32 : Nat)).reverse

/-- The text of `%d`, `%u` and `%x`, which goes to `buffer`.  `itoa` and `utoa` take 32 bits of
it. -/
def numberText (c : Char) (longValue : Bool) (n : Nat) : List UInt8 :=
  let value := if longValue then n % word else n % 2 ^ 32
  if c = 'd' then itoa (toInt32 value) 10 else if c = 'u' then utoa value 10 else utoa value 16

/-- `0x` and the nibbles of an argument, from the highest one on.  A shift takes its width
modulo 64. -/
def hexBytes (nibbles n : Nat) : List UInt8 :=
  byte '0' :: byte 'x' ::
    (List.range nibbles).reverse.map fun i => hexChar ((n % word) >>> (4 * i % 64) % 16)

/-! ## The state of the formatter -/

/-- An argument of the formatter. -/
inductive VaArg where
  /-- A string constant of the kernel. -/
  | text (str : List UInt8)
  /-- A number, or a pointer to a string. -/
  | value (n : Nat)

/-- What the formatter loads through its arguments and stores to `dest`. -/
inductive Access where
  | load (str n : Nat)
  /-- `n` bytes from an offset in `dest` on. -/
  | store (offset n : Nat)
deriving DecidableEq, Repr

/-- What is loaded. -/
def Access.loaded : Access → Option (Nat × Nat)
  | .load str n => some (str, n)
  | .store _ _ => none

/-- What the next character of the format is to the source. -/
inductive Scan where
  /-- The `c` of the outer loop. -/
  | text
  /-- The character that is switched over. -/
  | directive
  /-- The `c` of the inner loop. -/
  | number (longValue : Bool)
deriving DecidableEq, Repr

/-- The variables of `_sprintf`, and the memory. -/
structure Printing where
  mem : Mem
  /-- `dest_ptr - dest`. -/
  printed : Nat
  scan : Scan
  args : List VaArg
  accesses : List Access

/-- The bytes of a list are stored at a pointer, one after the other. -/
def putBytes (m : Mem) (ptr : Nat) : List UInt8 → Mem
  | [] => m
  | b :: bs => putBytes (Function.update m (wrap64 ptr) b) (ptr + 1) bs

/-- `memcpy`. -/
def memcpy (m : Mem) (dest src : Nat) : Nat → Mem
  | 0 => m
  | length + 1 =>
      memcpy (Function.update m (wrap64 dest) (m (wrap64 src))) (dest + 1) (src + 1) length

namespace Printing

/-- `*dest_ptr++ = c`. -/
def put (dest : Nat) (s : Printing) (c : UInt8) : Printing :=
  { s with
    mem := Function.update s.mem (wrap64 (dest + s.printed)) c
    printed := s.printed + 1
    accesses := s.accesses ++ [.store s.printed 1] }

/-- `strcpy(dest_ptr, str)` and `dest_ptr += strlen(str)`. -/
def strcpy (dest : Nat) (s : Printing) : VaArg → Outcome Printing
  | .text str =>
      .ret { s with
        mem := putBytes s.mem (dest + s.printed) (str ++ [0])
        printed := s.printed + str.length
        accesses := s.accesses ++ [.store s.printed (str.length + 1)] }
  | .value str => do
      let len ← strlen (bytesAt s.mem str) word
      .ret { s with
        mem := memcpy s.mem (dest + s.printed) str (len + 1)
        printed := s.printed + len
        accesses := s.accesses ++ [.load str (len + 1), .store s.printed (len + 1)] }

/-- `*dest_ptr = 0` behind the loop. -/
def terminate (dest : Nat) (s : Printing) : Printing :=
  { s with
    mem := Function.update s.mem (wrap64 (dest + s.printed)) 0
    accesses := s.accesses ++ [.store s.printed 1] }

/-! ## The format -/

/-- One round of the inner loop.  After a character that is none of these it copies what is
`left` in `buffer`. -/
def numberChar (left : List UInt8) (dest : Nat) (s : Printing) (longValue : Bool) (c : Char) :
    Outcome Printing :=
  if c = 'l' ∨ c = 'z' then .ret { s with scan := .number true }
  else if c = 'd' ∨ c = 'u' ∨ c = 'x' then
    match s.args with
    | .value n :: args =>
        { s with scan := .text, args := args }.strcpy dest (.text (numberText c longValue n))
    | _ => .fault
  else { s with scan := .text }.strcpy dest (.text left)

/-- `%p` and `%q`. -/
def putHex (dest : Nat) (s : Printing) (nibbles : Nat) : Outcome Printing :=
  match s.args with
  | .value n :: args => .ret ((hexBytes nibbles n).foldl (put dest) { s with args := args })
  | _ => .fault

/-- The `switch` of the outer loop.  The inner loop begins with the same character. -/
def directive (left : List UInt8) (dest : Nat) (s : Printing) (c : Char) : Outcome Printing :=
  match c with
  | 's' =>
      match s.args with
      | str :: args => { s with args := args }.strcpy dest str
      | [] => .fault
  | 'z' | 'l' | '0' | 'u' | 'd' | 'x' => s.numberChar left dest false c
  | 'p' => s.putHex dest 16
  | 'q' => s.putHex dest 32
  | 'c' =>
      match s.args with
      | .value n :: args => .ret ({ s with args := args }.put dest (UInt8.ofNat n))
      | _ => .fault
  | '%' => .ret (s.put dest (byte '%'))
  | _ => .ret s

/-- One character of the format. -/
def step (left : List UInt8) (dest : Nat) (s : Printing) (c : Char) : Outcome Printing :=
  match s.scan with
  | .text => .ret (if c = '%' then { s with scan := .directive } else s.put dest (byte c))
  | .directive => { s with scan := .text }.directive left dest c
  | .number longValue => s.numberChar left dest longValue c

/-- The loops over the format. -/
def loop (left : List UInt8) (dest : Nat) : List Char → Printing → Outcome Printing
  | [], s => .ret s
  | c :: fmt, s => do
      let s ← s.step left dest c
      loop left dest fmt s

end Printing

/-- `_sprintf` and `sprintf`.  What is in `buffer` before is `left`. -/
def sprintf (left : List UInt8) (mem : Mem) (dest : Nat) (fmt : List Char) (args : List VaArg) :
    Outcome Printing := do
  let s ← Printing.loop left dest fmt ⟨mem, 0, .text, args, []⟩
  match s.scan with
  | .text => .ret (s.terminate dest)
  | _ => .fault

/-! ## The size of a number -/

/-- The digits that are left are those of a number below the next lower power of the base. -/
theorem natAbs_tdiv_lt {b : Nat} (hb : 0 < b) {k : Nat} {value : Int} (hk : 0 < k)
    (h : value.natAbs < b ^ k) (hne : value.tdiv b ≠ 0) :
    0 < k - 1 ∧ (value.tdiv b).natAbs < b ^ (k - 1) := by
  have hdiv : (value.tdiv b).natAbs = value.natAbs / b := by
    rw [Int.natAbs_tdiv, Int.natAbs_natCast]
    rfl
  obtain ⟨k, rfl⟩ := Nat.exists_eq_succ_of_ne_zero hk.ne'
  have hlt : value.natAbs / b < b ^ k := by
    rw [Nat.div_lt_iff_lt_mul hb]
    rwa [Nat.pow_succ] at h
  rw [hdiv]
  refine ⟨?_, hlt⟩
  -- with no digit left the quotient is zero
  rcases Nat.eq_zero_or_pos k with rfl | hpos
  · rw [Nat.pow_zero, Nat.lt_one_iff] at hlt
    exact absurd (Int.natAbs_eq_zero.mp (hdiv.trans hlt)) hne
  · exact hpos

/-- A number below a power of the base has no more digits than its exponent. -/
theorem length_digits_le {b : Nat} (hb : 0 < b) (fuel : Nat) {k : Nat} {value : Int} (hk : 0 < k)
    (h : value.natAbs < b ^ k) : (digits b fuel value).length ≤ k := by
  induction fuel generalizing k value with
  | zero => exact Nat.zero_le k
  | succ fuel ih =>
      rw [digits, List.length_cons]
      split
      next => exact hk
      next hne =>
        obtain ⟨hpos, hlt⟩ := natAbs_tdiv_lt hb hk h hne
        have hle := ih hpos hlt
        omega

/-- The 32 bytes of `buffer` are enough for every number, its sign and a terminator. -/
theorem length_numberText_lt (c : Char) (longValue : Bool) (n : Nat) :
    (numberText c longValue n).length < 32 := by
  have hu : ∀ value base, 10 ≤ base → (utoa value (base : Nat)).length ≤ 10 := by
    intro value base hbase
    rw [utoa, List.length_reverse]
    refine length_digits_le (by omega) 32 (by decide) ?_
    rw [Int.natAbs_natCast]
    calc value % 2 ^ 32 < 2 ^ 32 := Nat.mod_lt _ (by decide)
      _ ≤ 10 ^ 10 := by decide
      _ ≤ base ^ 10 := Nat.pow_le_pow_left hbase 10
  have hi : ∀ value : Int, value.natAbs < 10 ^ 10 → (itoa value 10).length ≤ 11 := by
    intro value hvalue
    have hlen : ∀ v : Int, v.natAbs < 10 ^ 10 → (digits 10 32 v).length ≤ 10 :=
      fun v hv => length_digits_le (b := 10) (by decide) 32 (by decide) hv
    have hsign : (if value < 0 then [byte '-'] else []).length ≤ 1 := by split <;> simp
    rw [itoa, List.length_reverse, List.length_append]
    split
    next => exact Nat.add_le_add (hlen _ (by rwa [Int.natAbs_neg])) hsign
    next => exact Nat.add_le_add (hlen _ hvalue) hsign
  rw [numberText]
  split
  next =>
    refine (hi _ ?_).trans_lt (by decide)
    rw [toInt32]
    split <;> omega
  next =>
    split
    next => exact (hu _ 10 (by decide)).trans_lt (by decide)
    next => exact (hu _ 16 (by decide)).trans_lt (by decide)

/-! ## What is stored -/

variable {left : List UInt8} {m m0 : Mem} {dest : Nat}

theorem putBytes_of_not_mem {ptr x : Nat} {bs : List UInt8}
    (h : ∀ i < bs.length, x ≠ wrap64 (ptr + i)) : putBytes m ptr bs x = m x := by
  induction bs generalizing m ptr with
  | nil => rfl
  | cons b bs ih =>
      have hfirst : x ≠ wrap64 ptr := h 0 (Nat.succ_pos _)
      rw [putBytes, ih fun i hi => ?_, Function.update_of_ne hfirst]
      rw [Nat.add_assoc, Nat.add_comm 1 i]
      exact h (i + 1) (Nat.succ_lt_succ hi)

/-- What was there before does not matter where bytes are stored. -/
theorem putBytes_congr {m m' : Mem} {ptr : Nat} {bs : List UInt8}
    (h : ∀ x, (∀ i < bs.length, x ≠ wrap64 (ptr + i)) → m x = m' x) :
    putBytes m ptr bs = putBytes m' ptr bs := by
  induction bs generalizing m m' ptr with
  | nil => exact funext fun x => h x nofun
  | cons b bs ih =>
      refine ih fun x hx => ?_
      by_cases hfirst : x = wrap64 ptr
      · rw [hfirst, Function.update_self, Function.update_self]
      · rw [Function.update_of_ne hfirst, Function.update_of_ne hfirst]
        refine h x fun i hi => ?_
        cases i with
        | zero => exact hfirst
        | succ i =>
            rw [Nat.add_comm i 1, ← Nat.add_assoc]
            exact hx i (Nat.lt_of_succ_lt_succ hi)

theorem memcpy_of_not_mem {src n x : Nat} (h : ∀ i < n, x ≠ wrap64 (dest + i)) :
    memcpy m dest src n x = m x := by
  induction n generalizing m dest src with
  | zero => rfl
  | succ n ih =>
      have hfirst : x ≠ wrap64 dest := h 0 (Nat.succ_pos n)
      rw [memcpy, ih fun i hi => ?_, Function.update_of_ne hfirst]
      rw [Nat.add_assoc, Nat.add_comm 1 i]
      exact h (i + 1) (Nat.succ_lt_succ hi)

namespace Printing

variable {s s' : Printing}

/-- What is stored lies in what is printed, and in one byte more.  The rest of the memory is
`m0`. -/
structure Contained (dest : Nat) (m0 : Mem) (s : Printing) : Prop where
  stores : ∀ offset n, Access.store offset n ∈ s.accesses → offset + n ≤ s.printed + 1
  frame : ∀ x, (∀ i ≤ s.printed, x ≠ wrap64 (dest + i)) → s.mem x = m0 x

/-- More is printed, and `n` bytes are stored from where `dest_ptr` was. -/
theorem Contained.extend {accesses : List Access} {n : Nat} (h : s.Contained dest m0)
    (haccesses : s'.accesses = s.accesses ++ accesses) (hprinted : s.printed ≤ s'.printed)
    (hn : s.printed + n ≤ s'.printed + 1)
    (hnew : ∀ offset k, Access.store offset k ∈ accesses → offset = s.printed ∧ k = n)
    (hmem : ∀ x, (∀ i < n, x ≠ wrap64 (dest + s.printed + i)) → s'.mem x = s.mem x) :
    s'.Contained dest m0 := by
  refine ⟨fun offset k hmem => ?_, fun x hx => ?_⟩
  · rw [haccesses] at hmem
    rcases List.mem_append.mp hmem with hold | hmem
    · exact (h.stores offset k hold).trans (Nat.succ_le_succ hprinted)
    · obtain ⟨rfl, rfl⟩ := hnew offset k hmem
      exact hn
  · rw [hmem x fun i hi => ?_]
    · exact h.frame x fun i hi => hx i (hi.trans hprinted)
    · rw [Nat.add_assoc]
      exact hx _ (by omega)

theorem Contained.put (h : s.Contained dest m0) (c : UInt8) :
    (s.put dest c).Contained dest m0 := by
  refine h.extend (n := 1) rfl (Nat.le_succ _) (Nat.le_succ _) (fun offset k hmem => ?_)
    fun x hx => ?_
  · exact Access.store.inj (List.mem_singleton.mp hmem)
  · exact Function.update_of_ne (hx 0 Nat.one_pos) _ _

theorem Contained.strcpy (h : s.Contained dest m0) {str : VaArg}
    (hret : s.strcpy dest str = .ret s') : s'.Contained dest m0 := by
  cases str with
  | text str =>
      cases hret
      refine h.extend (n := str.length + 1) rfl (Nat.le_add_right _ _) (Nat.add_assoc _ _ _).ge
        (fun offset k hmem => ?_) fun x hx => ?_
      · exact Access.store.inj (List.mem_singleton.mp hmem)
      · refine putBytes_of_not_mem fun i hi => hx i ?_
        rwa [List.length_append] at hi
  | value str =>
      obtain ⟨len, -, hret⟩ := Outcome.bind_eq_ret.mp hret
      cases hret
      refine h.extend (n := len + 1) rfl (Nat.le_add_right _ _) (Nat.add_assoc _ _ _).ge
        (fun offset k hmem => ?_) fun x hx => memcpy_of_not_mem hx
      rcases List.mem_cons.mp hmem with hload | hmem
      · cases hload
      · exact Access.store.inj (List.mem_singleton.mp hmem)

theorem Contained.terminate (h : s.Contained dest m0) :
    (s.terminate dest).Contained dest m0 := by
  refine h.extend (n := 1) rfl (Nat.le_refl _) (Nat.le_refl _) (fun offset k hmem => ?_)
    fun x hx => ?_
  · exact Access.store.inj (List.mem_singleton.mp hmem)
  · exact Function.update_of_ne (hx 0 Nat.one_pos) _ _

theorem Contained.foldl_put (h : s.Contained dest m0) (bs : List UInt8) :
    (bs.foldl (Printing.put dest) s).Contained dest m0 := by
  induction bs generalizing s with
  | nil => exact h
  | cons b bs ih => exact ih (h.put b)

/-- What is contained does not depend on the format and the arguments that are left. -/
theorem Contained.congr (h : s.Contained dest m0) (scan : Scan) (args : List VaArg) :
    Contained dest m0 { s with scan := scan, args := args } := ⟨h.stores, h.frame⟩

theorem Contained.numberChar (h : s.Contained dest m0) {longValue : Bool} {c : Char}
    (hret : s.numberChar left dest longValue c = .ret s') : s'.Contained dest m0 := by
  rw [Printing.numberChar] at hret
  split at hret
  · cases hret
    exact h.congr _ _
  · split at hret
    · split at hret
      · exact (h.congr _ _).strcpy hret
      · cases hret
    · exact (h.congr _ _).strcpy hret

theorem Contained.putHex (h : s.Contained dest m0) {nibbles : Nat}
    (hret : s.putHex dest nibbles = .ret s') : s'.Contained dest m0 := by
  rw [Printing.putHex] at hret
  split at hret
  · cases hret
    exact (h.congr _ _).foldl_put _
  · cases hret

theorem Contained.directive (h : s.Contained dest m0) {c : Char}
    (hret : s.directive left dest c = .ret s') : s'.Contained dest m0 := by
  unfold Printing.directive at hret
  split at hret
  · split at hret
    · exact (h.congr _ _).strcpy hret
    · cases hret
  iterate 6 exact h.numberChar hret
  · exact h.putHex hret
  · exact h.putHex hret
  · split at hret
    · cases hret
      exact (h.congr _ _).put _
    · cases hret
  · cases hret
    exact h.put _
  · cases hret
    exact h

/-- One character of the format. -/
theorem Contained.step (h : s.Contained dest m0) {c : Char}
    (hret : s.step left dest c = .ret s') : s'.Contained dest m0 := by
  rw [Printing.step] at hret
  cases hscan : s.scan with
  | text =>
      rw [hscan] at hret
      cases hret
      split
      · exact h.congr _ _
      · exact h.put _
  | directive =>
      rw [hscan] at hret
      exact (h.congr _ _).directive hret
  | number longValue =>
      rw [hscan] at hret
      exact h.numberChar hret

theorem Contained.loop (h : s.Contained dest m0) {fmt : List Char}
    (hret : Printing.loop left dest fmt s = .ret s') : s'.Contained dest m0 := by
  induction fmt generalizing s with
  | nil =>
      cases hret
      exact h
  | cons c fmt ih =>
      obtain ⟨s1, hstep, hret⟩ := Outcome.bind_eq_ret.mp hret
      exact ih (h.step hstep) hret

/-- `strcpy` leaves the loop over the format where it is. -/
theorem strcpy_scan {str : VaArg} (hret : s.strcpy dest str = .ret s') : s'.scan = s.scan := by
  cases str with
  | text str =>
      cases hret
      rfl
  | value str =>
      obtain ⟨len, -, hret⟩ := Outcome.bind_eq_ret.mp hret
      cases hret
      rfl

/-! ## Plain text -/

/-- The loops over a format in two parts. -/
theorem loop_append (fmt fmt' : List Char) (s : Printing) :
    Printing.loop left dest (fmt ++ fmt') s =
      Printing.loop left dest fmt s >>= Printing.loop left dest fmt' := by
  induction fmt generalizing s with
  | nil => rfl
  | cons c fmt ih =>
      rw [List.cons_append, Printing.loop, Printing.loop]
      cases s.step left dest c with
      | ret s1 => exact ih s1
      | _ => rfl

/-- Characters other than `%` are printed as they are. -/
theorem loop_text {fmt : List Char} (hfmt : '%' ∉ fmt) (hs : s.scan = .text) :
    Printing.loop left dest fmt s = .ret ((fmt.map byte).foldl (Printing.put dest) s) := by
  induction fmt generalizing s with
  | nil => rfl
  | cons c fmt ih =>
      rw [List.mem_cons, not_or] at hfmt
      have hstep : s.step left dest c = .ret (s.put dest (byte c)) := by
        simp only [Printing.step, hs, if_neg (Ne.symm hfmt.1)]
      rw [Printing.loop, hstep, Outcome.ret_bind, ih (s := s.put dest (byte c)) hfmt.2 hs]
      rfl

/-- The bytes of a list are printed. -/
theorem foldl_put (bs : List UInt8) (s : Printing) :
    bs.foldl (Printing.put dest) s =
      { s with
        mem := putBytes s.mem (dest + s.printed) bs
        printed := s.printed + bs.length
        accesses :=
          s.accesses ++ (List.range bs.length).map fun i => .store (s.printed + i) 1 } := by
  induction bs generalizing s with
  | nil => simp [putBytes]
  | cons b bs ih =>
      rw [List.foldl_cons, ih, List.length_cons, List.range_succ_eq_map]
      simp [put, putBytes, Nat.add_assoc, Nat.add_comm 1]

end Printing

/-- `_sprintf` stores what it prints and a terminator. -/
theorem sprintf_contained {fmt : List Char} {args : List VaArg} {s : Printing}
    (hret : sprintf left m dest fmt args = .ret s) :
    s.Contained dest m ∧ Access.store s.printed 1 ∈ s.accesses := by
  obtain ⟨s1, hloop, hret⟩ := Outcome.bind_eq_ret.mp hret
  have hstart : Printing.Contained dest m ⟨m, 0, .text, args, []⟩ :=
    ⟨fun _ _ hmem => absurd hmem List.not_mem_nil, fun _ _ => rfl⟩
  split at hret
  · cases hret
    exact ⟨(hstart.loop hloop).terminate, by simp [Printing.terminate]⟩
  · cases hret

/-- Whatever the format and the arguments are, what `_sprintf` stores fits in `size` bytes if
and only if what it prints does, with a terminator. -/
theorem sprintf_stores_iff {fmt : List Char} {args : List VaArg} {s : Printing}
    (hret : sprintf left m dest fmt args = .ret s) (size : Nat) :
    (∀ offset n, Access.store offset n ∈ s.accesses → offset + n ≤ size) ↔
      s.printed + 1 ≤ size := by
  obtain ⟨hcontained, hlast⟩ := sprintf_contained hret
  exact ⟨fun h => h _ _ hlast, fun hsize offset n hmem =>
    (hcontained.stores offset n hmem).trans hsize⟩

/-! ## Formats with one string -/

/-- Bytes that are printed one after the other load nothing. -/
theorem stores_loaded (offset k : Nat) :
    ((List.range k).map fun i => Access.store (offset + i) 1).filterMap Access.loaded = [] := by
  rw [List.filterMap_eq_nil_iff]
  intro a ha
  obtain ⟨i, -, rfl⟩ := List.mem_map.mp ha
  rfl

theorem load_mem_iff {accesses : List Access} {str n : Nat} :
    Access.load str n ∈ accesses ↔ (str, n) ∈ accesses.filterMap Access.loaded := by
  rw [List.mem_filterMap]
  constructor
  · intro hmem
    exact ⟨_, hmem, rfl⟩
  · rintro ⟨a, hmem, ha⟩
    cases a with
    | load str n =>
        cases ha
        exact hmem
    | store offset n => cases ha

section OneString

variable {pre post : List Char} (left) (m) (dest)

/-- The state when the formatter comes to the string. -/
def beforeString (pre : List Char) : Printing where
  mem := putBytes m dest (pre.map byte)
  printed := pre.length
  scan := .text
  args := []
  accesses := (List.range pre.length).map fun i => .store (0 + i) 1

/-- What is before the string is printed, the string is copied, and what is behind it is
printed. -/
theorem sprintf_string (hpre : '%' ∉ pre) (hpost : '%' ∉ post) (str : VaArg) :
    sprintf left m dest (pre ++ '%' :: 's' :: post) [str] =
      (beforeString m dest pre).strcpy dest str >>= fun s =>
        .ret (((post.map byte).foldl (Printing.put dest) s).terminate dest) := by
  have hloop : Printing.loop left dest pre ⟨m, 0, .text, [str], []⟩ =
      .ret { beforeString m dest pre with args := [str] } := by
    rw [Printing.loop_text hpre rfl, Printing.foldl_put]
    simp [beforeString]
  have hdirective : Printing.loop left dest ('%' :: 's' :: post)
      { beforeString m dest pre with args := [str] } =
        (beforeString m dest pre).strcpy dest str >>= Printing.loop left dest post := rfl
  rw [sprintf, Printing.loop_append, hloop, Outcome.ret_bind, hdirective]
  cases hcopy : (beforeString m dest pre).strcpy dest str with
  | ret s =>
      have hscan : s.scan = .text := Printing.strcpy_scan hcopy
      rw [Outcome.ret_bind, Outcome.ret_bind, Printing.loop_text hpost hscan, Outcome.ret_bind,
        Printing.foldl_put]
      simp only [hscan]
  | _ => rfl

/-- A string constant. -/
theorem sprintf_text (hpre : '%' ∉ pre) (hpost : '%' ∉ post) (str : List UInt8) :
    ∃ s, sprintf left m dest (pre ++ '%' :: 's' :: post) [.text str] = .ret s ∧
      s.printed = pre.length + str.length + post.length ∧
      s.accesses.filterMap Access.loaded = [] := by
  rw [sprintf_string left m dest hpre hpost, Printing.strcpy, Outcome.ret_bind]
  refine ⟨_, rfl, ?_, ?_⟩
  · simp [Printing.terminate, Printing.foldl_put, beforeString]
  · simp only [Printing.terminate, Printing.foldl_put, beforeString, List.filterMap_append,
      stores_loaded]
    rfl

/-- A string in memory. -/
theorem sprintf_value (hpre : '%' ∉ pre) (hpost : '%' ∉ post) {str len : Nat}
    (hlen : strlen (bytesAt (putBytes m dest (pre.map byte)) str) word = .ret len) :
    ∃ s, sprintf left m dest (pre ++ '%' :: 's' :: post) [.value str] = .ret s ∧
      s.printed = pre.length + len + post.length ∧
      s.accesses.filterMap Access.loaded = [(str, len + 1)] := by
  have hcopy : strlen (bytesAt (beforeString m dest pre).mem str) word = .ret len := hlen
  rw [sprintf_string left m dest hpre hpost, Printing.strcpy, hcopy, Outcome.ret_bind,
    Outcome.ret_bind]
  refine ⟨_, rfl, ?_, ?_⟩
  · simp [Printing.terminate, Printing.foldl_put, beforeString]
  · simp only [Printing.terminate, Printing.foldl_put, beforeString, List.filterMap_append,
      stores_loaded]
    rfl

/-- A string that does not end. -/
theorem sprintf_hang (hpre : '%' ∉ pre) (hpost : '%' ∉ post) {str : Nat}
    (hlen : strlen (bytesAt (putBytes m dest (pre.map byte)) str) word = .hang) :
    sprintf left m dest (pre ++ '%' :: 's' :: post) [.value str] = .hang := by
  have hcopy : strlen (bytesAt (beforeString m dest pre).mem str) word = .hang := hlen
  rw [sprintf_string left m dest hpre hpost, Printing.strcpy, hcopy]
  rfl

end OneString

end Sprintf

end UlmerOS
