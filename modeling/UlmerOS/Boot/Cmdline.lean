import UlmerOS.Util.Conversion

/-!
# The command line

`cmdline_parse` and `cmdline_get` of `init/cmdline.c`.  The parser reads one character after the
other and stores it at `name_ptr` or `val_ptr`, which point into `param`, 64 bytes on the stack.
A store behind them is a fault.  `args` is the sequence of its records, and `left` is what is in
the memory that `kmalloc` returns for them.

The parser ends at a terminator only while it reads a value, and it looks for the end of a name
and of a value and not at their lengths.  `cmdline_ends_iff` says which strings it gets to the
end of, and `cmdline_roundTrip` which parameters are found again.
-/

namespace UlmerOS

open ByteMem

namespace Cmdline

open Sprintf Conversion

/-! ## The parser -/

/-- The variables of `cmdline_parse`, and `args`.  The pointers are offsets in `param`, where
`name` is at `0` and `value` at `32`. -/
structure Parsing where
  mode : Nat
  param : Mem
  namePtr : Nat
  valPtr : Nat
  args : List Mem

/-- A character is stored in `param`. -/
def putParam (param : Mem) (ptr : Nat) (c : UInt8) : Outcome Mem :=
  if ptr < 64 then .ret (Function.update param ptr c) else .fault

/-- `strcpy` to an offset in a record. -/
def strcpy (p : Mem) (dest : Nat) (src : Mem) : Outcome Mem := do
  let len ← strlen src word
  if dest + len < 64 then
    .ret fun x => if dest ≤ x ∧ x ≤ dest + len then src (x - dest) else p x
  else .fault

/-- One round of the loop.  `false` is its `break`. -/
def parseChar (left : Nat → Mem) (s : Parsing) (c : UInt8) : Outcome (Bool × Parsing) :=
  if s.mode = 0 then
    if c = byte '=' then do
      let param ← putParam s.param s.namePtr 0
      .ret (true, { s with param := param, namePtr := s.namePtr + 1, mode := 1 })
    else do
      let param ← putParam s.param s.namePtr c
      .ret (true, { s with param := param, namePtr := s.namePtr + 1 })
  else if c = byte ' ' ∨ c = 0 then do
    let param ← putParam s.param s.valPtr 0
    let p ← strcpy (left s.args.length) 0 param
    let p ← strcpy p 32 fun x => param (32 + x)
    .ret (decide (c ≠ 0),
      { mode := 0, param := param, namePtr := 0, valPtr := 32, args := s.args ++ [p] })
  else do
    let param ← putParam s.param s.valPtr c
    .ret (true, { s with param := param, valPtr := s.valPtr + 1 })

/-- The loop, from the character at `pos` on.  It returns the number of characters read. -/
def parseLoop (left : Nat → Mem) (cmdline : Mem) : Nat → Nat → Parsing → Outcome (Nat × Parsing)
  | 0, _, _ => .hang
  | fuel + 1, pos, s => do
      let (more, s) ← parseChar left s (cmdline pos)
      if more then parseLoop left cmdline fuel (pos + 1) s else .ret (pos + 1, s)

/-- `cmdline_parse`: the number of characters read, and `args`.  What is in `param` before is
`stack`. -/
def cmdlineParse (left : Nat → Mem) (stack cmdline : Mem) (fuel : Nat) :
    Outcome (Nat × List Mem) := do
  let (read, s) ← parseLoop left cmdline fuel 0 ⟨0, stack, 0, 32, []⟩
  .ret (read, s.args)

/-- `strcmp`. -/
def strcmp (str1 str2 : Mem) : Nat → Outcome Int
  | 0 => .hang
  | fuel + 1 =>
      if str1 0 ≠ 0 ∧ str1 0 = str2 0 then
        strcmp (fun i => str1 (i + 1)) (fun i => str2 (i + 1)) fuel
      else .ret ((str1 0).toNat - (str2 0).toNat)

/-- `cmdline_get`: the bytes at the pointer that is returned. -/
def cmdlineGet (param : Mem) : List Mem → Outcome (Option Mem)
  | [] => .ret none
  | p :: args => do
      let diff ← strcmp param p word
      if diff = 0 then .ret (some fun x => p (32 + x)) else cmdlineGet param args

/-! ## Strings with parameters -/

/-- The name and the value of a parameter. -/
abbrev NameValue := List UInt8 × List UInt8

/-- The parameters with single spaces between them. -/
def cmdlineText : List NameValue → List UInt8
  | [] => []
  | [(name, value)] => name ++ byte '=' :: value
  | (name, value) :: params => name ++ byte '=' :: (value ++ byte ' ' :: cmdlineText params)

/-- A parameter that can be told from what is around it, with at most `size` bytes of name. -/
structure Distinct (size : Nat) (p : NameValue) : Prop where
  name_eq : byte '=' ∉ p.1
  name_zero : 0 ∉ p.1
  name_le : p.1.length ≤ size
  value_space : byte ' ' ∉ p.2
  value_zero : 0 ∉ p.2
  value_le : p.2.length ≤ 31

/-- What is in a record. -/
def Holds (p : NameValue) (record : Mem) : Prop :=
  Stands record 0 (p.1 ++ [0]) ∧ Stands record 32 (p.2 ++ [0])

/-! ## Reading a name or a value -/

variable {left : Nat → Mem} {cmdline : Mem} {pos read : Nat} {s s' : Parsing}

/-- The loop returns after some number of rounds. -/
def Returns (left : Nat → Mem) (cmdline : Mem) (pos : Nat) (s : Parsing) (read : Nat)
    (s' : Parsing) : Prop :=
  ∃ fuel, parseLoop left cmdline fuel pos s = .ret (read, s')

/-- One round, and what is behind it. -/
theorem returns_iff : Returns left cmdline pos s read s' ↔
    (∃ s1, parseChar left s (cmdline pos) = .ret (true, s1) ∧
      Returns left cmdline (pos + 1) s1 read s') ∨
    parseChar left s (cmdline pos) = .ret (false, s') ∧ read = pos + 1 := by
  constructor
  · rintro ⟨fuel, hret⟩
    cases fuel with
    | zero => cases hret
    | succ fuel =>
        obtain ⟨⟨more, s1⟩, hchar, hret⟩ := Outcome.bind_eq_ret.mp hret
        cases more with
        | true => exact .inl ⟨s1, hchar, fuel, hret⟩
        | false =>
            cases hret
            exact .inr ⟨hchar, rfl⟩
  · rintro (⟨s1, hchar, fuel, hret⟩ | ⟨hchar, rfl⟩)
    · exact ⟨fuel + 1, by rw [parseLoop, hchar]; exact hret⟩
    · exact ⟨1, by rw [parseLoop, hchar]; rfl⟩

/-- The loop has read something when it returns. -/
theorem Returns.lt (h : Returns left cmdline pos s read s') : pos < read := by
  obtain ⟨fuel, hret⟩ := h
  induction fuel generalizing pos s with
  | zero => cases hret
  | succ fuel ih =>
      obtain ⟨⟨more, s1⟩, -, hret⟩ := Outcome.bind_eq_ret.mp hret
      cases more with
      | true => exact Nat.lt_of_succ_lt (ih hret)
      | false =>
          cases hret
          exact Nat.lt_succ_self pos

/-- The first of the characters that are read, and the others. -/
theorem stands_cons {m : Mem} {a : Nat} {b : UInt8} {bs : List UInt8} :
    Stands m a (b :: bs) ↔ m a = b ∧ Stands m (a + 1) bs := by
  have happend : Stands m a ([b] ++ bs) ↔ _ := stands_append
  rw [List.singleton_append, List.length_singleton] at happend
  rw [happend]
  refine and_congr_left fun _ => ⟨fun h => h 0 Nat.one_pos, fun h i hi => ?_⟩
  rw [Nat.lt_one_iff.mp hi]
  exact h

/-- A string one byte further on. -/
theorem stands_shift {m : Mem} {bs : List UInt8} :
    Stands (fun i => m (i + 1)) 0 bs ↔ Stands m 1 bs := by
  refine forall₂_congr fun i _ => ?_
  rw [Nat.zero_add, Nat.add_comm 1]

/-- A round that stores one character. -/
theorem returns_put {ptr : Nat} {c : UInt8} {next : Mem → Parsing}
    (hchar : parseChar left s (cmdline pos) = (do
      let param ← putParam s.param ptr c
      .ret (true, next param))) :
    Returns left cmdline pos s read s' ↔ ptr < 64 ∧
      Returns left cmdline (pos + 1) (next (Function.update s.param ptr c)) read s' := by
  rw [returns_iff, hchar, putParam]
  by_cases hlt : ptr < 64
  · rw [if_pos hlt, Outcome.ret_bind, and_iff_right hlt]
    constructor
    · rintro (⟨s1, h, hrest⟩ | ⟨h, -⟩)
      · cases h
        exact hrest
      · cases h
    · intro hrest
      exact .inl ⟨_, rfl, hrest⟩
  · rw [if_neg hlt]
    refine iff_of_false ?_ fun h => hlt h.1
    rintro (⟨s1, h, -⟩ | ⟨h, -⟩)
    · cases h
    · cases h

/-- The characters of a name are stored, if they fit. -/
theorem returns_name {xs : List UInt8} (hxs : byte '=' ∉ xs) (hread : Stands cmdline pos xs)
    (hmode : s.mode = 0) (hptr : s.namePtr ≤ 64) :
    Returns left cmdline pos s read s' ↔ s.namePtr + xs.length ≤ 64 ∧
      Returns left cmdline (pos + xs.length)
        { s with param := write s.param s.namePtr xs, namePtr := s.namePtr + xs.length }
        read s' := by
  induction xs generalizing pos s with
  | nil =>
      rw [write_nil]
      exact (and_iff_right hptr).symm
  | cons x xs ih =>
      rw [List.mem_cons, not_or] at hxs
      obtain ⟨hx, hread⟩ := stands_cons.mp hread
      have hchar : parseChar left s (cmdline pos) = (do
          let param ← putParam s.param s.namePtr x
          .ret (true, { s with param := param, namePtr := s.namePtr + 1 })) := by
        rw [parseChar, if_pos hmode, hx, if_neg (Ne.symm hxs.1)]
      rw [returns_put hchar, List.length_cons]
      by_cases hlt : s.namePtr < 64
      · have hrest := ih (s := { s with
          param := Function.update s.param s.namePtr x, namePtr := s.namePtr + 1 })
          hxs.2 hread hmode (Nat.succ_le_of_lt hlt)
        simp only [write_cons, Nat.add_assoc, Nat.add_comm 1] at hrest
        rw [and_iff_right hlt, hrest]
      · exact iff_of_false (fun h => hlt h.1) fun h => by omega

/-- The characters of a value are stored, if they fit. -/
theorem returns_value {xs : List UInt8} (hspace : byte ' ' ∉ xs) (hzero : 0 ∉ xs)
    (hread : Stands cmdline pos xs) (hmode : s.mode ≠ 0) (hptr : s.valPtr ≤ 64) :
    Returns left cmdline pos s read s' ↔ s.valPtr + xs.length ≤ 64 ∧
      Returns left cmdline (pos + xs.length)
        { s with param := write s.param s.valPtr xs, valPtr := s.valPtr + xs.length }
        read s' := by
  induction xs generalizing pos s with
  | nil =>
      rw [write_nil]
      exact (and_iff_right hptr).symm
  | cons x xs ih =>
      rw [List.mem_cons, not_or] at hspace hzero
      obtain ⟨hx, hread⟩ := stands_cons.mp hread
      have hend : ¬ (x = byte ' ' ∨ x = 0) := not_or.mpr ⟨Ne.symm hspace.1, Ne.symm hzero.1⟩
      have hchar : parseChar left s (cmdline pos) = (do
          let param ← putParam s.param s.valPtr x
          .ret (true, { s with param := param, valPtr := s.valPtr + 1 })) := by
        rw [parseChar, if_neg hmode, hx, if_neg hend]
      rw [returns_put hchar, List.length_cons]
      by_cases hlt : s.valPtr < 64
      · have hrest := ih (s := { s with
          param := Function.update s.param s.valPtr x, valPtr := s.valPtr + 1 })
          hspace.2 hzero.2 hread hmode (Nat.succ_le_of_lt hlt)
        simp only [write_cons, Nat.add_assoc, Nat.add_comm 1] at hrest
        rw [and_iff_right hlt, hrest]
      · exact iff_of_false (fun h => hlt h.1) fun h => by omega

/-! ## Reading a parameter -/

/-- Between two parameters. -/
structure Ready (s : Parsing) : Prop where
  mode_eq : s.mode = 0
  namePtr_eq : s.namePtr = 0
  valPtr_eq : s.valPtr = 32

/-- The variables behind the value of a parameter. -/
def assigned (s : Parsing) (p : NameValue) : Parsing :=
  { s with
    mode := 1
    param := write (Function.update (write s.param 0 p.1) p.1.length 0) 32 p.2
    namePtr := p.1.length + 1
    valPtr := 32 + p.2.length }

/-- A name, `=` and a value are read, if they fit. -/
theorem returns_assigned (h : Ready s) {p : NameValue} (heq : byte '=' ∉ p.1)
    (hspace : byte ' ' ∉ p.2) (hzero : 0 ∉ p.2)
    (hread : Stands cmdline pos (p.1 ++ byte '=' :: p.2)) :
    Returns left cmdline pos s read s' ↔ p.1.length ≤ 63 ∧ p.2.length ≤ 32 ∧
      Returns left cmdline (pos + (p.1 ++ byte '=' :: p.2).length) (assigned s p) read s' := by
  have hpos : pos + (p.1 ++ byte '=' :: p.2).length = pos + p.1.length + 1 + p.2.length := by
    rw [List.length_append, List.length_cons]
    omega
  rw [hpos]
  obtain ⟨hname, hrest⟩ := stands_append.mp hread
  obtain ⟨hsep, hvalue⟩ := stands_cons.mp hrest
  obtain ⟨mode, param, namePtr, valPtr, args⟩ := s
  obtain ⟨rfl, rfl, rfl⟩ := h
  have hchar : parseChar left
      ⟨0, write param 0 p.1, 0 + p.1.length, 32, args⟩ (cmdline (pos + p.1.length)) = (do
        let param' ← putParam (write param 0 p.1) (0 + p.1.length) 0
        .ret (true, ⟨1, param', 0 + p.1.length + 1, 32, args⟩)) := by
    rw [parseChar, if_pos rfl, hsep, if_pos rfl]
  have hend : Returns left cmdline (pos + p.1.length + 1) ⟨1, Function.update (write param 0 p.1)
      (0 + p.1.length) 0, 0 + p.1.length + 1, 32, args⟩ read s' ↔ _ :=
    returns_value hspace hzero hvalue Nat.one_ne_zero (show 32 ≤ 64 by decide)
  rw [returns_name heq hname rfl (Nat.zero_le 64), returns_put hchar, hend, assigned]
  simp only [Nat.zero_add]
  constructor
  · rintro ⟨-, hlt, hle, hreturns⟩
    exact ⟨by omega, by omega, hreturns⟩
  · rintro ⟨hlt, hle, hreturns⟩
    exact ⟨by omega, by omega, by omega, hreturns⟩

/-- A string of a record is copied, wherever it ends. -/
theorem strcpy_returns {p src : Mem} {dest k : Nat} (hzero : src k = 0) (hk : dest + k < 64) :
    ∃ p', strcpy p dest src = .ret p' := by
  rcases strlen_cases src word with ⟨n, -, hlen, -, hbefore⟩ | ⟨-, hall⟩
  · have hnk : n ≤ k := by
      by_contra hlt
      exact hbefore k (Nat.not_le.mp hlt) hzero
    rw [strcpy, hlen, Outcome.ret_bind, if_pos (by omega)]
    exact ⟨_, rfl⟩
  · have hword : 64 < word := by decide
    exact absurd hzero (hall k (by omega))

/-- A string of a record is copied, and nothing before it is changed. -/
theorem strcpy_stands {p src : Mem} {dest : Nat} {bs : List UInt8}
    (h : Stands src 0 (bs ++ [0])) (hzero : 0 ∉ bs) (hlen : dest + bs.length < 64) :
    ∃ p', strcpy p dest src = .ret p' ∧ Stands p' dest (bs ++ [0]) ∧
      ∀ x < dest, p' x = p x := by
  have hword : 64 < word := by decide
  rw [strcpy, strlen_stands h hzero (by omega), Outcome.ret_bind, if_pos hlen]
  refine ⟨_, rfl, fun i hi => ?_, fun x hx => if_neg (by omega)⟩
  have hbyte := h i hi
  rw [Nat.zero_add] at hbyte
  rw [List.length_append, List.length_singleton] at hi
  refine (if_pos ⟨by omega, by omega⟩).trans ?_
  rw [Nat.add_sub_cancel_left, hbyte]

/-- The last character of a parameter, if its value fits: a record is added. -/
theorem parseChar_end (left : Nat → Mem) (s : Parsing) {p : NameValue} (hzero : 0 ∉ p.2)
    (hname : p.1.length ≤ 63) (hvalue : p.2.length ≤ 31) {c : UInt8} (hc : c = byte ' ' ∨ c = 0) :
    ∃ s1 record, parseChar left (assigned s p) c = .ret (decide (c ≠ 0), s1) ∧ Ready s1 ∧
      s1.args = s.args ++ [record] ∧ (0 ∉ p.1 → p.1.length ≤ 31 → Holds p record) := by
  obtain ⟨param, hparam⟩ : ∃ param, param =
      Function.update (assigned s p).param (32 + p.2.length) 0 := ⟨_, rfl⟩
  have hval : Stands (fun x => param (32 + x)) 0 (p.2 ++ [0]) := by
    have hsnoc := stands_snoc (stands_write (Function.update (write s.param 0 p.1) p.1.length 0)
      32 p.2) 0
    intro i hi
    rw [Nat.zero_add, hparam]
    exact hsnoc i hi
  have hend : param (32 + p.2.length) = 0 := by rw [hparam, Function.update_self]
  obtain ⟨p1, hcopy1⟩ : ∃ p1, strcpy (left s.args.length) 0 param = .ret p1 :=
    strcpy_returns hend (by omega)
  obtain ⟨p2, hcopy2, hstands2, hkeep⟩ : ∃ p2, strcpy p1 32 (fun x => param (32 + x)) = .ret p2 ∧
      Stands p2 32 (p.2 ++ [0]) ∧ ∀ x < 32, p2 x = p1 x := strcpy_stands hval hzero (by omega)
  refine ⟨⟨0, param, 0, 32, s.args ++ [p2]⟩, p2, ?_, ⟨rfl, rfl, rfl⟩, rfl, fun hname0 hname31 => ?_⟩
  · have hput : putParam (assigned s p).param (assigned s p).valPtr 0 = .ret param := by
      rw [hparam]
      exact if_pos (show 32 + p.2.length < 64 by omega)
    rw [parseChar, if_neg (show (assigned s p).mode ≠ 0 from Nat.one_ne_zero), if_pos hc, hput,
      Outcome.ret_bind, show (assigned s p).args.length = s.args.length from rfl, hcopy1,
      Outcome.ret_bind, hcopy2, Outcome.ret_bind]
    rfl
  · -- a short name lies before the value
    have hshort : Stands param 0 (p.1 ++ [0]) := by
      have hsnoc := stands_snoc (stands_write s.param 0 p.1) 0
      intro i hi
      have hi' := hi
      rw [List.length_append, List.length_singleton] at hi'
      rw [← hsnoc i hi, Nat.zero_add, Nat.zero_add, hparam, Function.update_of_ne (by omega)]
      exact write_of_not_mem (by omega)
    obtain ⟨p1', hcopy1', hstands1, -⟩ : ∃ p', strcpy (left s.args.length) 0 param = .ret p' ∧
        Stands p' 0 (p.1 ++ [0]) ∧ ∀ x < 0, p' x = left s.args.length x :=
      strcpy_stands hshort hname0 (by omega)
    rw [hcopy1] at hcopy1'
    cases hcopy1'
    refine ⟨fun i hi => ?_, hstands2⟩
    have hi' := hi
    rw [List.length_append, List.length_singleton] at hi'
    rw [hkeep _ (by omega)]
    exact hstands1 i hi

/-- A parameter and the character behind it are read, if its name and its value fit. -/
theorem returns_param (left : Nat → Mem) (h : Ready s) {p : NameValue} (heq : byte '=' ∉ p.1)
    (hspace : byte ' ' ∉ p.2) (hzero : 0 ∉ p.2) {c : UInt8} (hc : c = byte ' ' ∨ c = 0)
    (hread : Stands cmdline pos ((p.1 ++ byte '=' :: p.2) ++ [c])) (hname : p.1.length ≤ 63)
    (hvalue : p.2.length ≤ 31) :
    ∃ s1 record, Ready s1 ∧ s1.args = s.args ++ [record] ∧
      (0 ∉ p.1 → p.1.length ≤ 31 → Holds p record) ∧
      ∀ read s', Returns left cmdline pos s read s' ↔
        c ≠ 0 ∧ Returns left cmdline (pos + (p.1 ++ byte '=' :: p.2).length + 1) s1 read s' ∨
        c = 0 ∧ s' = s1 ∧ read = pos + (p.1 ++ byte '=' :: p.2).length + 1 := by
  obtain ⟨hpair, hend⟩ := stands_append.mp hread
  have hlast : cmdline (pos + (p.1 ++ byte '=' :: p.2).length) = c := hend 0 Nat.one_pos
  obtain ⟨s1, record, hchar, hready, hargs, hholds⟩ :=
    parseChar_end left s (p := p) hzero hname hvalue hc
  refine ⟨s1, record, hready, hargs, hholds, fun read s' => ?_⟩
  rw [returns_assigned h heq hspace hzero hpair, and_iff_right hname,
    and_iff_right (hvalue.trans (Nat.le_succ 31)), returns_iff, hlast, hchar]
  by_cases hc0 : c = 0
  · simp [hc0, eq_comm]
  · simp [hc0]

/-- The loop does not return from a parameter whose name or value does not fit. -/
theorem length_le_of_returns (h : Ready s) {p : NameValue} (heq : byte '=' ∉ p.1)
    (hspace : byte ' ' ∉ p.2) (hzero : 0 ∉ p.2) {c : UInt8} (hc : c = byte ' ' ∨ c = 0)
    (hread : Stands cmdline pos ((p.1 ++ byte '=' :: p.2) ++ [c]))
    (hret : Returns left cmdline pos s read s') : p.1.length ≤ 63 ∧ p.2.length ≤ 31 := by
  obtain ⟨hpair, hend⟩ := stands_append.mp hread
  have hlast : cmdline (pos + (p.1 ++ byte '=' :: p.2).length) = c := hend 0 Nat.one_pos
  obtain ⟨hname, -, hret⟩ := (returns_assigned h heq hspace hzero hpair).mp hret
  refine ⟨hname, ?_⟩
  by_contra hlong
  have hptr : ¬ (assigned s p).valPtr < 64 := show ¬ 32 + p.2.length < 64 by omega
  have hchar : parseChar left (assigned s p) c = .fault := by
    rw [parseChar, if_neg (show (assigned s p).mode ≠ 0 from Nat.one_ne_zero), if_pos hc, putParam,
      if_neg hptr]
    rfl
  rw [returns_iff, hlast, hchar] at hret
  rcases hret with ⟨s1, hret, -⟩ | ⟨hret, -⟩
  · cases hret
  · cases hret

/-! ## Reading the command line -/

/-- A parameter as it stands in the command line. -/
theorem cmdlineText_cons (p : NameValue) {params : List NameValue} (h : params ≠ []) :
    cmdlineText (p :: params) =
      (p.1 ++ byte '=' :: p.2) ++ [byte ' '] ++ cmdlineText params := by
  obtain ⟨q, params, rfl⟩ := List.exists_cons_of_ne_nil h
  simp [cmdlineText]

/-- One record for each parameter.  A name of more than 31 bytes runs into the value. -/
def Records (params : List NameValue) (records : List Mem) : Prop :=
  List.Forall₂ (fun p record => p.1.length ≤ 31 → Holds p record) params records

/-- All parameters are read, and the loop ends at the terminator. -/
theorem returns_params (left : Nat → Mem) {params : List NameValue} (hne : params ≠ [])
    (h : Ready s) (hparams : ∀ p ∈ params, Distinct 63 p)
    (hread : Stands cmdline pos (cmdlineText params ++ [0])) :
    ∃ s' records, Returns left cmdline pos s (pos + (cmdlineText params).length + 1) s' ∧
      s'.args = s.args ++ records ∧ Records params records := by
  induction params generalizing pos s with
  | nil => exact absurd rfl hne
  | cons p params ih =>
      have hp := hparams p List.mem_cons_self
      by_cases hlast : params = []
      · subst hlast
        obtain ⟨s1, record, -, hargs, hholds, hreturns⟩ := returns_param left h hp.name_eq
          hp.value_space hp.value_zero (.inr rfl) hread hp.name_le hp.value_le
        exact ⟨s1, [record], (hreturns _ _).mpr (.inr ⟨rfl, rfl, rfl⟩), hargs,
          .cons (hholds hp.name_zero) .nil⟩
      · rw [cmdlineText_cons p hlast] at hread ⊢
        rw [List.append_assoc _ (cmdlineText params)] at hread
        obtain ⟨hpair, hrest⟩ := stands_append.mp hread
        rw [List.length_append, List.length_singleton, ← Nat.add_assoc] at hrest
        obtain ⟨s1, record, hready, hargs, hholds, hreturns⟩ := returns_param left h hp.name_eq
          hp.value_space hp.value_zero (.inl rfl) hpair hp.name_le hp.value_le
        obtain ⟨s', records, hrest, hargs', hrecords⟩ := ih hlast hready
          (fun q hq => hparams q (List.mem_cons_of_mem p hq)) hrest
        refine ⟨s', record :: records, ?_, ?_, .cons (hholds hp.name_zero) hrecords⟩
        · have hlen : ((p.1 ++ byte '=' :: p.2) ++ [byte ' '] ++ cmdlineText params).length =
              (p.1 ++ byte '=' :: p.2).length + 1 + (cmdlineText params).length := by
            rw [List.length_append, List.length_append, List.length_singleton]
          rw [hlen, ← Nat.add_assoc, ← Nat.add_assoc]
          exact (hreturns _ _).mpr (.inl ⟨by decide, hrest⟩)
        · rw [hargs', hargs, List.append_assoc]
          rfl

/-- If the loop returns at the terminator or before it, it has read parameters. -/
theorem params_of_returns {text : List UInt8} (h : Ready s) (hzero : 0 ∉ text)
    (hread : Stands cmdline pos (text ++ [0])) (hret : Returns left cmdline pos s read s')
    (hle : read ≤ pos + text.length + 1) :
    ∃ params, params ≠ [] ∧ (∀ p ∈ params, Distinct 63 p) ∧ text = cmdlineText params := by
  induction hlen : text.length using Nat.strong_induction_on generalizing text pos s with
  | _ n ih =>
      by_cases heq : byte '=' ∈ text
      · obtain ⟨name, rest, rfl, hname⟩ := List.eq_append_cons_of_mem heq
        rw [List.mem_append, not_or, List.mem_cons, not_or] at hzero
        obtain ⟨hname0, -, hrest0⟩ := hzero
        by_cases hspace : byte ' ' ∈ rest
        · -- the space is behind the value, and the next parameter behind it
          obtain ⟨value, rest, rfl, hvalue⟩ := List.eq_append_cons_of_mem hspace
          rw [List.mem_append, not_or, List.mem_cons, not_or] at hrest0
          obtain ⟨hvalue0, -, hrest0⟩ := hrest0
          have hsplit : (name ++ byte '=' :: (value ++ byte ' ' :: rest)) ++ [0] =
              ((name ++ byte '=' :: value) ++ [byte ' ']) ++ (rest ++ [0]) := by simp
          rw [hsplit] at hread
          obtain ⟨hpair, hread⟩ := stands_append.mp hread
          rw [List.length_append, List.length_singleton, ← Nat.add_assoc] at hread
          obtain ⟨hname63, hvalue31⟩ := length_le_of_returns (p := (name, value)) h hname hvalue
            hvalue0 (.inl rfl) hpair hret
          obtain ⟨s1, record, hready, -, -, hreturns⟩ := returns_param left (p := (name, value)) h
            hname hvalue hvalue0 (.inl rfl) hpair hname63 hvalue31
          rcases (hreturns _ _).mp hret with ⟨-, hret⟩ | ⟨hc, -⟩
          · simp only [List.length_append, List.length_cons] at hle hlen
            obtain ⟨params, hne, hparams, rfl⟩ := ih rest.length (by omega) hready hrest0 hread hret
              (by simp only [List.length_append, List.length_cons]; omega) rfl
            refine ⟨(name, value) :: params, List.cons_ne_nil _ _, fun p hp => ?_, ?_⟩
            · rcases List.mem_cons.mp hp with rfl | hp
              · exact ⟨hname, hname0, hname63, hvalue, hvalue0, hvalue31⟩
              · exact hparams p hp
            · rw [cmdlineText_cons (name, value) hne]
              simp
          · cases hc
        · -- the value is the last one
          obtain ⟨hname63, hrest31⟩ := length_le_of_returns (p := (name, rest)) h hname hspace
            hrest0 (.inr rfl) hread hret
          refine ⟨[(name, rest)], List.cons_ne_nil _ _, fun p hp => ?_, rfl⟩
          rw [List.mem_singleton.mp hp]
          exact ⟨hname, hname0, hname63, hspace, hrest0, hrest31⟩
      · -- the terminator is read as a character of the name
        have hall : byte '=' ∉ text ++ [0] := by
          rw [List.mem_append, not_or]
          exact ⟨heq, by decide⟩
        have hname := (returns_name hall hread h.mode_eq (by rw [h.namePtr_eq]; decide)).mp hret
        have hlt := hname.2.lt
        rw [List.length_append, List.length_singleton] at hlt
        omega

/-- The state at the start. -/
theorem ready_start (stack : Mem) : Ready ⟨0, stack, 0, 32, []⟩ := ⟨rfl, rfl, rfl⟩

/-- `cmdline_parse` ends at the terminator, without a look behind it, exactly if the string is a
sequence of one or more parameters with single spaces between them, no value of which has more
than 31 bytes and no name more than 63. -/
theorem cmdline_ends_iff (left : Nat → Mem) (stack : Mem) {text : List UInt8}
    (hzero : 0 ∉ text) (hread : Stands cmdline 0 (text ++ [0])) :
    (∃ fuel read args, cmdlineParse left stack cmdline fuel = .ret (read, args) ∧
      read ≤ text.length + 1) ↔
    ∃ params, params ≠ [] ∧ (∀ p ∈ params, Distinct 63 p) ∧ text = cmdlineText params := by
  constructor
  · rintro ⟨fuel, read, args, hret, hle⟩
    obtain ⟨⟨read', s'⟩, hloop, hret⟩ := Outcome.bind_eq_ret.mp hret
    cases hret
    exact params_of_returns (ready_start stack) hzero hread ⟨fuel, hloop⟩
      (by rwa [Nat.zero_add])
  · rintro ⟨params, hne, hparams, rfl⟩
    obtain ⟨s', records, ⟨fuel, hloop⟩, -⟩ :=
      returns_params left hne (ready_start stack) hparams hread
    rw [Nat.zero_add] at hloop
    exact ⟨fuel, _, s'.args, by rw [cmdlineParse, hloop]; rfl, Nat.le_refl _⟩

/-- Two parameters. -/
theorem cmdline_ends_iff_two : ∃ fuel read args,
    cmdlineParse (fun _ _ => 7) (fun _ => 7)
      (fun x => (bytes "init=/bin/sh rootfs=").getD x 0) fuel = .ret (read, args) ∧ read ≤ 21 := by
  refine (cmdline_ends_iff (fun _ _ => 7) (fun _ => 7)
    (show 0 ∉ bytes "init=/bin/sh rootfs=" by decide) (by rw [Stands]; decide)).mpr
    ⟨[(bytes "init", bytes "/bin/sh"), (bytes "rootfs", [])], by decide, fun p hp => ?_, by decide⟩
  simp only [List.mem_cons, List.not_mem_nil, or_false] at hp
  rcases hp with rfl | rfl
  · exact ⟨by decide, by decide, by decide, by decide, by decide, by decide⟩
  · exact ⟨by decide, by decide, by decide, by decide, by decide, by decide⟩

/-- `cmdline_parse` does not end at the terminator of a word without `=`. -/
theorem cmdline_flag_runs_on : ¬ ∃ fuel read args,
    cmdlineParse (fun _ _ => 0) (fun _ => 0) (fun x => (bytes "quiet").getD x 0) fuel =
      .ret (read, args) ∧ read ≤ 6 := by
  rintro ⟨fuel, read, args, hret, hle⟩
  obtain ⟨⟨read', s'⟩, hloop, hret⟩ := Outcome.bind_eq_ret.mp hret
  cases hret
  obtain ⟨params, hne, -, htext⟩ := params_of_returns (ready_start fun _ => 0)
    (show 0 ∉ bytes "quiet" by decide) (by rw [Stands]; decide) ⟨fuel, hloop⟩ hle
  obtain ⟨p, params, rfl⟩ := List.exists_cons_of_ne_nil hne
  have heq : byte '=' ∈ cmdlineText (p :: params) := by
    cases params with
    | nil => exact List.mem_append_right _ List.mem_cons_self
    | cons q params => exact List.mem_append_right _ List.mem_cons_self
  rw [← htext] at heq
  revert heq
  decide

/-! ## Finding a parameter -/

theorem toNat_sub_eq_zero {x y : UInt8} : (x.toNat : Int) - y.toNat = 0 ↔ x = y := by
  rw [Int.sub_eq_zero, Int.ofNat_inj, UInt8.toNat_inj]

/-- `strcmp` tells two strings apart. -/
theorem strcmp_stands {str1 str2 : Mem} {xs ys : List UInt8} {fuel : Nat}
    (h1 : Stands str1 0 (xs ++ [0])) (h2 : Stands str2 0 (ys ++ [0])) (hxs : 0 ∉ xs)
    (hys : 0 ∉ ys) (hfuel : ys.length < fuel) :
    ∃ diff, strcmp str1 str2 fuel = .ret diff ∧ (diff = 0 ↔ xs = ys) := by
  induction xs generalizing str1 str2 ys fuel with
  | nil =>
      obtain ⟨fuel, rfl⟩ := Nat.exists_eq_succ_of_ne_zero (Nat.ne_of_gt (Nat.zero_lt_of_lt hfuel))
      have hzero : str1 0 = 0 := (stands_cons.mp h1).1
      refine ⟨_, by rw [strcmp, if_neg fun hc => hc.1 hzero], ?_⟩
      rw [hzero]
      cases ys with
      | nil =>
          rw [(stands_cons.mp h2).1]
          decide
      | cons y ys =>
          rw [List.mem_cons, not_or] at hys
          rw [(stands_cons.mp h2).1]
          exact iff_of_false (mt toNat_sub_eq_zero.mp hys.1) (List.cons_ne_nil y ys).symm
  | cons x xs ih =>
      obtain ⟨fuel, rfl⟩ := Nat.exists_eq_succ_of_ne_zero (Nat.ne_of_gt (Nat.zero_lt_of_lt hfuel))
      rw [List.mem_cons, not_or] at hxs
      obtain ⟨hx, hrest1⟩ := stands_cons.mp h1
      cases ys with
      | nil =>
          have hzero : str2 0 = 0 := (stands_cons.mp h2).1
          refine ⟨_, by rw [strcmp, hx, hzero, if_neg fun hc => hxs.1 hc.2.symm], ?_⟩
          exact iff_of_false (mt toNat_sub_eq_zero.mp (Ne.symm hxs.1)) (List.cons_ne_nil x xs)
      | cons y ys =>
          rw [List.mem_cons, not_or] at hys
          obtain ⟨hy, hrest2⟩ := stands_cons.mp h2
          rw [strcmp, hx, hy]
          by_cases hxy : x = y
          · rw [if_pos ⟨Ne.symm hxs.1, hxy⟩]
            obtain ⟨diff, hret, hdiff⟩ := ih (stands_shift.mpr hrest1) (stands_shift.mpr hrest2)
              hxs.2 hys.2 (Nat.lt_of_succ_lt_succ hfuel)
            refine ⟨diff, hret, hdiff.trans ?_⟩
            rw [hxy, List.cons_eq_cons, and_iff_right rfl]
          · refine ⟨_, by rw [if_neg fun hc => hxy hc.2], ?_⟩
            exact iff_of_false (mt toNat_sub_eq_zero.mp hxy) fun he =>
              hxy (List.cons_eq_cons.mp he).1

/-- What `cmdline_get` returns: a pointer to the value, or `NULL` without one. -/
def PointsTo (value : Option (List UInt8)) (ret : Option Mem) : Prop :=
  Option.Rel (fun value ptr => Stands ptr 0 (value ++ [0])) value ret

/-- `cmdline_get` finds the first parameter with a name. -/
theorem cmdlineGet_records {params : List NameValue} {records : List Mem}
    (h : Records params records) (hparams : ∀ p ∈ params, Distinct 31 p) {param : Mem}
    {name : List UInt8} (hparam : Stands param 0 (name ++ [0])) (hname : 0 ∉ name) :
    ∃ ret, cmdlineGet param records = .ret ret ∧ PointsTo (params.lookup name) ret := by
  induction h with
  | nil => exact ⟨none, rfl, .none⟩
  | @cons p record params records hholds _ ih =>
      obtain ⟨name', value⟩ := p
      have hp := hparams _ List.mem_cons_self
      obtain ⟨hstands, hvalue⟩ := hholds hp.name_le
      have hword : 31 < word := by decide
      obtain ⟨diff, hcmp, hdiff⟩ : ∃ diff, strcmp param record word = .ret diff ∧
          (diff = 0 ↔ name = name') :=
        strcmp_stands hparam hstands hname hp.name_zero (hp.name_le.trans_lt hword)
      rw [cmdlineGet, hcmp, Outcome.ret_bind]
      by_cases heq : name = name'
      · rw [if_pos (hdiff.mpr heq), List.lookup_cons, beq_iff_eq.mpr heq]
        refine ⟨_, rfl, .some fun i hi => ?_⟩
        rw [Nat.zero_add]
        exact hvalue i hi
      · rw [if_neg fun hc => heq (hdiff.mp hc), List.lookup_cons, beq_eq_false_iff_ne.mpr heq]
        exact ih fun q hq => hparams q (List.mem_cons_of_mem _ hq)

/-- Parameters with names and values of at most 31 bytes are found again: `cmdline_get` returns
the value of the first one with a name, and `NULL` if there is none. -/
theorem cmdline_roundTrip (left : Nat → Mem) (stack : Mem) {params : List NameValue}
    (hne : params ≠ []) (hparams : ∀ p ∈ params, Distinct 31 p)
    (hread : Stands cmdline 0 (cmdlineText params ++ [0])) :
    ∃ fuel args,
      cmdlineParse left stack cmdline fuel = .ret ((cmdlineText params).length + 1, args) ∧
      ∀ name param, 0 ∉ name → Stands param 0 (name ++ [0]) →
        ∃ ret, cmdlineGet param args = .ret ret ∧ PointsTo (params.lookup name) ret := by
  have hparams63 : ∀ p ∈ params, Distinct 63 p := by
    intro p hp
    have h31 := hparams p hp
    exact { h31 with name_le := h31.name_le.trans (by decide) }
  obtain ⟨s', records, ⟨fuel, hloop⟩, hargs, hrecords⟩ :=
    returns_params left hne (ready_start stack) hparams63 hread
  rw [Nat.zero_add] at hloop
  refine ⟨fuel, s'.args, by rw [cmdlineParse, hloop]; rfl, fun name param hname hparam => ?_⟩
  rw [hargs]
  exact cmdlineGet_records hrecords hparams hparam hname

/-- A name that comes twice, an empty value, and a value with `=`. -/
theorem cmdline_roundTrip_twice : ∃ fuel args,
    cmdlineParse (fun _ _ => 7) (fun _ => 7) (fun x => (bytes "a=b=c d= a=e").getD x 0) fuel =
      .ret (13, args) ∧
    ∃ ret, cmdlineGet (fun x => (bytes "a").getD x 0) args = .ret ret ∧
      PointsTo (some (bytes "b=c")) ret := by
  have hread : Stands (fun x => (bytes "a=b=c d= a=e").getD x 0) 0 (cmdlineText
      [(bytes "a", bytes "b=c"), (bytes "d", []), (bytes "a", bytes "e")] ++ [0]) := by
    rw [Stands]
    decide
  have hparams : ∀ p ∈ [(bytes "a", bytes "b=c"), (bytes "d", []), (bytes "a", bytes "e")],
      Distinct 31 p := by
    intro p hp
    simp only [List.mem_cons, List.not_mem_nil, or_false] at hp
    rcases hp with rfl | rfl | rfl
    · exact ⟨by decide, by decide, by decide, by decide, by decide, by decide⟩
    · exact ⟨by decide, by decide, by decide, by decide, by decide, by decide⟩
    · exact ⟨by decide, by decide, by decide, by decide, by decide, by decide⟩
  obtain ⟨fuel, args, hret, hget⟩ :=
    cmdline_roundTrip (fun _ _ => 7) (fun _ => 7) (by decide) hparams hread
  exact ⟨fuel, args, hret, hget (bytes "a") _ (by decide) (by rw [Stands]; decide)⟩

end Cmdline

end UlmerOS
