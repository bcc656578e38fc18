/-
  Libc/Format.lean --- `vsnprintf` and `atoi` of `libc.c`.

  On this machine `int`, `long` and `size_t` have 32 bits.  The formatter walks over the
  format string and writes into a buffer of `size` bytes, and each of its loops tests by
  itself that one byte is left for the terminator.  The arguments are words behind each
  other; the word for a string is the address of its first character.

  A write at an index that is not below `size` and a read of the format behind its
  terminator are faults here.  The format is given by what is left of it: the empty
  list is the place of the terminator, which may be read.

  `formatLoop_eq` says what the formatter does: it emits the output of the pieces of the
  format into a sink that is full one byte before the end of the buffer.  Only an
  incomplete directive at the end of the format, if the sink has room when it is
  reached, makes it read behind the terminator.
-/
import FalastinOS.Foundation.CString
import FalastinOS.Foundation.Execution
import FalastinOS.Foundation.Memory
import FalastinOS.Foundation.Sink
import Mathlib.Data.UInt

set_option autoImplicit false

namespace FalastinOS.Libc

open FalastinOS.Foundation

/-- An access outside the object it belongs to. -/
inductive Fault where
  /-- the byte of the format string behind its terminator -/
  | pastFormat
  /-- byte `i` of the buffer, which is not that long -/
  | pastBuffer (i : Nat)
  deriving DecidableEq, Repr

/-- The arguments behind the last named one, and the memory the addresses among them
point to. -/
structure VaList where
  word : Nat → UInt32
  memory : UInt32 → UInt8

/-- `buf` and `pos`. -/
abbrev Output : Type := Sink UInt8

/-- `buf[pos++] = c`. -/
def put (size : Nat) (o : Output) (c : UInt8) : Except Fault Output :=
  if o.pos < size then .ok (o.push c) else .error (.pastBuffer o.pos)

/-- `*c >= '0' && *c <= '9'`. -/
def isDigit (c : UInt8) : Bool := 48 ≤ c && c ≤ 57

/-! ## `fmt_write_str` and `fmt_write_int` -/

/-- `fmt_write_str(buf, size, &pos, s)`, at most `n` rounds.  Each round takes a byte of
the buffer, so `size` rounds are never used up. -/
def fmtWriteStr (memory : UInt32 → UInt8) (size : Nat) :
    Nat → UInt32 → Output → Except Fault Output
  | 0, _, o => .ok o
  | n + 1, s, o =>
      if memory s ≠ 0 ∧ o.pos + 1 < size then do
        let o ← put size o (memory s)
        fmtWriteStr memory size n (s + 1) o
      else .ok o

/-- `(rem < 10) ? '0' + rem : 'a' + rem - 10`. -/
def digitChar (rem : Nat) : UInt8 :=
  if rem < 10 then UInt8.ofNat (48 + rem) else UInt8.ofNat (97 + rem - 10)

/-- `while (uval > 0)`: the digits in the order in which `tmp` gets them, at most `n`. -/
def digitLoop (base : Nat) : Nat → Nat → List UInt8
  | 0, _ => []
  | n + 1, uval =>
      if uval > 0 then digitChar (uval % base) :: digitLoop base n (uval / base) else []

/-- `tmp[0]` to `tmp[i - 1]` of `fmt_write_int`.  A long has no more than 32 digits. -/
def tmpChars (val : Int32) (base : Nat) (unsign : Bool) : List UInt8 :=
  let neg := !unsign && decide (val < 0)
  let val := if neg then -val else val
  let uval := val.toUInt32.toNat
  let tmp := if uval = 0 then [48] else digitLoop base 32 uval
  if neg then tmp ++ [45] else tmp

/-- `while (.. && *pos + 1 < size) buf[(*pos)++] = ..` over the given characters. -/
def writeLoop (size : Nat) : List UInt8 → Output → Except Fault Output
  | [], o => .ok o
  | c :: cs, o =>
      if o.pos + 1 < size then do
        let o ← put size o c
        writeLoop size cs o
      else .ok o

/-- `fmt_write_int(buf, size, &pos, val, base, unsign, pad, padch)`. -/
def fmtWriteInt (size : Nat) (o : Output) (val : Int32) (base : Nat) (unsign : Bool) (pad : Int32)
    (padch : UInt8) : Except Fault Output := do
  let tmp := tmpChars val base unsign
  let o ← writeLoop size (List.replicate (pad.toInt - tmp.length).toNat padch) o
  writeLoop size tmp.reverse o

/-! ## `vsnprintf` -/

/-- A directive without its '%', and the format behind it. -/
structure Directive where
  padch : UInt8
  pad : Int32
  conv : UInt8
  rest : List UInt8
  deriving DecidableEq

/-- `while (*fmt >= '0' && *fmt <= '9') pad = pad * 10 + (*fmt++ - '0')`. -/
def padLoop (pad : Int32) : List UInt8 → Int32 × List UInt8
  | [] => (pad, [])
  | c :: fmt =>
      if isDigit c then padLoop (pad * 10 + Int32.ofNat (c.toNat - 48)) fmt else (pad, c :: fmt)

/-- `if (*fmt == '0') { padch = '0'; fmt++; }`. -/
def readFlag : List UInt8 → UInt8 × List UInt8
  | [] => (32, [])
  | c :: fmt => if c = 48 then (48, fmt) else (32, c :: fmt)

/-- What stands between '%' and the conversion character.  There is no directive if the
terminator stands in the place of that character. -/
def readDirective (fmt : List UInt8) : Option Directive :=
  match padLoop 0 (readFlag fmt).2 with
  | (_, []) => none
  | (pad, conv :: rest) => some ⟨(readFlag fmt).1, pad, conv, rest⟩

/-- `if (pos + 1 < size) buf[pos++] = c`. -/
def putIfRoom (size : Nat) (o : Output) (c : UInt8) : Except Fault Output :=
  if o.pos + 1 < size then put size o c else .ok o

/-- `switch (*fmt++)`; `n` arguments are taken before, and the first component of the
result is how many are taken after. -/
def convert (args : VaList) (size : Nat) (d : Directive) (n : Nat) (o : Output) :
    Except Fault (Nat × Output) := do
  if d.conv = 100 ∨ d.conv = 105 then
    let o ← fmtWriteInt size o (args.word n).toInt32 10 false d.pad d.padch
    return (n + 1, o)
  else if d.conv = 117 then
    let o ← fmtWriteInt size o (args.word n).toInt32 10 true d.pad d.padch
    return (n + 1, o)
  else if d.conv = 120 then
    let o ← fmtWriteInt size o (args.word n).toInt32 16 true d.pad d.padch
    return (n + 1, o)
  else if d.conv = 99 then
    let o ← putIfRoom size o (args.word n).toUInt8
    return (n + 1, o)
  else if d.conv = 115 then
    let o ← fmtWriteStr args.memory size size (args.word n) o
    return (n + 1, o)
  else if d.conv = 37 then
    let o ← putIfRoom size o 37
    return (n, o)
  else return (n, o)

theorem padLoop_length (fmt : List UInt8) : ∀ pad, (padLoop pad fmt).2.length ≤ fmt.length := by
  induction fmt with
  | nil => exact fun _ => Nat.le_refl _
  | cons c fmt ih =>
      intro pad
      rw [padLoop]
      split
      · exact Nat.le_succ_of_le (ih _)
      · exact Nat.le_refl _

theorem readFlag_length (fmt : List UInt8) : (readFlag fmt).2.length ≤ fmt.length := by
  cases fmt with
  | nil => exact Nat.le_refl _
  | cons c fmt =>
      rw [readFlag]
      split
      · exact Nat.le_succ _
      · exact Nat.le_refl _

theorem length_rest_lt {fmt : List UInt8} {d : Directive} (h : readDirective fmt = some d) :
    d.rest.length < fmt.length := by
  have hflag := readFlag_length fmt
  have hdigits := padLoop_length (readFlag fmt).2 0
  unfold readDirective at h
  generalize padLoop 0 (readFlag fmt).2 = result at hdigits h
  obtain ⟨pad, left⟩ := result
  cases left with
  | nil => exact nomatch h
  | cons conv rest =>
      obtain rfl := Option.some.inj h
      simp only [List.length_cons] at hdigits ⊢
      omega

/-- `while (*fmt && pos + 1 < size)`; `n` arguments are taken before.  If the terminator
stands in the place of the conversion character, the switch steps over it and the test
of the loop reads what is behind. -/
def formatLoop (args : VaList) (size : Nat) (fmt : List UInt8) (n : Nat) (o : Output) :
    Except Fault Output :=
  match fmt with
  | [] => .ok o
  | c :: fmt =>
      if o.pos + 1 < size then
        if c ≠ 37 then do
          let o ← put size o c
          formatLoop args size fmt n o
        else
          match _h : readDirective fmt with
          | none => .error .pastFormat
          | some d => do
              let (n, o) ← convert args size d n o
              formatLoop args size d.rest n o
      else .ok o
termination_by fmt.length
decreasing_by
  · exact Nat.lt_succ_self _
  · exact Nat.lt_succ_of_lt (length_rest_lt _h)

/-- What `vsnprintf` leaves in the buffer, and what it returns. -/
structure Formatted where
  buf : Mem
  ret : Int32

/-- `vsnprintf(buf, size, fmt, ap)`. -/
def vsnprintf (buf : Mem) (size : Nat) (fmt : CStr) (args : VaList) : Except Fault Formatted := do
  let o ← formatLoop args size fmt.bytes 0 ⟨buf, 0⟩
  let terminated ← put size o 0
  return ⟨terminated.cells, Int32.ofNat o.pos⟩

/-- `snprintf(buf, size, fmt, ...)`. -/
def snprintf (buf : Mem) (size : Nat) (fmt : CStr) (args : VaList) : Except Fault Formatted :=
  vsnprintf buf size fmt args

/-! ## What it prints -/

/-- A piece of a format string. -/
inductive Piece where
  /-- a character that is printed -/
  | char (c : UInt8)
  | directive (d : Directive)
  /-- the format ends where the conversion character of a directive should stand -/
  | cut
  deriving DecidableEq

/-- The pieces of a format string. -/
def pieces (fmt : List UInt8) : List Piece :=
  match fmt with
  | [] => []
  | c :: fmt =>
      if c ≠ 37 then .char c :: pieces fmt
      else
        match _h : readDirective fmt with
        | none => [.cut]
        | some d => .directive d :: pieces d.rest
termination_by fmt.length
decreasing_by
  · exact Nat.lt_succ_self _
  · exact Nat.lt_succ_of_lt (length_rest_lt _h)

/-- How many arguments a directive takes. -/
def Directive.taken (d : Directive) : Nat :=
  if d.conv ∈ [100, 105, 117, 120, 99, 115] then 1 else 0

/-- The characters from an address on, up to a NUL and no more than `k`. -/
def stringAt (memory : UInt32 → UInt8) : Nat → UInt32 → List UInt8
  | 0, _ => []
  | k + 1, s => if memory s = 0 then [] else memory s :: stringAt memory k (s + 1)

/-- A number, padded to the width of the directive. -/
def numberOutput (val : Int32) (base : Nat) (unsign : Bool) (d : Directive) : List UInt8 :=
  List.replicate (d.pad.toInt - (tmpChars val base unsign).length).toNat d.padch ++
    (tmpChars val base unsign).reverse

/-- What a directive prints for the argument at index `n`; of a string, at most `k`
characters. -/
def directiveOutput (args : VaList) (k : Nat) (d : Directive) (n : Nat) : List UInt8 :=
  if d.conv = 100 ∨ d.conv = 105 then numberOutput (args.word n).toInt32 10 false d
  else if d.conv = 117 then numberOutput (args.word n).toInt32 10 true d
  else if d.conv = 120 then numberOutput (args.word n).toInt32 16 true d
  else if d.conv = 99 then [(args.word n).toUInt8]
  else if d.conv = 115 then stringAt args.memory k (args.word n)
  else if d.conv = 37 then [37]
  else []

/-- What the pieces print, the arguments from index `n` on. -/
def outputOf (args : VaList) (k : Nat) : List Piece → Nat → List UInt8
  | [], _ => []
  | .char c :: ps, n => c :: outputOf args k ps n
  | .directive d :: ps, n => directiveOutput args k d n ++ outputOf args k ps (n + d.taken)
  | .cut :: ps, n => outputOf args k ps n

/-! ## Each loop emits -/

section Loops

variable {size : Nat} {o : Output}

theorem put_of_lt (h : o.pos + 1 < size) (c : UInt8) : put size o c = .ok (o.push c) := by
  rw [put, if_pos (Nat.lt_of_succ_lt h)]

theorem putIfRoom_eq (c : UInt8) : putIfRoom size o c = .ok (o.emit (size - 1) [c]) := by
  rw [putIfRoom]
  by_cases hroom : o.pos + 1 < size
  · rw [if_pos hroom, put_of_lt hroom, Sink.emit_cons_of_lt (by omega), Sink.emit_nil]
  · rw [if_neg hroom, Sink.emit_of_full (by omega)]

theorem writeLoop_eq (cs : List UInt8) : ∀ o, writeLoop size cs o = .ok (o.emit (size - 1) cs) := by
  induction cs with
  | nil => exact fun _ => rfl
  | cons c cs ih =>
      intro o
      rw [writeLoop]
      by_cases hroom : o.pos + 1 < size
      · rw [if_pos hroom, put_of_lt hroom, ok_bind, ih, Sink.emit_cons_of_lt (by omega)]
      · rw [if_neg hroom, Sink.emit_of_full (by omega)]

theorem fmtWriteInt_eq (val : Int32) (base : Nat) (unsign : Bool) (d : Directive) :
    fmtWriteInt size o val base unsign d.pad d.padch =
      .ok (o.emit (size - 1) (numberOutput val base unsign d)) := by
  simp only [fmtWriteInt, writeLoop_eq, ok_bind, numberOutput, Sink.emit_append]

/-- The string is cut by the buffer before it is cut at `k`, and the rounds suffice. -/
theorem fmtWriteStr_eq (memory : UInt32 → UInt8) (m : Nat) : ∀ (k : Nat) (s : UInt32) (o : Output),
    size - 1 - o.pos ≤ m → size - 1 - o.pos ≤ k →
      fmtWriteStr memory size m s o = .ok (o.emit (size - 1) (stringAt memory k s)) := by
  induction m with
  | zero =>
      intro k s o hm _
      rw [fmtWriteStr, Sink.emit_of_full (by omega)]
  | succ m ih =>
      intro k s o hm hk
      rw [fmtWriteStr]
      by_cases hroom : o.pos + 1 < size
      · obtain ⟨k, rfl⟩ : ∃ k', k = k' + 1 := ⟨k - 1, by omega⟩
        rw [stringAt]
        by_cases hnul : memory s = 0
        · rw [if_neg (by simp [hnul]), if_pos hnul, Sink.emit_nil]
        · rw [if_pos ⟨hnul, hroom⟩, if_neg hnul, put_of_lt hroom, ok_bind,
            Sink.emit_cons_of_lt (by omega)]
          exact ih k (s + 1) _ (by rw [Sink.push_pos]; omega) (by rw [Sink.push_pos]; omega)
      · rw [if_neg fun h => hroom h.2, Sink.emit_of_full (by omega)]

theorem convert_eq (args : VaList) {k : Nat} (hk : size - 1 ≤ k) (d : Directive) (n : Nat) :
    convert args size d n o =
      .ok (n + d.taken, o.emit (size - 1) (directiveOutput args k d n)) := by
  unfold convert directiveOutput Directive.taken
  split
  · rename_i hconv
    rw [fmtWriteInt_eq, ok_bind, if_pos (by rcases hconv with h | h <;> simp [h])]
    rfl
  split
  · rename_i hconv
    rw [fmtWriteInt_eq, ok_bind, if_pos (by simp [hconv])]
    rfl
  split
  · rename_i hconv
    rw [fmtWriteInt_eq, ok_bind, if_pos (by simp [hconv])]
    rfl
  split
  · rename_i hconv
    rw [putIfRoom_eq, ok_bind, if_pos (by simp [hconv])]
    rfl
  split
  · rename_i hconv
    rw [fmtWriteStr_eq args.memory size k _ _ (by omega) (by omega), ok_bind,
      if_pos (by simp [hconv])]
    rfl
  split
  · rename_i hconv
    rw [putIfRoom_eq, ok_bind, if_neg (by simp [hconv])]
    rfl
  · rename_i hint hunsigned hhex hchar hstring _
    have hnone : d.conv ∉ [100, 105, 117, 120, 99, 115] := by
      simp only [List.mem_cons, List.not_mem_nil, or_false]
      tauto
    rw [if_neg hnone]
    rfl

end Loops

/-! ## The whole format -/

section Steps

variable {fmt : List UInt8} {c : UInt8} {d : Directive}

theorem pieces_char (h : c ≠ 37) : pieces (c :: fmt) = .char c :: pieces fmt := by
  rw [pieces, if_pos h]

theorem pieces_cut (h : readDirective fmt = none) : pieces (37 :: fmt) = [.cut] := by
  rw [pieces, if_neg (by simp)]
  split
  · rfl
  · rename_i hsome
    exact nomatch h.symm.trans hsome

theorem pieces_directive (h : readDirective fmt = some d) :
    pieces (37 :: fmt) = .directive d :: pieces d.rest := by
  rw [pieces, if_neg (by simp)]
  split
  · rename_i hnone
    exact nomatch h.symm.trans hnone
  · rename_i d' hsome
    obtain rfl := Option.some.inj (h.symm.trans hsome)
    rfl

variable (args : VaList) {size : Nat} (n : Nat) {o : Output}

/-- The loop ends when the buffer is full. -/
theorem formatLoop_full (h : size ≤ o.pos + 1) (fmt : List UInt8) :
    formatLoop args size fmt n o = .ok o := by
  cases fmt with
  | nil => rw [formatLoop]
  | cons c fmt => rw [formatLoop, if_neg (Nat.not_lt.mpr h)]

theorem formatLoop_char (hroom : o.pos + 1 < size) (h : c ≠ 37) :
    formatLoop args size (c :: fmt) n o = formatLoop args size fmt n (o.push c) := by
  rw [formatLoop, if_pos hroom, if_pos h, put_of_lt hroom, ok_bind]

theorem formatLoop_cut (hroom : o.pos + 1 < size) (h : readDirective fmt = none) :
    formatLoop args size (37 :: fmt) n o = .error .pastFormat := by
  rw [formatLoop, if_pos hroom, if_neg (by simp)]
  split
  · rfl
  · rename_i hsome
    exact nomatch h.symm.trans hsome

theorem formatLoop_directive (hroom : o.pos + 1 < size) (h : readDirective fmt = some d) :
    formatLoop args size (37 :: fmt) n o =
      (convert args size d n o >>= fun r => formatLoop args size d.rest r.1 r.2) := by
  rw [formatLoop, if_pos hroom, if_neg (by simp)]
  split
  · rename_i hnone
    exact nomatch h.symm.trans hnone
  · rename_i d' hsome
    obtain rfl := Option.some.inj (h.symm.trans hsome)
    rfl

end Steps

/-- The formatter emits the output of the pieces.  It reads behind the terminator if the
format is cut and the sink is not full by then. -/
theorem formatLoop_eq (args : VaList) {size k : Nat} (hk : size - 1 ≤ k) (fmt : List UInt8) :
    ∀ (n : Nat) (o : Output), o.pos ≤ size - 1 →
      formatLoop args size fmt n o =
        if Piece.cut ∈ pieces fmt ∧
            o.pos + (outputOf args k (pieces fmt) n).length < size - 1 then
          .error .pastFormat
        else .ok (o.emit (size - 1) (outputOf args k (pieces fmt) n)) := by
  -- once the sink is full the loop ends and the rest of the output is dropped
  have hfull : ∀ (fmt : List UInt8) (n : Nat) (o : Output), size ≤ o.pos + 1 →
      formatLoop args size fmt n o =
        if Piece.cut ∈ pieces fmt ∧
            o.pos + (outputOf args k (pieces fmt) n).length < size - 1 then
          .error .pastFormat
        else .ok (o.emit (size - 1) (outputOf args k (pieces fmt) n)) := by
    intro fmt n o hpos
    rw [formatLoop_full args n hpos, if_neg (by omega), Sink.emit_of_full (by omega)]
  induction fmt using pieces.induct with
  | case1 =>
      intro n o _
      rw [formatLoop, pieces, outputOf, Sink.emit_nil, if_neg (by simp)]
  | case2 c fmt hchar ih =>
      intro n o hpos
      by_cases hroom : o.pos + 1 < size
      · rw [formatLoop_char args n hroom hchar, ih n _ (by rw [Sink.push_pos]; omega),
          pieces_char hchar, outputOf, List.length_cons, Sink.emit_cons_of_lt (by omega),
          Sink.push_pos]
        refine if_congr ?_ rfl rfl
        simp only [List.mem_cons, reduceCtorEq, false_or]
        exact and_congr_right fun _ => by omega
      · exact hfull _ n o (Nat.not_lt.mp hroom)
  | case3 c fmt hchar hcut =>
      intro n o hpos
      obtain rfl := not_not.mp hchar
      by_cases hroom : o.pos + 1 < size
      · rw [formatLoop_cut args n hroom hcut, pieces_cut hcut, outputOf, outputOf,
          if_pos ⟨List.mem_singleton_self _, by rw [List.length_nil]; omega⟩]
      · exact hfull _ n o (Nat.not_lt.mp hroom)
  | case4 c fmt hchar d hread ih =>
      intro n o hpos
      obtain rfl := not_not.mp hchar
      by_cases hroom : o.pos + 1 < size
      · have hnext : (o.emit (size - 1) (directiveOutput args k d n)).pos = _ := Sink.pos_emit o _
        rw [formatLoop_directive args n hroom hread, convert_eq args hk, ok_bind,
          ih _ _ (show (o.emit (size - 1) _).pos ≤ size - 1 by omega), pieces_directive hread,
          outputOf, List.length_append, Sink.emit_append]
        refine if_congr ?_ rfl rfl
        simp only [List.mem_cons, reduceCtorEq, false_or]
        exact and_congr_right fun _ => by omega
      · exact hfull _ n o (Nat.not_lt.mp hroom)

end FalastinOS.Libc
