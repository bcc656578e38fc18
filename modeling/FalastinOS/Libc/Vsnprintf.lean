/-
  Libc/Vsnprintf.lean --- what `vsnprintf` leaves in the buffer, and what it reads.

  If the format is complete, `vsnprintf` stores the first `size - 1` characters of one
  output that does not depend on `size`, and a terminator behind them, and nothing
  outside the buffer: `vsnprintf_truncates`.  It returns the index of the terminator as
  an `int`, which is that index as long as it is below 2^31.

  If the format ends inside a directive, the pointer into it steps over the terminator.
  `reads_format_iff` says when: the output of what stands before that directive has to
  leave room in the buffer.
-/
import FalastinOS.Libc.Format

set_option autoImplicit false

namespace FalastinOS.Libc

open FalastinOS.Foundation

/-- No directive is cut off by the end of the format. -/
def Complete (fmt : CStr) : Prop := Piece.cut ∉ pieces fmt.bytes

/-- The result of printing `text` into the buffer. -/
structure Formatted.Holds (r : Formatted) (buf : Mem) (size : Nat) (text : List UInt8) : Prop where
  written : (List.range text.length).map r.buf = text
  inside : text.length < size
  terminated : r.buf text.length = 0
  outside : ∀ i, size ≤ i → r.buf i = buf i
  ret : r.ret = Int32.ofNat text.length

/-- The string in the buffer. -/
def Formatted.string (r : Formatted) (size : Nat) : CStr where
  bytes := CharArray.toCStr fun k : Fin size => r.buf k.val
  noNul := CharArray.zero_notMem_toCStr _

/-- The string is what was printed, unless a NUL was printed. -/
theorem Formatted.Holds.string_eq {r : Formatted} {buf : Mem} {size : Nat} {text : List UInt8}
    (h : r.Holds buf size text) (hnul : (0 : UInt8) ∉ text) : (r.string size).bytes = text := by
  refine (CharArray.toCStr_eq_iff _ hnul).mpr ⟨Nat.le_of_lt h.inside, fun k => ⟨fun hk => ?_, ?_⟩⟩
  · have hget := List.getElem_of_eq h.written (i := k.val) (by simpa using hk)
    rw [List.getElem_map, List.getElem_range] at hget
    exact hget
  · intro hk
    show r.buf k.val = 0
    rw [hk]
    exact h.terminated

theorem Formatted.Holds.stringAt {r : Formatted} {buf : Mem} {size : Nat} {text : List UInt8}
    (h : r.Holds buf size text) (hnul : (0 : UInt8) ∉ text) : StringAt r.buf 0 text := by
  refine stringAt_of_bytes hnul fun k hk => ?_
  rw [Nat.zero_add]
  rcases Nat.lt_or_eq_of_le hk with hlt | rfl
  · have hget := List.getElem_of_eq h.written (i := k) (by simpa using hlt)
    rw [List.getElem_map, List.getElem_range] at hget
    rw [hget, List.getD_eq_getElem _ _ hlt]
  · rw [h.terminated, List.getD_eq_default _ _ (Nat.le_refl _)]

section Results

variable (buf : Mem) {size k : Nat} (fmt : CStr) (args : VaList)

/-- Behind the loop the terminator finds its place. -/
theorem vsnprintf_ok (hsize : 1 ≤ size) (hk : size - 1 ≤ k)
    (h : ¬ (Piece.cut ∈ pieces fmt.bytes ∧
      (outputOf args k (pieces fmt.bytes) 0).length < size - 1)) :
    ∃ r, vsnprintf buf size fmt args = .ok r ∧
      r.Holds buf size ((outputOf args k (pieces fmt.bytes) 0).take (size - 1)) := by
  have hloop := formatLoop_eq args hk fmt.bytes 0 ⟨buf, 0⟩ (Nat.zero_le _)
  rw [Nat.zero_add, if_neg h] at hloop
  generalize outputOf args k (pieces fmt.bytes) 0 = out at hloop
  have hpos : (Sink.emit (size - 1) ⟨buf, 0⟩ out).pos = (out.take (size - 1)).length := by
    rw [Sink.pos_emit, List.length_take, Nat.zero_add, Nat.sub_zero, Nat.min_comm]
  have hlt : (out.take (size - 1)).length < size := by
    rw [List.length_take]
    omega
  have hwritten : (Sink.emit (size - 1) ⟨buf, 0⟩ out).written = out.take (size - 1) :=
    Sink.written_emit ⟨buf, 0⟩ out
  have hcells : ∀ i, size ≤ i → (Sink.emit (size - 1) ⟨buf, 0⟩ out).cells i = buf i :=
    fun i hi => Sink.cells_emit_of_le ⟨buf, 0⟩ out (by omega)
  generalize Sink.emit (size - 1) ⟨buf, 0⟩ out = o at hloop hpos hwritten hcells
  rw [vsnprintf, hloop, ok_bind, put, if_pos (by omega)]
  refine ⟨_, rfl, ?_, hlt, ?_, fun i hi => ?_, ?_⟩
  · rw [← hpos, ← hwritten]
    exact Sink.map_cells_push o 0
  · rw [← hpos]
    exact Function.update_self ..
  · rw [← hcells i hi]
    exact Function.update_of_ne (by omega) ..
  · rw [← hpos]

variable {fmt} in
/-- An output that is shorter than the buffer is stored whole. -/
theorem vsnprintf_fits (hfmt : Complete fmt) (hk : size - 1 ≤ k)
    (hlong : (outputOf args k (pieces fmt.bytes) 0).length < size) :
    ∃ r, vsnprintf buf size fmt args = .ok r ∧
      r.Holds buf size (outputOf args k (pieces fmt.bytes) 0) := by
  obtain ⟨r, hok, hholds⟩ := vsnprintf_ok buf fmt args (by omega) hk fun hcut => hfmt hcut.1
  rw [List.take_of_length_le (by omega)] at hholds
  exact ⟨r, hok, hholds⟩

/-- The exact condition for a read behind the terminator. -/
theorem vsnprintf_pastFormat_iff :
    vsnprintf buf size fmt args = .error .pastFormat ↔
      Piece.cut ∈ pieces fmt.bytes ∧
        1 + (outputOf args size (pieces fmt.bytes) 0).length < size := by
  by_cases hreach : Piece.cut ∈ pieces fmt.bytes ∧
      (outputOf args size (pieces fmt.bytes) 0).length < size - 1
  · refine iff_of_true ?_ ⟨hreach.1, by omega⟩
    have hloop := formatLoop_eq args (Nat.sub_le size 1) fmt.bytes 0 ⟨buf, 0⟩ (Nat.zero_le _)
    rw [Nat.zero_add, if_pos hreach] at hloop
    rw [vsnprintf, hloop, error_bind]
  · refine iff_of_false (fun hfault => ?_) (fun h => hreach ⟨h.1, by omega⟩)
    rcases Nat.eq_zero_or_pos size with rfl | hsize
    · -- a buffer of no bytes: the loop is not entered, and the terminator has no place
      rw [vsnprintf, formatLoop_full args 0 (Nat.zero_le _), ok_bind, put,
        if_neg (Nat.not_lt_zero _), error_bind] at hfault
      cases hfault
    · obtain ⟨r, hok, -⟩ := vsnprintf_ok buf fmt args hsize (Nat.sub_le size 1) hreach
      cases hok.symm.trans hfault

end Results

/-- The format is read no further than its terminator exactly if no directive is cut off
by its end, or the output of what stands before that directive fills the buffer. -/
theorem reads_format_iff (buf : Mem) (size : Nat) (fmt : CStr) (args : VaList) :
    vsnprintf buf size fmt args ≠ .error .pastFormat ↔
      Complete fmt ∨ size ≤ 1 + (outputOf args size (pieces fmt.bytes) 0).length := by
  rw [ne_eq, vsnprintf_pastFormat_iff, not_and_or, Nat.not_lt]
  rfl

/-- A format of a percent sign alone, and a buffer of two bytes. -/
theorem reads_past_percent :
    vsnprintf (fun _ => 0) 2 ⟨text "%", by decide⟩ ⟨fun _ => 0, fun _ => 0⟩ =
      .error .pastFormat := by
  have hcut : pieces (text "%") = [.cut] := pieces_cut rfl
  rw [vsnprintf_pastFormat_iff, hcut]
  exact ⟨List.mem_singleton_self _, by decide⟩

/-! ## Truncation -/

/-- The arguments match: those for strings point to a terminated one. -/
def Matching (args : VaList) : List Piece → Nat → Prop
  | [], _ => True
  | .directive d :: ps, n =>
      (d.conv = 115 → ∃ len, args.memory (args.word n + UInt32.ofNat len) = 0) ∧
        Matching args ps (n + d.taken)
  | .char _ :: ps, n => Matching args ps n
  | .cut :: ps, n => Matching args ps n

/-- A bound from the terminator of a string on does not cut it. -/
theorem stringAt_of_le {memory : UInt32 → UInt8} (len : Nat) : ∀ (s : UInt32) (k : Nat),
    memory (s + UInt32.ofNat len) = 0 → len ≤ k → stringAt memory k s = stringAt memory len s := by
  induction len with
  | zero =>
      intro s k hend _
      rw [show s + UInt32.ofNat 0 = s by simp] at hend
      cases k with
      | zero => rfl
      | succ k => exact if_pos hend
  | succ len ih =>
      intro s k hend hk
      obtain ⟨k, rfl⟩ : ∃ k', k = k' + 1 := ⟨k - 1, by omega⟩
      rw [stringAt, stringAt, ih (s + 1) k ?_ (Nat.le_of_succ_le_succ hk)]
      rw [← hend, UInt32.ofNat_add, UInt32.add_assoc, UInt32.add_comm 1]
      rfl

/-- The output of pieces with matching arguments does not depend on where strings are
cut, from some bound on. -/
theorem outputOf_of_matching {args : VaList} (ps : List Piece) : ∀ n, Matching args ps n →
    ∃ bound, ∀ k, bound ≤ k → outputOf args k ps n = outputOf args bound ps n := by
  induction ps with
  | nil => exact fun _ _ => ⟨0, fun _ _ => rfl⟩
  | cons p ps ih =>
      intro n hmatch
      cases p with
      | char c =>
          obtain ⟨bound, hbound⟩ := ih n hmatch
          exact ⟨bound, fun k hk => by rw [outputOf, outputOf, hbound k hk]⟩
      | cut =>
          obtain ⟨bound, hbound⟩ := ih n hmatch
          exact ⟨bound, fun k hk => by rw [outputOf, outputOf, hbound k hk]⟩
      | directive d =>
          obtain ⟨hstring, hrest⟩ := hmatch
          obtain ⟨bound, hbound⟩ := ih _ hrest
          by_cases hconv : d.conv = 115
          · obtain ⟨len, hend⟩ := hstring hconv
            refine ⟨max bound len, fun k hk => ?_⟩
            have hcut : ∀ k', len ≤ k' → directiveOutput args k' d n =
                stringAt args.memory len (args.word n) := by
              intro k' hk'
              unfold directiveOutput
              rw [if_neg (by simp [hconv]), if_neg (by simp [hconv]), if_neg (by simp [hconv]),
                if_neg (by simp [hconv]), if_pos hconv, stringAt_of_le len _ _ hend hk']
            rw [outputOf, outputOf, hcut k (by omega), hcut _ (by omega), hbound k (by omega),
              hbound (max bound len) (by omega)]
          · refine ⟨bound, fun k hk => ?_⟩
            have hsame : directiveOutput args k d n = directiveOutput args bound d n := by
              unfold directiveOutput
              rw [if_neg hconv, if_neg hconv]
            rw [outputOf, outputOf, hsame, hbound k hk]

/-- `vsnprintf` stores as much of one output as fits in front of the terminator, whatever
the size; a buffer that is longer than the output gets all of it.  It returns the index
of the terminator as an `int`. -/
theorem vsnprintf_truncates {fmt : CStr} {args : VaList} (hfmt : Complete fmt)
    (hargs : Matching args (pieces fmt.bytes) 0) :
    ∃ full : List UInt8,
      (∀ (buf : Mem) (size : Nat), full.length < size →
        ∃ r, vsnprintf buf size fmt args = .ok r ∧ r.Holds buf size full) ∧
      ∀ (buf : Mem) (size : Nat), 1 ≤ size →
        ∃ r, vsnprintf buf size fmt args = .ok r ∧ r.Holds buf size (full.take (size - 1)) ∧
          ((full.take (size - 1)).length < 2 ^ 31 →
            r.ret.toInt = (full.take (size - 1)).length) := by
  obtain ⟨bound, hbound⟩ := outputOf_of_matching (pieces fmt.bytes) 0 hargs
  refine ⟨outputOf args bound (pieces fmt.bytes) 0, fun buf size hlong => ?_,
    fun buf size hsize => ?_⟩
  · rw [← hbound (max bound (size - 1)) (Nat.le_max_left _ _)] at hlong ⊢
    exact vsnprintf_fits buf args hfmt (Nat.le_max_right _ _) hlong
  · rw [← hbound (max bound (size - 1)) (Nat.le_max_left _ _)]
    obtain ⟨r, hok, hholds⟩ := vsnprintf_ok buf fmt args hsize (Nat.le_max_right bound _)
      fun hcut => hfmt hcut.1
    refine ⟨r, hok, hholds, fun hlt => ?_⟩
    rw [hholds.ret, Int32.toInt_ofNat_of_lt hlt]

/-- The format "%05d|%s". -/
def mixedFormat : CStr := ⟨text "%05d|%s", by decide⟩

/-- The number 42 and the address of "abc". -/
def mixedArgs : VaList where
  word := fun n => if n = 0 then 42 else 1000
  memory := fun a => if 1000 ≤ a ∧ a < 1003 then 97 + (a - 1000).toUInt8 else 0

theorem pieces_mixedFormat : pieces mixedFormat.bytes =
    [.directive ⟨48, 5, 100, text "|%s"⟩, .char 124, .directive ⟨32, 0, 115, []⟩] := by
  have hfirst : readDirective (text "05d|%s") = some ⟨48, 5, 100, text "|%s"⟩ := by decide
  have hlast : readDirective (text "s") = some ⟨32, 0, 115, []⟩ := by decide
  show pieces (37 :: text "05d|%s") = _
  rw [pieces_directive hfirst]
  show _ :: pieces (124 :: 37 :: text "s") = _
  rw [pieces_char (by decide), pieces_directive hlast, pieces]

theorem vsnprintf_truncates_mixedFormat :
    ∃ full : List UInt8, ∀ (buf : Mem) (size : Nat), 1 ≤ size →
      ∃ r, vsnprintf buf size mixedFormat mixedArgs = .ok r ∧
        r.Holds buf size (full.take (size - 1)) := by
  have hfmt : Complete mixedFormat := by
    rw [Complete, pieces_mixedFormat]
    decide
  have hargs : Matching mixedArgs (pieces mixedFormat.bytes) 0 := by
    rw [pieces_mixedFormat]
    exact ⟨fun h => absurd h (by decide), fun _ => ⟨3, by decide⟩, trivial⟩
  obtain ⟨full, -, hprint⟩ := vsnprintf_truncates hfmt hargs
  refine ⟨full, fun buf size hsize => ?_⟩
  obtain ⟨r, hok, hholds, -⟩ := hprint buf size hsize
  exact ⟨r, hok, hholds⟩

/-- The format "%2147483647d%d". -/
def wideFormat : CStr := ⟨text "%2147483647d%d", by decide⟩

def zeroArgs : VaList := ⟨fun _ => 0, fun _ => 0⟩

theorem pieces_wideFormat : pieces wideFormat.bytes =
    [.directive ⟨32, 2147483647, 100, text "%d"⟩, .directive ⟨32, 0, 100, []⟩] := by
  have hfirst : readDirective (text "2147483647d%d") = some ⟨32, 2147483647, 100, text "%d"⟩ := by
    decide
  have hlast : readDirective (text "d") = some ⟨32, 0, 100, []⟩ := by decide
  show pieces (37 :: text "2147483647d%d") = _
  rw [pieces_directive hfirst]
  show _ :: pieces (37 :: text "d") = _
  rw [pieces_directive hlast, pieces]

/-- A number that is shorter than its width takes the width. -/
theorem length_outputOf_wideFormat (k : Nat) :
    (outputOf zeroArgs k (pieces wideFormat.bytes) 0).length = 2147483648 := by
  have htmp : tmpChars (0 : UInt32).toInt32 10 false = [48] := by decide
  have hpad : (2147483647 : Int32).toInt = 2147483647 := by decide
  have hzero : (0 : Int32).toInt = 0 := by decide
  rw [pieces_wideFormat]
  simp only [outputOf, directiveOutput, zeroArgs, if_true, true_or, numberOutput, htmp, hpad, hzero,
    List.length_append, List.length_replicate, List.length_reverse, List.length_cons,
    List.length_nil]
  omega

/-- The terminator stands at index 2^31, and the result is negative. -/
theorem ret_negative_wideFormat :
    Complete wideFormat ∧ Matching zeroArgs (pieces wideFormat.bytes) 0 ∧
      ∃ r full, vsnprintf (fun _ => 0) 4294967295 wideFormat zeroArgs = .ok r ∧
        r.Holds (fun _ => 0) 4294967295 full ∧ full.length = 2147483648 ∧
        r.ret.toInt = -2147483648 := by
  have hfmt : Complete wideFormat := by
    rw [Complete, pieces_wideFormat]
    decide
  have hargs : Matching zeroArgs (pieces wideFormat.bytes) 0 := by
    rw [pieces_wideFormat]
    exact ⟨fun h => absurd h (by decide), fun h => absurd h (by decide), trivial⟩
  have hlength := length_outputOf_wideFormat 4294967295
  obtain ⟨r, hok, hholds⟩ := vsnprintf_fits (fun _ => 0) zeroArgs hfmt
    (show 4294967295 - 1 ≤ 4294967295 by omega) (by omega)
  refine ⟨hfmt, hargs, r, _, hok, hholds, hlength, ?_⟩
  rw [hholds.ret, hlength]
  decide

end FalastinOS.Libc
