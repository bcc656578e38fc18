/-
  Shell/Words.lean --- how many words a line has.

  `parse_command` stores one pointer for each word it finds, and `execute_command`
  has room for 16.  A word starts at a character that is no blank and that begins
  the line or follows a blank; `parseCommand_length` shows that the loop stores
  exactly one pointer for each of these.  The loop here is the one of
  `Shell/Tokens`, with as many rounds as the buffer of `execute_command` has bytes.
-/
import FalastinOS.Shell.Tokens

set_option autoImplicit false

namespace FalastinOS.Shell

open FalastinOS.Foundation

/-- The characters at which a word starts; `gap` says whether a word may start at the
first one. -/
def wordStarts : Bool → List UInt8 → Nat
  | _, [] => 0
  | gap, c :: rest => (if gap ∧ c ≠ 32 then 1 else 0) + wordStarts (decide (c = 32)) rest

/-- A word starts where a part between blanks begins that is not empty.  Inside a word the
first part is the rest of the word. -/
theorem wordStarts_eq (line : List UInt8) :
    wordStarts true line = (runs line).length ∧
      wordStarts false line = ((line.splitOn 32).tail.filter (· ≠ [])).length := by
  induction line with
  | nil => exact ⟨rfl, rfl⟩
  | cons c line ih =>
      rw [wordStarts, wordStarts, if_neg (by simp : ¬ (false = true ∧ c ≠ 32)), Nat.zero_add]
      by_cases hc : c = 32
      · subst hc
        have hcons : (32 :: line).splitOn 32 = [] :: line.splitOn 32 := by
          rw [List.splitOn_cons_eq_if_modifyHead, if_pos (by decide)]
        rw [runs_blank, hcons, if_neg (by simp), Nat.zero_add]
        exact ⟨ih.1, ih.1⟩
      · obtain ⟨first, others, hsplit⟩ := List.exists_cons_of_ne_nil (List.splitOn_ne_nil 32 line)
        have hcons : (c :: line).splitOn 32 = (c :: first) :: others := by
          rw [List.splitOn_cons_eq_if_modifyHead, if_neg (by simpa using hc), hsplit]
          rfl
        have hnot : decide (c = 32) = false := decide_eq_false hc
        rw [hsplit, List.tail_cons] at ih
        rw [runs, hcons, if_pos ⟨rfl, hc⟩, hnot, ih.2, List.tail_cons,
          List.filter_cons_of_pos (by simp), List.length_cons]
        exact ⟨Nat.add_comm _ _, rfl⟩

/-! ## The loop -/

theorem skipWhile_of_advance {test : UInt8 → Bool} {buf : Mem} (n : Nat) : ∀ {i j : Nat},
    advance test buf n i = some j → skipWhile test buf n i = j := by
  induction n with
  | zero => exact fun h => nomatch h
  | succ n ih =>
      intro i j h
      rw [advance] at h
      rw [skipWhile]
      split at h
      · rename_i htest
        rw [if_pos htest]
        exact ih h
      · rename_i htest
        rw [if_neg htest]
        exact Option.some.inj h

/-- The body of the loop. -/
theorem parseLoop_succ (n : Nat) (buf : Mem) (i : Nat) (argv : List Nat) :
    parseLoop (n + 1) buf i argv =
      let start := skipWhile isBlank buf bufferSize i
      let stop := skipWhile isWord buf bufferSize start
      if buf i = 0 then (buf, argv)
      else if buf start = 0 then (buf, argv)
      else if buf stop ≠ 0 then parseLoop n (buf.writeByte stop 0) (stop + 1) (argv ++ [start])
      else parseLoop n buf stop (argv ++ [start]) := rfl

/-- In the buffer of `execute_command` the loops never run out of rounds. -/
theorem parseLoop_of_tokenLoop (n : Nat) : ∀ {buf : Mem} {i : Nat} {argv : List Nat}
    {result : Mem × List Nat}, tokenLoop bufferSize n buf i argv = some result →
      parseLoop n buf i argv = result := by
  induction n with
  | zero => exact fun h => nomatch h
  | succ n ih =>
      intro buf i argv result h
      rw [tokenLoop] at h
      rw [parseLoop_succ]
      dsimp only
      split at h
      · rename_i hend
        rw [if_pos hend]
        exact Option.some.inj h
      rename_i hend
      rw [if_neg hend]
      obtain ⟨start, hstart, h⟩ := Option.bind_eq_some_iff.mp h
      rw [skipWhile_of_advance _ hstart]
      split at h
      · rename_i hblanks
        rw [if_pos hblanks]
        exact Option.some.inj h
      rename_i hblanks
      rw [if_neg hblanks]
      obtain ⟨stop, hstop, h⟩ := Option.bind_eq_some_iff.mp h
      rw [skipWhile_of_advance _ hstop]
      split at h
      · rename_i hblank
        rw [if_pos hblank]
        exact ih h
      · rename_i hblank
        rw [if_neg hblank]
        exact ih h

/-! ## The line -/

/-- The characters of a line that `execute_command` looks at. -/
def shownLine (line : CStr) : List UInt8 := line.bytes.take 255

theorem stringAt_lineBuffer (line : CStr) : StringAt (lineBuffer line) 0 (shownLine line) := by
  refine stringAt_of_bytes (fun hmem => line.noNul (List.mem_of_mem_take hmem)) fun k _ => ?_
  rw [Nat.zero_add, lineBuffer, CStr.byte, List.getD_eq_getElem?_getD,
    List.getD_eq_getElem?_getD, List.getElem?_take]
  split <;> rfl

/-- `parse_command` stores one pointer for each word of the line. -/
theorem parseCommand_length (line : CStr) :
    (parseCommand (lineBuffer line)).2.length = wordStarts true (shownLine line) := by
  have hlen : (shownLine line).length < bufferSize :=
    Nat.lt_succ_of_le (List.length_take_le 255 line.bytes)
  obtain ⟨buf', argv, hparse, hwords, -⟩ :=
    tokenLoop_spec bufferSize bufferSize [] (stringAt_lineBuffer line) hlen hlen
  rw [parseCommand, parseLoop_of_tokenLoop _ hparse, (wordStarts_eq _).1]
  exact hwords.length_eq

/-- Every store `argv[argc++]` of `parse_command` is inside the array of 16 pointers
exactly if at most 16 words start in the first 255 characters of the line. -/
theorem argv_in_bounds_iff (line : CStr) :
    (∀ argc, argc < (parseCommand (lineBuffer line)).2.length → argc < 16) ↔
      wordStarts true (line.bytes.take 255) ≤ 16 := by
  rw [parseCommand_length]
  constructor
  · intro h
    by_contra hmany
    exact absurd (h 16 (Nat.not_le.mp hmany)) (Nat.lt_irrefl 16)
  · exact fun h argc hargc => Nat.lt_of_lt_of_le hargc h

/-- Seventeen words of one letter. -/
def manyWords : CStr := ⟨text "a b c d e f g h i j k l m n o p q", by decide⟩

theorem argv_overrun :
    ¬ ∀ argc, argc < (parseCommand (lineBuffer manyWords)).2.length → argc < 16 := by
  have hlength : (parseCommand (lineBuffer manyWords)).2.length = 17 := by
    rw [parseCommand_length]
    decide +kernel
  rw [hlength]
  exact fun h => absurd (h 16 (by decide)) (Nat.lt_irrefl 16)

end FalastinOS.Shell
