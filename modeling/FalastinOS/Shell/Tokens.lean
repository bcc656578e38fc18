/-
  Shell/Tokens.lean --- `parse_command` splits a line into its words.

  The loop works in place.  It stores the address of each word in `argv` and a NUL over
  the blank behind it, and goes on behind that NUL.  So what `argv` points to is only
  seen in the end, in the buffer as the whole loop leaves it: what comes later must not
  touch the words found before, and it does not, because it only stores behind them.

  The words of a line are the parts between its blanks that are not empty.
-/
import FalastinOS.Shell.Commands

set_option autoImplicit false

namespace FalastinOS.Shell

open FalastinOS.Foundation

/-- Does the byte separate words? -/
def isBlank (c : UInt8) : Bool := c = 32

/-- Does the byte belong to a word? -/
def isWord (c : UInt8) : Bool := c ≠ 0 ∧ c ≠ 32

/-- An inner loop, which advances while the byte passes the test.  It has no result if `n`
rounds are not enough. -/
def advance (test : UInt8 → Bool) (buf : Mem) : Nat → Nat → Option Nat
  | 0, _ => none
  | n + 1, i => if test (buf i) then advance test buf n (i + 1) else some i

/-- `while (*input)` of `parse_command`, with `argv` as far as it is stored. -/
def tokenLoop (rounds : Nat) : Nat → Mem → Nat → List Nat → Option (Mem × List Nat)
  | 0, _, _, _ => none
  | n + 1, buf, input, argv =>
      if buf input = 0 then some (buf, argv)
      else do
        let start ← advance isBlank buf rounds input
        if buf start = 0 then return (buf, argv)
        let stop ← advance isWord buf rounds start
        if buf stop ≠ 0 then tokenLoop rounds n (buf.writeByte stop 0) (stop + 1) (argv ++ [start])
        else tokenLoop rounds n buf stop (argv ++ [start])

/-- `parse_command(input, argv)`: the buffer and `argv` when it returns, if no loop in it
makes more than `rounds` rounds.  `argc` is the length of `argv`. -/
def parseLine (rounds : Nat) (buf : Mem) (input : Nat) : Option (Mem × List Nat) :=
  tokenLoop rounds rounds buf input []

/-- The maximal runs of characters other than the blank. -/
def runs (line : List UInt8) : List (List UInt8) := (line.splitOn 32).filter (· ≠ [])

/-! ## The words of a line -/

theorem runs_blank (line : List UInt8) : runs (32 :: line) = runs line := by
  rw [runs, List.splitOn_cons_eq_if_modifyHead, if_pos (by decide)]
  rfl

/-- Blanks before the first word do not matter. -/
theorem runs_dropWhile (line : List UInt8) : runs (line.dropWhile isBlank) = runs line := by
  induction line with
  | nil => rfl
  | cons c line ih =>
      by_cases hc : c = 32
      · subst hc
        rw [List.dropWhile_cons_of_pos rfl, ih, runs_blank]
      · rw [List.dropWhile_cons_of_neg (by simp [isBlank, hc])]

theorem runs_word {word : List UInt8} (hne : word ≠ []) (hword : (32 : UInt8) ∉ word) :
    runs word = [word] := by
  rw [runs, List.splitOn_eq_singleton hword]
  simp [hne]

theorem runs_word_append {word : List UInt8} (hne : word ≠ []) (hword : (32 : UInt8) ∉ word)
    (line : List UInt8) : runs (word ++ 32 :: line) = word :: runs line := by
  rw [runs, List.splitOn_append_cons_self_of_not_mem hword, List.filter_cons_of_pos (by simp [hne])]
  rfl

/-- A line that does not begin with a blank is a word, or a word, a blank and a line. -/
theorem exists_word {c : UInt8} {line : List UInt8} (hc : c ≠ 32) (hnul : (0 : UInt8) ∉ c :: line) :
    ∃ word rest, word ≠ [] ∧ (32 : UInt8) ∉ word ∧ c :: line = word ++ rest ∧
      (c :: line).takeWhile isWord = word ∧ (rest = [] ∨ ∃ line', rest = 32 :: line') := by
  have hwords : ∀ d ∈ (c :: line).takeWhile isWord, isWord d = true := fun d hd =>
    List.mem_takeWhile_imp hd
  refine ⟨(c :: line).takeWhile isWord, (c :: line).dropWhile isWord, ?_, ?_, ?_, rfl, ?_⟩
  · have hz : c ≠ 0 := fun hz => hnul (by simp [hz])
    rw [List.takeWhile_cons_of_pos (by simp [isWord, hz, hc])]
    exact List.cons_ne_nil _ _
  · exact fun hmem => absurd (hwords 32 hmem) (by decide)
  · exact List.takeWhile_append_dropWhile.symm
  · cases hrest : (c :: line).dropWhile isWord with
    | nil => exact .inl rfl
    | cons d rest =>
        have hhead := List.head?_dropWhile_not isWord (c :: line)
        rw [hrest] at hhead
        have hz : d ≠ 0 := by
          rintro rfl
          have hmem : (0 : UInt8) ∈ (c :: line).dropWhile isWord := hrest ▸ List.mem_cons_self
          exact hnul ((List.dropWhile_sublist isWord).subset hmem)
        have hd : d = 32 := by simpa [isWord, hz] using hhead
        exact .inr ⟨rest, by rw [hd]⟩

/-! ## The loops -/

/-- An inner loop stops behind the characters that pass the test. -/
theorem advance_eq (test : UInt8 → Bool) (htest : test 0 = false) {buf : Mem} {line : List UInt8} :
    ∀ {n i : Nat}, StringAt buf i line → line.length < n →
      advance test buf n i = some (i + (line.takeWhile test).length) := by
  induction line with
  | nil =>
      intro n i h hn
      obtain ⟨n, rfl⟩ : ∃ k, n = k + 1 := ⟨n - 1, by simp only [List.length_nil] at hn; omega⟩
      have hzero : buf i = 0 := h
      rw [advance, hzero, htest]
      rfl
  | cons c line ih =>
      intro n i h hn
      obtain ⟨n, rfl⟩ : ∃ k, n = k + 1 := ⟨n - 1, by simp only [List.length_cons] at hn; omega⟩
      rw [advance, h.2.1]
      by_cases hc : test c = true
      · rw [if_pos hc, ih h.2.2 (Nat.lt_of_succ_lt_succ hn), List.takeWhile_cons_of_pos hc,
          List.length_cons]
        congr 1
        omega
      · rw [if_neg hc, List.takeWhile_cons_of_neg hc]
        rfl

/-- What a round of the loop does that finds a word: the buffer, the address and the rest of
the line with which the next round begins, and the word and its address. -/
structure Round (buf : Mem) (input : Nat) (line : List UInt8) where
  buf' : Mem
  next : Nat
  rest : List UInt8
  start : Nat
  word : List UInt8
  runs_eq : runs line = word :: runs rest
  word_at : StringAt buf' start word
  rest_at : StringAt buf' next rest
  /-- where the rest ends, the line ended -/
  same_end : next + rest.length = input + line.length
  shorter : rest.length < line.length
  later : input ≤ next
  /-- the word and its NUL are not in the rest -/
  apart : ∀ x, x ≤ start + word.length → x < next ∨ next + rest.length ≤ x
  unchanged : ∀ x, x < input ∨ input + line.length ≤ x → buf' x = buf x

section Rounds

variable {buf : Mem} {input start : Nat} {line word : List UInt8}

/-- The round for a word with which the line ends. -/
def Round.last (hruns : runs line = [word]) (hat : StringAt buf start word) (hne : word ≠ [])
    (hstart : input ≤ start) (hend : start + word.length = input + line.length) :
    Round buf input line where
  buf' := buf
  next := start + word.length
  rest := []
  start := start
  word := word
  runs_eq := hruns
  word_at := hat
  rest_at := StringAt.drop (t := []) (by rwa [List.append_nil])
  same_end := hend
  shorter := by
    have hpos := List.length_pos_iff.mpr hne
    simp only [List.length_nil]
    omega
  later := by omega
  apart := fun x _ => by
    simp only [List.length_nil]
    omega
  unchanged := fun _ _ => rfl

/-- The round for a word before a blank: the NUL is stored over the blank. -/
def Round.beforeBlank {rest : List UInt8} (hruns : runs line = word :: runs rest)
    (hat : StringAt buf start (word ++ 32 :: rest)) (hstart : input ≤ start)
    (hend : start + word.length + 1 + rest.length = input + line.length) :
    Round buf input line where
  buf' := buf.writeByte (start + word.length) 0
  next := start + word.length + 1
  rest := rest
  start := start
  word := word
  runs_eq := hruns
  word_at := hat.cut
  rest_at := hat.drop.2.2.congr fun x hlow _ => Mem.writeByte_of_ne buf 0 (by omega)
  same_end := hend
  shorter := by omega
  later := by omega
  apart := fun x hx => by omega
  unchanged := fun x hx => Mem.writeByte_of_ne buf 0 (by omega)

end Rounds

/-- A round ends the loop if only blanks are left, and finds the next word otherwise. -/
theorem tokenLoop_round {rounds : Nat} {buf : Mem} {input : Nat} {line : List UInt8} (n : Nat)
    (argv : List Nat) (h : StringAt buf input line) (hrounds : line.length < rounds) :
    (runs line = [] ∧ tokenLoop rounds (n + 1) buf input argv = some (buf, argv)) ∨
    ∃ r : Round buf input line, tokenLoop rounds (n + 1) buf input argv =
      tokenLoop rounds n r.buf' r.next (argv ++ [r.start]) := by
  have hsplit : line.takeWhile isBlank ++ line.dropWhile isBlank = line :=
    List.takeWhile_append_dropWhile
  have hblanks := advance_eq isBlank rfl h hrounds
  have hfirst :
      StringAt buf (input + (line.takeWhile isBlank).length) (line.dropWhile isBlank) := by
    rw [← hsplit] at h
    exact h.drop
  have hlength := congrArg List.length hsplit
  rw [List.length_append] at hlength
  rw [tokenLoop, hblanks, ← runs_dropWhile]
  by_cases hend : buf input = 0
  · obtain rfl : line = [] := h.unique (s := line) (t := []) hend
    exact .inl ⟨rfl, if_pos hend⟩
  rw [if_neg hend, Option.bind_eq_bind, Option.bind_some]
  generalize hstart : input + (line.takeWhile isBlank).length = start at hfirst ⊢
  cases hleft : line.dropWhile isBlank with
  | nil =>
      rw [hleft] at hfirst
      exact .inl ⟨rfl, if_pos hfirst⟩
  | cons c left =>
      rw [hleft] at hfirst hlength
      have hc : c ≠ 32 := by
        have hhead := List.head?_dropWhile_not isBlank line
        rw [hleft] at hhead
        simpa [isBlank] using hhead
      obtain ⟨word, rest, hne, hword, hwhole, htake, hrest⟩ := exists_word hc hfirst.zero_notMem
      have hstop : advance isWord buf rounds start = _ := advance_eq isWord rfl hfirst (by omega)
      rw [htake] at hstop
      rw [if_neg (by rw [hfirst.2.1]; exact hfirst.1), hstop, Option.bind_some]
      rw [hwhole] at hfirst
      have hwords := congrArg List.length hwhole
      rw [List.length_append] at hwords
      right
      rcases hrest with rfl | ⟨line', rfl⟩
      · -- the line ends with the word
        have hnul : buf (start + word.length) = 0 := hfirst.drop
        have hruns : runs line = [word] := by
          rw [← runs_dropWhile, hleft, hwhole, List.append_nil, runs_word hne hword]
        rw [List.append_nil] at hfirst
        rw [if_neg (not_not.mpr hnul)]
        rw [List.length_nil] at hwords
        exact ⟨.last hruns hfirst hne (by omega) (by omega), rfl⟩
      · -- a blank follows, and the NUL is stored over it
        have htail := hfirst.drop
        have hblank : buf (start + word.length) ≠ 0 := by
          rw [htail.2.1]
          exact htail.1
        have hruns : runs line = word :: runs line' := by
          rw [← runs_dropWhile, hleft, hwhole, runs_word_append hne hword]
        rw [if_pos hblank]
        simp only [List.length_cons] at hwords hlength
        exact ⟨.beforeBlank hruns hfirst (by omega) (by omega), rfl⟩

/-- The loop stores a pointer for each word of what is left of the line, and in the end each
points to its word.  It changes nothing but what is left of the line. -/
theorem tokenLoop_spec (rounds n : Nat) : ∀ {buf : Mem} {input : Nat} {line : List UInt8}
    (argv : List Nat), StringAt buf input line → line.length < rounds → line.length < n →
    ∃ buf' new, tokenLoop rounds n buf input argv = some (buf', argv ++ new) ∧
      List.Forall₂ (StringAt buf') new (runs line) ∧
      ∀ x, x < input ∨ input + line.length ≤ x → buf' x = buf x := by
  induction n with
  | zero => exact fun _ _ _ hn => absurd hn (Nat.not_lt_zero _)
  | succ n ih =>
      intro buf input line argv h hrounds hn
      rcases tokenLoop_round n argv h hrounds with ⟨hruns, hloop⟩ | ⟨r, hloop⟩
      · refine ⟨buf, [], by rw [hloop, List.append_nil], ?_, fun _ _ => rfl⟩
        rw [hruns]
        exact .nil
      · have hshorter := r.shorter
        obtain ⟨buf', new, hrest, hwords, hsame⟩ :=
          ih (argv ++ [r.start]) r.rest_at (by omega) (by omega)
        refine ⟨buf', r.start :: new, ?_, ?_, fun x hx => ?_⟩
        · rw [hloop, hrest, List.append_assoc]
          rfl
        · -- the word that was found first is still there
          rw [r.runs_eq]
          exact .cons (r.word_at.congr fun x _ hx => hsame x (r.apart x hx)) hwords
        · have hend := r.same_end
          have hlater := r.later
          rw [hsame x (by omega), r.unchanged x hx]

/-- `parse_command` splits a line into its words: it stores as many pointers as the line has
words, and in the buffer as it leaves it each points to its word.  It returns, and stores
nothing before the line or from its terminator on. -/
theorem parseLine_words {buf : Mem} {input : Nat} {line : List UInt8} (h : StringAt buf input line)
    {rounds : Nat} (hrounds : line.length < rounds) :
    ∃ buf' argv, parseLine rounds buf input = some (buf', argv) ∧
      argv.length = (runs line).length ∧ List.Forall₂ (StringAt buf') argv (runs line) ∧
      ∀ x, x < input ∨ input + line.length ≤ x → buf' x = buf x := by
  obtain ⟨buf', argv, hparse, hwords, hsame⟩ := tokenLoop_spec rounds rounds [] h hrounds hrounds
  exact ⟨buf', argv, hparse, hwords.length_eq, hwords, hsame⟩

/-- The line " ls  a", with other bytes behind its terminator. -/
def twoWords : Mem := fun i => (text " ls  a" ++ [0]).getD i 0xAA

theorem parseLine_words_twoWords :
    ∃ buf' argv, parseLine 7 twoWords 0 = some (buf', argv) ∧ argv.length = 2 ∧
      List.Forall₂ (StringAt buf') argv [text "ls", text "a"] := by
  have hline : StringAt twoWords 0 (text " ls  a") :=
    stringAt_of_bytes (by decide) (by decide)
  have hruns : runs (text " ls  a") = [text "ls", text "a"] := by decide
  obtain ⟨buf', argv, hparse, hlength, hwords, -⟩ := parseLine_words hline (by decide : _ < 7)
  rw [hruns] at hlength hwords
  exact ⟨buf', argv, hparse, hlength, hwords⟩

end FalastinOS.Shell
