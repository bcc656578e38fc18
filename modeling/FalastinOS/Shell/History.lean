/-
  Shell/History.lean --- the prompt of `shell_start` and its command history.

  Ten rows of 256 characters keep the last commands, the newest in row 0.  A new
  command moves every row down by copying its characters over those of the next row,
  and the arrows copy a row over the command line.  Neither copy writes the NUL, so
  what the destination had behind the copied characters shows through.

  `faithful_iff_clean` says when that does not happen: the destination has its NUL
  already where the copied text ends.
-/
import FalastinOS.Foundation.CString
import FalastinOS.Foundation.Execution
import FalastinOS.Drivers.Keyboard

set_option autoImplicit false

namespace FalastinOS.Shell

open FalastinOS.Foundation FalastinOS.Drivers

/-! ## Lines -/

/-- A row of `MAX_CMD_LEN` characters.  The last one is always NUL. -/
structure Line where
  chars : CharArray 256
  terminated : chars 255 = 0

namespace Line

/-- The row as it is before anything is stored. -/
def blank : Line := ⟨fun _ => 0, rfl⟩

/-- The character at an index. -/
def get (l : Line) (j : Nat) : UInt8 := if h : j < 256 then l.chars ⟨j, h⟩ else 0

/-- The row read as a C string. -/
def text (l : Line) : List UInt8 := l.chars.toCStr

theorem get_255 (l : Line) : l.get 255 = 0 := l.terminated

theorem lt_of_get_ne (l : Line) {j : Nat} (h : l.get j ≠ 0) : j < 255 := by
  by_contra hge
  obtain rfl | hge : j = 255 ∨ 256 ≤ j := by omega
  · exact h l.get_255
  · exact h (dif_neg (by omega))

/-- Store a character. -/
def put (l : Line) (j : Nat) (b : UInt8) (h : j < 255) : Line where
  chars := l.chars.set j b
  terminated := by
    have hne : (255 : Nat) ≠ j := by omega
    exact (if_neg hne).trans l.terminated

/-- Store a NUL. -/
def cut (l : Line) (j : Nat) : Line where
  chars := l.chars.set j 0
  terminated := by
    rw [CharArray.set, l.terminated, ite_self]

@[simp] theorem get_put (l : Line) (j : Nat) (b : UInt8) (h : j < 255) (k : Nat) :
    (l.put j b h).get k = if k = j then b else l.get k := by
  unfold get put
  by_cases hk : k < 256
  · simp only [dif_pos hk, CharArray.set]
  · rw [dif_neg hk, dif_neg hk, if_neg (by omega)]

@[simp] theorem get_cut (l : Line) (j k : Nat) :
    (l.cut j).get k = if k = j then 0 else l.get k := by
  unfold get cut
  by_cases hk : k < 256
  · simp only [dif_pos hk, CharArray.set]
  · rw [dif_neg hk, dif_neg hk, ite_self]

/-- The loop `for (j = 0; src[j]; j++) dst[j] = src[j];` with `n` turns left.  The bound
`j < MAX_CMD_LEN`, which only one of its three copies has, is never reached: the last
character of a row is NUL. -/
def copyLoop (src : Line) : Nat → Nat → Line → Line
  | 0, _, dst => dst
  | n + 1, j, dst =>
      if h : src.get j = 0 then dst
      else copyLoop src n (j + 1) (dst.put j (src.get j) (src.lt_of_get_ne h))

/-- The loop from the first character on. -/
def copyOver (src dst : Line) : Line := src.copyLoop 256 0 dst

/-! ### Rows as strings -/

theorem text_eq_iff (l : Line) {s : List UInt8} (hs : (0 : UInt8) ∉ s) :
    l.text = s ↔ s.length ≤ 255 ∧ (∀ k (h : k < s.length), l.get k = s[k]) ∧
      l.get s.length = 0 := by
  rw [text, CharArray.toCStr_eq_iff _ hs]
  constructor
  · rintro ⟨hlen, hk⟩
    have hlt : s.length ≠ 256 := by
      intro h256
      have hlast := (hk 255).1 (by rw [h256]; decide)
      rw [l.terminated] at hlast
      exact hs (hlast ▸ List.getElem_mem _)
    refine ⟨by omega, fun k h => ?_, ?_⟩
    · rw [get, dif_pos (by omega)]
      exact (hk ⟨k, by omega⟩).1 h
    · rw [get, dif_pos (by omega)]
      exact (hk ⟨s.length, by omega⟩).2 rfl
  · rintro ⟨hlen, hk, hend⟩
    refine ⟨by omega, fun k => ⟨fun h => ?_, fun h => ?_⟩⟩
    · have hget := hk k.val h
      rwa [get, dif_pos k.isLt] at hget
    · rw [← h, get, dif_pos k.isLt] at hend
      exact hend

theorem noNul_text (l : Line) : (0 : UInt8) ∉ l.text := l.chars.zero_notMem_toCStr

theorem length_text_le (l : Line) : l.text.length ≤ 255 :=
  ((l.text_eq_iff l.noNul_text).mp rfl).1

theorem get_text (l : Line) {k : Nat} (h : k < l.text.length) : l.get k = l.text[k] :=
  ((l.text_eq_iff l.noNul_text).mp rfl).2.1 k h

theorem get_length (l : Line) : l.get l.text.length = 0 :=
  ((l.text_eq_iff l.noNul_text).mp rfl).2.2

theorem get_ne_zero (l : Line) {k : Nat} (h : k < l.text.length) : l.get k ≠ 0 := by
  rw [l.get_text h]
  exact fun hzero => l.noNul_text (hzero ▸ List.getElem_mem h)

/-- What the loop does, from an index inside the text on. -/
theorem get_copyLoop (src : Line) (n : Nat) :
    ∀ (j : Nat) (dst : Line), j ≤ src.text.length → src.text.length < j + n →
      ∀ k, (src.copyLoop n j dst).get k =
        if j ≤ k ∧ k < src.text.length then src.get k else dst.get k := by
  induction n with
  | zero => exact fun j dst hj hn => absurd hn (by omega)
  | succ n ih =>
      intro j dst hj hn k
      rw [copyLoop]
      by_cases hend : j = src.text.length
      · have hnul : src.get j = 0 := by rw [hend]; exact src.get_length
        rw [dif_pos hnul, if_neg (by omega)]
      · have hchar : src.get j ≠ 0 := src.get_ne_zero (by omega)
        rw [dif_neg hchar, ih (j + 1) _ (by omega) (by omega), get_put]
        by_cases hk : k = j
        · subst hk
          rw [if_neg (by omega), if_pos rfl, if_pos (by omega)]
        · rw [if_neg hk]
          by_cases hin : j ≤ k ∧ k < src.text.length
          · rw [if_pos hin, if_pos (by omega)]
          · rw [if_neg hin, if_neg (by omega)]

theorem get_copyOver (src dst : Line) (k : Nat) :
    (src.copyOver dst).get k = if k < src.text.length then src.get k else dst.get k := by
  have hlen := src.length_text_le
  rw [copyOver, src.get_copyLoop 256 0 dst (by omega) (by omega)]
  simp only [Nat.zero_le, true_and]

/-- The copy has the text of its source exactly if the destination had a NUL where that text
ends. -/
theorem text_copyOver_iff (src dst : Line) :
    (src.copyOver dst).text = src.text ↔ dst.get src.text.length = 0 := by
  rw [text_eq_iff _ src.noNul_text, get_copyOver, if_neg (Nat.lt_irrefl _)]
  constructor
  · exact fun h => h.2.2
  · intro h
    refine ⟨src.length_text_le, fun k hk => ?_, h⟩
    rw [get_copyOver, if_pos hk, src.get_text hk]

/-- A NUL inside the text shortens it. -/
theorem text_cut (l : Line) {j : Nat} (h : j ≤ l.text.length) : (l.cut j).text = l.text.take j := by
  have hlen := l.length_text_le
  have htake : (l.text.take j).length = j := List.length_take_of_le h
  have hnul : (0 : UInt8) ∉ l.text.take j := fun hmem => l.noNul_text (List.mem_of_mem_take hmem)
  rw [text_eq_iff _ hnul]
  refine ⟨by omega, fun k hk => ?_, by rw [htake, get_cut, if_pos rfl]⟩
  rw [get_cut, if_neg (by omega), List.getElem_take, l.get_text (by omega)]

/-- A character at the end of the text, with a NUL behind it. -/
theorem text_put (l : Line) {c : UInt8} (hc : c ≠ 0) (h : l.text.length < 255) :
    ((l.put l.text.length c h).cut (l.text.length + 1)).text = l.text ++ [c] := by
  have hnul : (0 : UInt8) ∉ l.text ++ [c] := by
    simp only [List.mem_append, List.mem_singleton, not_or]
    exact ⟨l.noNul_text, fun h => hc h.symm⟩
  have hlen : (l.text ++ [c]).length = l.text.length + 1 := by simp
  rw [text_eq_iff _ hnul]
  refine ⟨by omega, fun k hk => ?_, by rw [hlen, get_cut, if_pos rfl]⟩
  rw [get_cut, if_neg (by omega), get_put]
  by_cases hlast : k = l.text.length
  · subst hlast
    simp
  · have hold : k < l.text.length := by omega
    rw [if_neg hlast, List.getElem_append_left hold, l.get_text hold]

theorem text_blank : blank.text = [] :=
  (blank.text_eq_iff (s := []) (by simp)).mpr
    ⟨by decide, fun k hk => absurd hk (by simp), rfl⟩

end Line

/-! ## The prompt -/

/-- `MAX_HISTORY`. -/
def maxHistory : Nat := 10

/-- The static variables of `shell.c`. -/
structure Prompt where
  history : Nat → Line
  historyCount : Nat
  historyPos : Int
  cmdline : Line
  cmdlen : Nat

namespace Prompt

/-- The variables at the first prompt. -/
def boot : Prompt := ⟨fun _ => .blank, 0, -1, .blank, 0⟩

/-- The start of the outer loop. -/
def reset (p : Prompt) : Prompt :=
  { p with cmdline := p.cmdline.cut 0, cmdlen := 0, historyPos := -1 }

/-- The rows after `for (i = n; i > 0; i--)` has copied row `i - 1` over row `i`. -/
def shiftRows : Nat → (Nat → Line) → Nat → Line
  | 0, rows => rows
  | i + 1, rows => shiftRows i (Function.update rows (i + 1) ((rows i).copyOver (rows (i + 1))))

/-- `for (i = 0; i <= cmdlen; i++) history[0][i] = cmdline[i];` -/
def firstRow (row cmdline : Line) (cmdlen : Nat) : Line where
  chars := fun k => if k.val ≤ cmdlen then cmdline.chars k else row.chars k
  terminated := by
    rw [cmdline.terminated, row.terminated, ite_self]

/-- The branch for '\n' with a command, up to `execute_command`. -/
def submit (p : Prompt) : Prompt :=
  let rows := shiftRows (maxHistory - 1) p.history
  { p with
    history := Function.update rows 0 (firstRow (rows 0) p.cmdline p.cmdlen)
    historyCount := if p.historyCount < maxHistory then p.historyCount + 1 else p.historyCount }

/-- Display row `pos` of the history and copy it to the command line. -/
def recallRow (p : Prompt) (pos : Int) : Prompt :=
  let cmdline := (p.history pos.toNat).copyOver p.cmdline
  { p with
    historyPos := pos
    cmdline := cmdline.cut cmdline.text.length
    cmdlen := cmdline.text.length }

/-- The arrow down at the newest command: the line is empty again. -/
def leaveHistory (p : Prompt) : Prompt :=
  { p with historyPos := p.historyPos - 1, cmdline := p.cmdline.cut 0, cmdlen := 0 }

/-- What a key does; `execute_command` only reads the line it is given. -/
def key (p : Prompt) (c : UInt8) : Prompt :=
  if c = 10 then (if p.cmdlen > 0 then p.submit else p).reset
  else if c = 8 then
    if p.cmdlen > 0 then
      { p with cmdline := p.cmdline.cut (p.cmdlen - 1), cmdlen := p.cmdlen - 1 }
    else p
  else if c = Keyboard.keyUp then
    if p.historyPos < p.historyCount - 1 then p.recallRow (p.historyPos + 1) else p
  else if c = Keyboard.keyDown then
    if p.historyPos ≥ 0 then
      if p.historyPos - 1 ≥ 0 then p.recallRow (p.historyPos - 1)
      else p.leaveHistory
    else p
  else if 32 ≤ c ∧ c ≤ 126 then
    -- KEY_LEFT and KEY_RIGHT, below 32, move at most the cursor on the screen
    if h : p.cmdlen < 255 then
      { p with cmdline := (p.cmdline.put p.cmdlen c h).cut (p.cmdlen + 1), cmdlen := p.cmdlen + 1 }
    else p
  else p

/-! ### What the parts of a key do -/

theorem shiftRows_eq (n : Nat) (rows : Nat → Line) (k : Nat) :
    shiftRows n rows k = if 1 ≤ k ∧ k ≤ n then (rows (k - 1)).copyOver (rows k) else rows k := by
  induction n generalizing rows with
  | zero => rw [shiftRows, if_neg (by omega)]
  | succ n ih =>
      rw [shiftRows, ih]
      by_cases hlast : k = n + 1
      · subst hlast
        rw [if_neg (by omega), if_pos (by omega), Function.update_self, Nat.add_sub_cancel]
      · rw [Function.update_of_ne hlast]
        by_cases hin : 1 ≤ k ∧ k ≤ n
        · rw [if_pos hin, if_pos (by omega), Function.update_of_ne (by omega)]
        · rw [if_neg hin, if_neg (by omega)]

theorem get_firstRow (row cmdline : Line) (cmdlen k : Nat) :
    (firstRow row cmdline cmdlen).get k = if k ≤ cmdlen then cmdline.get k else row.get k := by
  unfold Line.get firstRow
  by_cases hk : k < 256
  · simp only [dif_pos hk]
  · simp only [dif_neg hk, ite_self]

/-- Row 0 gets the command, with its NUL. -/
theorem text_firstRow (row cmdline : Line) :
    (firstRow row cmdline cmdline.text.length).text = cmdline.text := by
  rw [Line.text_eq_iff _ cmdline.noNul_text]
  refine ⟨cmdline.length_text_le, fun k hk => ?_, ?_⟩
  · rw [get_firstRow, if_pos (by omega), cmdline.get_text hk]
  · rw [get_firstRow, if_pos (Nat.le_refl _), cmdline.get_length]

theorem submit_history_zero (p : Prompt) (h : p.cmdlen = p.cmdline.text.length) :
    (p.submit.history 0).text = p.cmdline.text := by
  simp only [submit, Function.update_self, h]
  exact text_firstRow _ _

theorem submit_history_succ (p : Prompt) {k : Nat} (h : k + 1 < maxHistory) :
    p.submit.history (k + 1) = (p.history k).copyOver (p.history (k + 1)) := by
  simp only [submit, maxHistory] at h ⊢
  rw [Function.update_of_ne (by omega), shiftRows_eq, if_pos (by omega), Nat.add_sub_cancel]

/-- The line after a recall, and its length. -/
theorem recallRow_line (p : Prompt) (pos : Int) :
    (p.recallRow pos).cmdline.text = ((p.history pos.toNat).copyOver p.cmdline).text ∧
      (p.recallRow pos).cmdlen = (p.recallRow pos).cmdline.text.length := by
  have htext :
      (p.recallRow pos).cmdline.text = ((p.history pos.toNat).copyOver p.cmdline).text := by
    simp only [recallRow]
    rw [Line.text_cut _ (Nat.le_refl _), List.take_length]
  refine ⟨htext, ?_⟩
  rw [htext]
  rfl

end Prompt

/-! ## Every sequence of keys -/

/-- The prompt, with a record of the commands submitted, the newest first, and of whether
the last key was an arrow up or down. -/
structure Typing where
  prompt : Prompt
  submitted : List (List UInt8)
  recalled : Bool

namespace Typing

def boot : Typing := ⟨Prompt.boot, [], false⟩

/-- One key.  None can fail. -/
def step (s : Typing) (c : UInt8) : Except Empty Typing := .ok
  { prompt := s.prompt.key c
    submitted :=
      if c = 10 ∧ s.prompt.cmdlen > 0 then s.prompt.cmdline.text :: s.submitted else s.submitted
    recalled := c = Keyboard.keyUp ∨ c = Keyboard.keyDown }

/-- Row `k` is the command submitted `k` commands ago, and after an arrow the command line
is the row that `history_pos` names. -/
structure Faithful (s : Typing) : Prop where
  rows : ∀ k, k < s.prompt.historyCount → s.submitted[k]? = some (s.prompt.history k).text
  line : s.recalled = true → 0 ≤ s.prompt.historyPos →
    s.prompt.cmdline.text = (s.prompt.history s.prompt.historyPos.toNat).text ∧
      s.prompt.cmdlen = (s.prompt.history s.prompt.historyPos.toNat).text.length

/-- How many rows are in use after one more command. -/
def rowsAfter (p : Prompt) : Nat := min maxHistory (p.historyCount + 1)

/-- The destination of every copy has its NUL where the copied text ends.  An arrow up at the
oldest command copies nothing; it finds the line as it was recalled. -/
def Clean (s : Typing) (c : UInt8) : Prop :=
  if c = 10 then
    s.prompt.cmdlen > 0 → ∀ k, k + 1 < rowsAfter s.prompt →
      (s.prompt.history (k + 1)).get (s.prompt.history k).text.length = 0
  else if c = Keyboard.keyUp then
    if s.prompt.historyPos < s.prompt.historyCount - 1 then
      s.prompt.cmdline.get (s.prompt.history (s.prompt.historyPos + 1).toNat).text.length = 0
    else 0 ≤ s.prompt.historyPos →
      s.prompt.cmdline.text = (s.prompt.history s.prompt.historyPos.toNat).text
  else if c = Keyboard.keyDown then
    0 ≤ s.prompt.historyPos - 1 →
      s.prompt.cmdline.get (s.prompt.history (s.prompt.historyPos - 1).toNat).text.length = 0
  else True

/-- The length of the command line is known, and the count of the history and the position in
it are in range. -/
structure Ranged (s : Typing) : Prop where
  cmdlen : s.prompt.cmdlen = s.prompt.cmdline.text.length
  count : s.prompt.historyCount = min maxHistory s.submitted.length
  pos : -1 ≤ s.prompt.historyPos

theorem key_enter (p : Prompt) : p.key 10 = (if p.cmdlen > 0 then p.submit else p).reset := rfl

theorem key_up (p : Prompt) :
    p.key Keyboard.keyUp =
      if p.historyPos < p.historyCount - 1 then p.recallRow (p.historyPos + 1) else p := rfl

theorem key_down (p : Prompt) :
    p.key Keyboard.keyDown =
      if p.historyPos ≥ 0 then
        if p.historyPos - 1 ≥ 0 then p.recallRow (p.historyPos - 1)
        else p.leaveHistory
      else p := rfl

/-- The other keys edit the command line and leave the history alone. -/
theorem key_other (p : Prompt) {c : UInt8} (h10 : c ≠ 10) (hup : c ≠ Keyboard.keyUp)
    (hdown : c ≠ Keyboard.keyDown) :
    (p.key c).history = p.history ∧ (p.key c).historyCount = p.historyCount ∧
      (p.key c).historyPos = p.historyPos ∧
      (p.cmdlen = p.cmdline.text.length → (p.key c).cmdlen = (p.key c).cmdline.text.length) := by
  unfold Prompt.key
  rw [if_neg h10]
  by_cases hback : c = 8
  · rw [if_pos hback]
    by_cases hlen : p.cmdlen > 0
    · rw [if_pos hlen]
      refine ⟨rfl, rfl, rfl, fun h => ?_⟩
      rw [Line.text_cut _ (by omega), List.length_take_of_le (by omega)]
    · rw [if_neg hlen]
      exact ⟨rfl, rfl, rfl, id⟩
  · rw [if_neg hback, if_neg hup, if_neg hdown]
    by_cases hprint : 32 ≤ c ∧ c ≤ 126
    · rw [if_pos hprint]
      by_cases hroom : p.cmdlen < 255
      · rw [dif_pos hroom]
        refine ⟨rfl, rfl, rfl, fun h => ?_⟩
        have hc : c ≠ 0 := fun h0 => absurd hprint.1 (by rw [h0]; decide)
        have htext : ((p.cmdline.put p.cmdlen c hroom).cut (p.cmdlen + 1)).text =
            p.cmdline.text ++ [c] := by
          simp only [h]
          exact p.cmdline.text_put hc (by omega)
        rw [htext, List.length_append, List.length_singleton]
        exact congrArg (· + 1) h
      · rw [dif_neg hroom]
        exact ⟨rfl, rfl, rfl, id⟩
    · rw [if_neg hprint]
      exact ⟨rfl, rfl, rfl, id⟩

theorem length_text_cut_zero (l : Line) : (l.cut 0).text.length = 0 := by
  rw [Line.text_cut _ (Nat.zero_le _), List.take_zero, List.length_nil]

theorem submit_count (p : Prompt) (h : p.historyCount ≤ maxHistory) :
    p.submit.historyCount = rowsAfter p := by
  simp only [Prompt.submit, rowsAfter]
  split <;> omega

theorem Ranged.count_le {s : Typing} (h : s.Ranged) : s.prompt.historyCount ≤ maxHistory := by
  rw [h.count]
  exact Nat.min_le_left _ _

theorem ranged_step {s s' : Typing} {c : UInt8} (h : s.Ranged) (hstep : s.step c = .ok s') :
    s'.Ranged := by
  obtain rfl := Except.ok.inj hstep
  have hcount := h.count
  have hpos := h.pos
  by_cases h10 : c = 10
  · subst h10
    refine ⟨(length_text_cut_zero _).symm, ?_, Int.le_refl _⟩
    simp only [key_enter, true_and]
    by_cases hlen : s.prompt.cmdlen > 0
    · simp only [if_pos hlen, List.length_cons]
      show s.prompt.submit.historyCount = _
      rw [submit_count _ h.count_le, rowsAfter]
      omega
    · simp only [if_neg hlen]
      exact hcount
  · have hsame : (if c = 10 ∧ s.prompt.cmdlen > 0 then s.prompt.cmdline.text :: s.submitted
        else s.submitted) = s.submitted := if_neg fun hc => h10 hc.1
    rw [hsame]
    by_cases hup : c = Keyboard.keyUp
    · subst hup
      simp only [key_up]
      split
      · exact ⟨(s.prompt.recallRow_line _).2, hcount,
          show -1 ≤ s.prompt.historyPos + 1 by omega⟩
      · exact ⟨h.cmdlen, hcount, hpos⟩
    · by_cases hdown : c = Keyboard.keyDown
      · subst hdown
        simp only [key_down]
        split
        · split
          · exact ⟨(s.prompt.recallRow_line _).2, hcount,
              show -1 ≤ s.prompt.historyPos - 1 by omega⟩
          · exact ⟨(length_text_cut_zero _).symm, hcount,
              show -1 ≤ s.prompt.historyPos - 1 by omega⟩
        · exact ⟨h.cmdlen, hcount, hpos⟩
      · obtain ⟨_, hcount', hpos', hlen'⟩ := key_other s.prompt h10 hup hdown
        exact ⟨hlen' h.cmdlen, hcount'.trans hcount, by rw [hpos']; exact hpos⟩

/-- A command keeps the rows exactly if every row that is moved finds a NUL at its end. -/
theorem rows_submit_iff {s : Typing} (hranged : s.Ranged) (h : s.Faithful) :
    (∀ k, k < s.prompt.submit.historyCount →
        (s.prompt.cmdline.text :: s.submitted)[k]? = some (s.prompt.submit.history k).text) ↔
      ∀ k, k + 1 < rowsAfter s.prompt →
        (s.prompt.history (k + 1)).get (s.prompt.history k).text.length = 0 := by
  rw [submit_count _ hranged.count_le]
  have hmoved : ∀ k, k + 1 < rowsAfter s.prompt →
      (s.submitted[k]? = some (s.prompt.submit.history (k + 1)).text ↔
        (s.prompt.history (k + 1)).get (s.prompt.history k).text.length = 0) := by
    intro k hk
    simp only [rowsAfter] at hk
    rw [h.rows k (by omega), s.prompt.submit_history_succ (by omega), Option.some.injEq, eq_comm,
      Line.text_copyOver_iff]
  constructor
  · exact fun hrows k hk => (hmoved k hk).mp (hrows (k + 1) hk)
  · intro hclean k hk
    cases k with
    | zero =>
        rw [List.getElem?_cons_zero, s.prompt.submit_history_zero hranged.cmdlen]
    | succ k => exact (hmoved k hk).mpr (hclean k hk)

/-- A recall is faithful exactly if the line has a NUL where the row ends. -/
theorem line_recallRow_iff (p : Prompt) (pos : Int) :
    ((p.recallRow pos).cmdline.text = (p.history pos.toNat).text ∧
        (p.recallRow pos).cmdlen = (p.history pos.toNat).text.length) ↔
      p.cmdline.get (p.history pos.toNat).text.length = 0 := by
  obtain ⟨htext, hlen⟩ := p.recallRow_line pos
  rw [hlen, htext, ← Line.text_copyOver_iff]
  exact ⟨fun h => h.1, fun h => ⟨h, by rw [h]⟩⟩

/-- A state whose history did not change is faithful exactly if its line is. -/
theorem faithful_iff_line {s : Typing} (h : s.Faithful) (p : Prompt) (recalled : Bool)
    (hhist : p.history = s.prompt.history) (hcount : p.historyCount = s.prompt.historyCount) :
    Faithful ⟨p, s.submitted, recalled⟩ ↔ (recalled = true → 0 ≤ p.historyPos →
      p.cmdline.text = (s.prompt.history p.historyPos.toNat).text ∧
        p.cmdlen = (s.prompt.history p.historyPos.toNat).text.length) := by
  rw [← hhist]
  refine ⟨fun ht => ht.line, fun hline => ⟨fun k hk => ?_, hline⟩⟩
  have hk : k < s.prompt.historyCount := hcount ▸ hk
  show s.submitted[k]? = some (p.history k).text
  rw [hhist]
  exact h.rows k hk

/-- One key keeps history and line faithful exactly if it is clean. -/
theorem faithful_step_iff {s s' : Typing} {c : UInt8} (hranged : s.Ranged) (h : s.Faithful)
    (hstep : s.step c = .ok s') : s'.Faithful ↔ s.Clean c := by
  obtain rfl := Except.ok.inj hstep
  have hcmdlen := hranged.cmdlen
  unfold Clean
  by_cases h10 : c = 10
  · subst h10
    have hnot : decide ((10 : UInt8) = Keyboard.keyUp ∨ (10 : UInt8) = Keyboard.keyDown) =
        false := by decide
    rw [if_pos rfl, hnot]
    by_cases hlen : s.prompt.cmdlen > 0
    · simp only [key_enter, hlen, and_self, if_true, true_imp_iff, ← rows_submit_iff hranged h]
      exact ⟨fun ht => ht.rows, fun hrows => ⟨hrows, fun hrec => nomatch hrec⟩⟩
    · simp only [key_enter, hlen, and_false, if_false, false_imp_iff, iff_true]
      exact ⟨h.rows, fun hrec => nomatch hrec⟩
  · rw [if_neg h10, show (if c = 10 ∧ s.prompt.cmdlen > 0 then s.prompt.cmdline.text :: s.submitted
      else s.submitted) = s.submitted from if_neg fun hc => h10 hc.1]
    by_cases hup : c = Keyboard.keyUp
    · subst hup
      rw [if_pos rfl, key_up]
      by_cases hmove : s.prompt.historyPos < s.prompt.historyCount - 1
      · have hpos := hranged.pos
        have hnext : 0 ≤ s.prompt.historyPos + 1 := by omega
        rw [if_pos hmove, if_pos hmove, faithful_iff_line h (s.prompt.recallRow _) _ rfl rfl,
          ← line_recallRow_iff]
        exact ⟨fun hline => hline (by decide) hnext, fun hline _ _ => hline⟩
      · rw [if_neg hmove, if_neg hmove, faithful_iff_line h s.prompt _ rfl rfl]
        refine ⟨fun hline hpos => (hline (by decide) hpos).1,
          fun htext _ hpos => ⟨htext hpos, ?_⟩⟩
        rw [hcmdlen, htext hpos]
    · rw [if_neg hup]
      by_cases hdown : c = Keyboard.keyDown
      · subst hdown
        rw [if_pos rfl, key_down]
        by_cases hpos : s.prompt.historyPos ≥ 0
        · by_cases hmove : s.prompt.historyPos - 1 ≥ 0
          · rw [if_pos hpos, if_pos hmove, faithful_iff_line h (s.prompt.recallRow _) _ rfl rfl,
              ← line_recallRow_iff]
            exact ⟨fun hline _ => hline (by decide) hmove, fun hline _ _ => hline hmove⟩
          · rw [if_pos hpos, if_neg hmove, faithful_iff_line h s.prompt.leaveHistory _ rfl rfl]
            exact ⟨fun _ hmove' => absurd hmove' hmove, fun _ _ hmove' => absurd hmove' hmove⟩
        · rw [if_neg hpos, faithful_iff_line h s.prompt _ rfl rfl]
          have hnext : ¬ 0 ≤ s.prompt.historyPos - 1 := by omega
          exact ⟨fun _ hpos' => absurd hpos' hnext, fun _ _ hpos' => absurd hpos' hpos⟩
      · obtain ⟨hhist, hcount, _, _⟩ := key_other s.prompt h10 hup hdown
        rw [if_neg hdown, faithful_iff_line h _ _ hhist hcount]
        refine ⟨fun _ => trivial, fun _ hrec => ?_⟩
        simp only [hup, hdown, or_self, decide_false, Bool.false_eq_true] at hrec

theorem ranged_boot : boot.Ranged :=
  ⟨by rw [show boot.prompt.cmdline = .blank from rfl, Line.text_blank]; rfl, rfl, Int.le_refl _⟩

theorem faithful_boot : boot.Faithful :=
  ⟨fun _ hk => absurd hk (Nat.not_lt_zero _), fun hrec => nomatch hrec⟩

/-- In every sequence of keys, the history and the recalled lines are faithful throughout
exactly if every copy that was made ended where its destination had its NUL. -/
theorem faithful_iff_clean (keys : List UInt8) :
    Along step Faithful boot keys ↔ Guarded step Clean boot keys :=
  along_iff_guarded (J := Ranged) (fun _ _ _ => ranged_step)
    (fun _ _ _ => faithful_step_iff) ranged_boot faithful_boot

/-- The commands "abc", "x" and "y" leave "xbc" in row 1. -/
theorem not_faithful_short_after_long :
    ∃ s, run step boot [97, 98, 99, 10, 120, 10, 121, 10] = .ok s ∧
      s.submitted = [[121], [120], [97, 98, 99]] ∧ s.prompt.historyCount = 3 ∧
      (s.prompt.history 1).text = [120, 98, 99] := by
  refine ⟨_, rfl, ?_, ?_, ?_⟩ <;> decide +kernel

end Typing

end FalastinOS.Shell
