/-
  Gui/Console.lean --- the terminal: `term.c` and the grid of `term_io.c`.

  A key goes two ways.  `term_handle_key` keeps the command line in `cmdline`, and it
  passes the key on to `term_io_putchar`, which keeps a grid of 30 rows of 75
  characters and a cursor.  At the right margin the cursor wraps to the next row, and
  below the last row the grid scrolls.

  Positions are counted from the first row ever shown, so that scrolling does not
  change them: `topLine` counts the rows that have scrolled off, a number the code
  does not keep.  `putchar_printable` and `putchar_backspace` say what the two kinds
  of key do to the text before the cursor.

  A backspace at the left margin does nothing to the grid while `cmdline` loses a
  character.  `echoes_iff_off_margin` says that this is the only way in which the two
  get out of step.
-/
import FalastinOS.Foundation.CString
import FalastinOS.Foundation.Execution
import FalastinOS.Foundation.Memory

set_option autoImplicit false

namespace FalastinOS.Gui

open FalastinOS.Foundation

/-! ## `term_io.c` -/

/-- The variables of `term_io.c`. -/
structure TermIo where
  /-- `term_output`, by row and column -/
  output : Nat → Nat → UInt8
  /-- `term_cursor_row` -/
  row : Nat
  /-- `term_cursor_col` -/
  col : Nat
  /-- `term_active` of this file -/
  active : Bool
  /-- how many rows have scrolled off -/
  topLine : Nat

namespace TermIo

/-- `term_io_init()`. -/
def init (t : TermIo) : TermIo :=
  { t with output := fun _ _ => 0, row := 0, col := 0, active := true, topLine := 0 }

/-- `term_output[row][col] = c`. -/
def store (t : TermIo) (row col : Nat) (c : UInt8) : TermIo :=
  { t with output := fun r k => if r = row ∧ k = col then c else t.output r k }

/-- One round of the loop that scrolls. -/
def scrollRow (t : TermIo) : TermIo :=
  { t with
    output := fun r k => if r < 29 then t.output (r + 1) k else if r = 29 then 0 else t.output r k
    row := t.row - 1
    topLine := t.topLine + 1 }

/-- `while (term_cursor_row >= 30)`, for at most `n` rounds. -/
def scrollLoop : Nat → TermIo → TermIo
  | 0, t => t
  | n + 1, t => if 30 ≤ t.row then scrollLoop n t.scrollRow else t

/-- The character is put at the cursor, or moves it. -/
def place (t : TermIo) (c : UInt8) : TermIo :=
  if c = 10 then { t with row := t.row + 1, col := 0 }
  else if c = 8 then
    if 0 < t.col then { t.store t.row (t.col - 1) 0 with col := t.col - 1 } else t
  else if 32 ≤ c ∧ c ≤ 126 then
    if 75 ≤ t.col + 1 then { t.store t.row t.col c with col := 0, row := t.row + 1 }
    else { t.store t.row t.col c with col := t.col + 1 }
  else t

/-- `term_io_putchar(c)`.  Each round of the loop takes a row off the cursor's. -/
def putchar (t : TermIo) (c : UInt8) : TermIo :=
  if !t.active then t else scrollLoop (t.place c).row (t.place c)

/-- `term_io_print(str)`, as far as the grid is concerned. -/
def print (t : TermIo) (str : List UInt8) : TermIo := str.foldl putchar t

end TermIo

/-! ## `term.c` -/

/-- The variables of `term.c`, with the grid. -/
structure Console where
  /-- `cmdline` -/
  cmdline : Mem
  /-- `cmdlen` -/
  cmdlen : Nat
  /-- `term_active` of this file -/
  active : Bool
  io : TermIo

namespace Console

/-- `cmdline[0..cmdlen)`. -/
def line (s : Console) : List UInt8 := (List.range s.cmdlen).map s.cmdline

/-- The line as `strcmp_term` reads it: up to its first NUL. -/
def command (s : Console) : List UInt8 :=
  ((List.range 256).map (s.cmdline.writeByte s.cmdlen 0)).takeWhile (· ≠ 0)

/-- The branch for Enter.  `printed` is what the command printed; the output of a command
goes to `term_io_putchar` while it runs. -/
def enter (s : Console) (printed : List UInt8) : Console :=
  let io := s.io.putchar 10
  if 0 < s.cmdlen ∧ s.command = text "exit" then
    { s with cmdline := s.cmdline.writeByte s.cmdlen 0, active := false, io := io }
  else
    let io := if 0 < s.cmdlen then io.print printed else io
    { s with
      cmdline := (s.cmdline.writeByte s.cmdlen 0).writeByte 0 0
      cmdlen := 0
      io := io.print (text "> ") }

/-- `term_handle_key(c)`. -/
def termHandleKey (s : Console) (c : UInt8) (printed : List UInt8) : Console :=
  if !s.active then s
  else if c = 10 then s.enter printed
  else if c = 8 then
    if 0 < s.cmdlen then
      { s with
        cmdlen := s.cmdlen - 1
        cmdline := s.cmdline.writeByte (s.cmdlen - 1) 0
        io := s.io.putchar 8 }
    else s
  else if 32 ≤ c ∧ c ≤ 126 then
    if s.cmdlen < 255 then
      { s with
        cmdline := (s.cmdline.writeByte s.cmdlen c).writeByte (s.cmdlen + 1) 0
        cmdlen := s.cmdlen + 1
        io := s.io.putchar c }
    else s
  else s

/-- `terminal_run()`, as far as these variables are concerned. -/
def terminalRun (s : Console) : Console :=
  { cmdline := s.cmdline.writeByte 0 0
    cmdlen := 0
    active := true
    io := (s.io.init.print (text "FalastinOS Terminal\n")).print
      (text "Type 'exit' to close\n\n> ") }

end Console

/-! ## The text before the cursor -/

theorem dropLast_range (n : Nat) : (List.range n).dropLast = List.range (n - 1) := by
  cases n with
  | zero => rfl
  | succ n => rw [List.range_succ, List.dropLast_concat, Nat.add_sub_cancel]

namespace TermIo

/-- The cursor is on the grid. -/
structure InGrid (t : TermIo) : Prop where
  row : t.row < 30
  col : t.col < 75

/-- The position of the cursor, counted from the first row ever shown. -/
def pos (t : TermIo) : Nat := (t.topLine + t.row) * 75 + t.col

/-- The character at a position whose row is on the grid. -/
def charAt (t : TermIo) (i : Nat) : UInt8 := t.output (i / 75 - t.topLine) (i % 75)

/-- The characters from a position up to the cursor, row by row. -/
def textFrom (t : TermIo) (start : Nat) : List UInt8 :=
  (List.range (t.pos - start)).map fun k => t.charAt (start + k)

variable {t : TermIo}

theorem length_textFrom (t : TermIo) (start : Nat) : (t.textFrom start).length = t.pos - start := by
  rw [textFrom, List.length_map, List.length_range]

theorem scrollLoop_of_lt (n : Nat) (h : t.row < 30) : scrollLoop n t = t := by
  cases n with
  | zero => rfl
  | succ n => rw [scrollLoop, if_neg (by omega)]

/-- The cursor is one row below the grid at most, so one round is enough. -/
theorem scrollLoop_of_eq (h : t.row = 30) : scrollLoop t.row t = t.scrollRow := by
  rw [h, scrollLoop, if_pos (by omega)]
  exact scrollLoop_of_lt 29 (by rw [scrollRow]; simp only; omega)

theorem putchar_of_lt {c : UInt8} (hactive : t.active = true) (h : (t.place c).row < 30) :
    t.putchar c = t.place c := by
  rw [putchar, hactive]
  exact scrollLoop_of_lt _ h

theorem putchar_of_eq {c : UInt8} (hactive : t.active = true) (h : (t.place c).row = 30) :
    t.putchar c = (t.place c).scrollRow := by
  rw [putchar, hactive]
  exact scrollLoop_of_eq h

/-- Storing at the cursor changes the character at its position. -/
theorem output_store {i : Nat} (h : t.InGrid) (c : UInt8) (hi : t.topLine * 75 ≤ i) :
    (t.store t.row t.col c).output (i / 75 - t.topLine) (i % 75) =
      if i = t.pos then c else t.charAt i := by
  have hcol := h.col
  simp only [store, charAt, pos]
  congr 1
  exact propext ⟨fun hcell => by omega, fun heq => by omega⟩

/-- Scrolling moves no character that stays on the grid. -/
theorem charAt_scrollRow {i : Nat} (hlow : (t.topLine + 1) * 75 ≤ i)
    (hhigh : i / 75 < t.topLine + 30) : t.scrollRow.charAt i = t.charAt i := by
  simp only [charAt, scrollRow]
  rw [if_pos (by omega)]
  congr 1
  omega

/-- What a printable character does: it stands at the old position of the cursor, which is
one further now. -/
structure Typed (t t' : TermIo) (c : UInt8) : Prop where
  inGrid : t'.InGrid
  active : t'.active = true
  top : t.topLine ≤ t'.topLine
  pos : t'.pos = t.pos + 1
  text : ∀ i, t'.topLine * 75 ≤ i → i ≤ t.pos → t'.charAt i = if i = t.pos then c else t.charAt i

/-- A printable character is neither a newline nor a backspace. -/
theorem ne_of_printable {c : UInt8} (hc : 32 ≤ c ∧ c ≤ 126) : c ≠ 10 ∧ c ≠ 8 := by
  constructor
  · rintro rfl
    exact absurd hc.1 (by decide)
  · rintro rfl
    exact absurd hc.1 (by decide)

theorem putchar_printable {c : UInt8} (hactive : t.active = true) (h : t.InGrid)
    (hc : 32 ≤ c ∧ c ≤ 126) : Typed t (t.putchar c) c := by
  obtain ⟨hrow, hcol⟩ := h
  obtain ⟨hnl, hbs⟩ := ne_of_printable hc
  have hplace : t.place c = if 75 ≤ t.col + 1 then
      { t.store t.row t.col c with col := 0, row := t.row + 1 }
      else { t.store t.row t.col c with col := t.col + 1 } := by
    rw [place, if_neg hnl, if_neg hbs, if_pos hc]
  by_cases hmargin : 75 ≤ t.col + 1
  · rw [if_pos hmargin] at hplace
    by_cases hlast : t.row = 29
    · -- The last cell of the grid: a row scrolls off.
      rw [putchar_of_eq hactive (by rw [hplace]; simp only; omega), hplace]
      refine ⟨⟨by simp only [scrollRow]; omega, by simp only [scrollRow]; omega⟩, hactive,
        Nat.le_succ _, by simp only [scrollRow, pos, store]; omega, fun i hlow hhigh => ?_⟩
      simp only [pos] at hhigh
      rw [charAt_scrollRow hlow (by simp only [store]; omega)]
      exact output_store ⟨hrow, hcol⟩ c (by simp only [scrollRow, store] at hlow; omega)
    · rw [putchar_of_lt hactive (by rw [hplace]; simp only; omega), hplace]
      exact ⟨⟨by simp only; omega, by simp only; omega⟩, hactive, Nat.le_refl _,
        by simp only [pos, store]; omega, fun i hlow _ => output_store ⟨hrow, hcol⟩ c hlow⟩
  · rw [if_neg hmargin] at hplace
    rw [putchar_of_lt hactive (by rw [hplace]; exact hrow), hplace]
    exact ⟨⟨hrow, by simp only; omega⟩, hactive, Nat.le_refl _, by simp only [pos, store]; omega,
      fun i hlow _ => output_store ⟨hrow, hcol⟩ c hlow⟩

/-- What a backspace does that is not at the left margin. -/
structure Erased (t t' : TermIo) : Prop where
  inGrid : t'.InGrid
  active : t'.active = true
  top : t'.topLine = t.topLine
  pos : t'.pos + 1 = t.pos
  text : ∀ i, t'.topLine * 75 ≤ i → i < t'.pos → t'.charAt i = t.charAt i

theorem putchar_backspace (hactive : t.active = true) (h : t.InGrid) (hcol : 0 < t.col) :
    Erased t (t.putchar 8) := by
  obtain ⟨hrow, hlt⟩ := h
  have hplace : t.place 8 = { t.store t.row (t.col - 1) 0 with col := t.col - 1 } := by
    rw [place, if_neg (by decide), if_pos rfl, if_pos hcol]
  rw [putchar_of_lt hactive (by rw [hplace]; exact hrow), hplace]
  refine ⟨⟨hrow, by simp only; omega⟩, hactive, rfl, by simp only [pos, store]; omega,
    fun i hlow hhigh => ?_⟩
  simp only [charAt, store, pos] at hlow hhigh ⊢
  rw [if_neg (by omega)]

/-- At the left margin a backspace does nothing. -/
theorem putchar_backspace_margin (hactive : t.active = true) (h : t.InGrid) (hcol : t.col = 0) :
    t.putchar 8 = t := by
  have hplace : t.place 8 = t := by
    rw [place, if_neg (by decide), if_pos rfl, if_neg (by omega)]
  rw [putchar_of_lt hactive (by rw [hplace]; exact h.row), hplace]

/-- No character takes the cursor off the grid. -/
theorem inGrid_putchar (h : t.InGrid) (c : UInt8) : (t.putchar c).InGrid := by
  obtain ⟨hrow, hcol⟩ := h
  rw [putchar]
  split
  · exact ⟨hrow, hcol⟩
  · have hplace : (t.place c).row ≤ 30 ∧ (t.place c).col < 75 := by
      unfold place
      split
      · exact ⟨hrow, by simp only; omega⟩
      · split
        · split
          · exact ⟨Nat.le_of_lt hrow, by simp only; omega⟩
          · exact ⟨Nat.le_of_lt hrow, hcol⟩
        · split
          · split
            · exact ⟨hrow, by simp only; omega⟩
            · exact ⟨Nat.le_of_lt hrow, by simp only; omega⟩
          · exact ⟨Nat.le_of_lt hrow, hcol⟩
    rcases Nat.lt_or_eq_of_le hplace.1 with hlt | heq
    · rw [scrollLoop_of_lt _ hlt]
      exact ⟨hlt, hplace.2⟩
    · rw [scrollLoop_of_eq heq]
      exact ⟨by simp only [scrollRow]; omega, hplace.2⟩

theorem active_scrollLoop (n : Nat) : ∀ t : TermIo, (scrollLoop n t).active = t.active := by
  induction n with
  | zero => exact fun _ => rfl
  | succ n ih =>
      intro t
      rw [scrollLoop]
      split
      · exact ih t.scrollRow
      · rfl

theorem active_putchar (t : TermIo) (c : UInt8) : (t.putchar c).active = t.active := by
  rw [putchar]
  split
  · rfl
  · rw [active_scrollLoop]
    unfold place
    split
    · rfl
    · split
      · split <;> rfl
      · split
        · split <;> rfl
        · rfl

/-- Printing keeps the cursor on the grid and the grid active. -/
theorem print_keeps (str : List UInt8) :
    ∀ {t : TermIo}, t.active = true → t.InGrid →
      (t.print str).active = true ∧ (t.print str).InGrid := by
  induction str with
  | nil => exact fun hactive hgrid => ⟨hactive, hgrid⟩
  | cons c rest ih =>
      intro t hactive hgrid
      exact ih ((active_putchar t c).trans hactive) (inGrid_putchar hgrid c)

/-- A character that is typed is appended to the text. -/
theorem Typed.textFrom {t' : TermIo} {c : UInt8} {start : Nat} (h : Typed t t' c)
    (hstart : start ≤ t.pos) (hon : t'.topLine * 75 ≤ start) :
    t'.textFrom start = t.textFrom start ++ [c] := by
  have hlength : t'.pos - start = t.pos - start + 1 := by
    rw [h.pos]
    omega
  rw [TermIo.textFrom, TermIo.textFrom, hlength, List.range_succ, List.map_append,
    List.map_singleton]
  congr 1
  · apply List.map_congr_left
    intro k hk
    have hlt := List.mem_range.mp hk
    rw [h.text _ (by omega) (by omega), if_neg (by omega)]
  · rw [h.text _ (by omega) (by omega), if_pos (by omega)]

/-- A character that is erased is taken off the text. -/
theorem Erased.textFrom {t' : TermIo} {start : Nat} (h : Erased t t')
    (hon : t.topLine * 75 ≤ start) : t'.textFrom start = (t.textFrom start).dropLast := by
  have hpos := h.pos
  have htop := h.top
  rw [TermIo.textFrom, TermIo.textFrom, ← List.map_dropLast, dropLast_range,
    show t.pos - start - 1 = t'.pos - start by omega]
  apply List.map_congr_left
  intro k hk
  have hlt := List.mem_range.mp hk
  exact h.text _ (by omega) (by omega)

end TermIo

/-! ## Typing after a prompt -/

/-- A key that `term_handle_key` puts on the line or that takes one off. -/
inductive TypedKey where
  | char (c : UInt8) (printable : 32 ≤ c ∧ c ≤ 126)
  | backspace

/-- The byte that stands for the key. -/
def TypedKey.byte : TypedKey → UInt8
  | .char c _ => c
  | .backspace => 8

/-- The terminal, and the position just after the prompt. -/
structure Echo where
  console : Console
  start : Nat

/-- Why typing is no longer followed. -/
inductive OffGrid where
  /-- the row of the prompt has scrolled off -/
  | promptRow

namespace Echo

/-- A prompt was printed, and nothing is typed yet. -/
def begin (s : Console) : Echo := ⟨s, s.io.pos⟩

/-- A key is typed. -/
def step (e : Echo) (k : TypedKey) : Except OffGrid Echo :=
  let s := e.console.termHandleKey k.byte []
  if s.io.topLine ≤ e.start / 75 then .ok ⟨s, e.start⟩ else .error .promptRow

/-- The text from just after the prompt up to the cursor. -/
def shown (e : Echo) : List UInt8 := e.console.io.textFrom e.start

/-- What is shown is the command line. -/
def Echoes (e : Echo) : Prop := e.shown = e.console.line

/-- A backspace that takes a character off the line finds the cursor away from the left
margin. -/
def OffMargin (e : Echo) (k : TypedKey) : Prop :=
  k.byte = 8 → 0 < e.console.cmdlen → 0 < e.console.io.col

/-- What holds of the terminal while keys are typed. -/
structure Sound (e : Echo) : Prop where
  active : e.console.active = true
  ioActive : e.console.io.active = true
  inGrid : e.console.io.InGrid
  onGrid : e.console.io.topLine * 75 ≤ e.start
  reached : e.start ≤ e.console.io.pos

end Echo

/-- The terminal after a prompt: both parts are active, the line is empty, and the cursor
is anywhere on the grid. -/
structure Console.Ready (s : Console) : Prop where
  active : s.active = true
  ioActive : s.io.active = true
  inGrid : s.io.InGrid
  empty : s.cmdlen = 0

/-- `terminal_run` leaves a prompt. -/
theorem ready_terminalRun (s : Console) : s.terminalRun.Ready := by
  have hinit : s.io.init.InGrid := ⟨(by decide : 0 < 30), (by decide : 0 < 75)⟩
  have hactive : s.io.init.active = true := rfl
  have hfirst := TermIo.print_keeps (text "FalastinOS Terminal\n") hactive hinit
  have hsecond := TermIo.print_keeps (text "Type 'exit' to close\n\n> ") hfirst.1 hfirst.2
  rw [Console.terminalRun]
  generalize (s.io.init.print (text "FalastinOS Terminal\n")).print
    (text "Type 'exit' to close\n\n> ") = io at hsecond ⊢
  exact ⟨rfl, hsecond.1, hsecond.2, rfl⟩

/-- So does Enter, unless the terminal is told to exit. -/
theorem ready_enter {s : Console} (hactive : s.active = true) (hio : s.io.active = true)
    (hgrid : s.io.InGrid) (printed : List UInt8)
    (hexit : ¬ (0 < s.cmdlen ∧ s.command = text "exit")) :
    (s.termHandleKey 10 printed).Ready := by
  have hline := (TermIo.active_putchar s.io 10).trans hio
  have hgrid' := TermIo.inGrid_putchar hgrid 10
  have hrun : s.termHandleKey 10 printed = s.enter printed := by
    rw [Console.termHandleKey, if_neg (by simp [hactive]), if_pos rfl]
  rw [hrun, Console.enter]
  simp only [if_neg hexit]
  split
  · have hprinted := TermIo.print_keeps printed hline hgrid'
    have hprompt := TermIo.print_keeps (text "> ") hprinted.1 hprinted.2
    exact ⟨hactive, hprompt.1, hprompt.2, rfl⟩
  · have hprompt := TermIo.print_keeps (text "> ") hline hgrid'
    exact ⟨hactive, hprompt.1, hprompt.2, rfl⟩

namespace Echo

variable {e e' : Echo}

theorem length_line (s : Console) : s.line.length = s.cmdlen := by
  rw [Console.line, List.length_map, List.length_range]

/-- The last character of the line is in a byte of its own. -/
theorem line_append (s : Console) (c : UInt8) :
    (List.range (s.cmdlen + 1)).map
      ((s.cmdline.writeByte s.cmdlen c).writeByte (s.cmdlen + 1) 0) = s.line ++ [c] := by
  rw [List.range_succ, List.map_append, List.map_singleton, Console.line,
    Mem.writeByte_of_ne _ _ (by omega), Mem.writeByte_self]
  congr 1
  apply List.map_congr_left
  intro k hk
  have hlt := List.mem_range.mp hk
  rw [Mem.writeByte_of_ne _ _ (by omega), Mem.writeByte_of_ne _ _ (by omega)]

theorem line_dropLast (s : Console) :
    (List.range (s.cmdlen - 1)).map (s.cmdline.writeByte (s.cmdlen - 1) 0) = s.line.dropLast := by
  rw [Console.line, ← List.map_dropLast, dropLast_range]
  apply List.map_congr_left
  intro k hk
  have hlt := List.mem_range.mp hk
  exact Mem.writeByte_of_ne _ _ (by omega)

/-! ## One key -/

/-- A step that succeeds. -/
theorem step_ok {k : TypedKey} (h : e.step k = .ok e') :
    e' = ⟨e.console.termHandleKey k.byte [], e.start⟩ ∧ e'.console.io.topLine * 75 ≤ e.start := by
  rw [step] at h
  split at h
  · rename_i htop
    obtain rfl := Except.ok.inj h
    exact ⟨rfl, by simp only; omega⟩
  · exact absurd h (by simp)

theorem termHandleKey_char {s : Console} {c : UInt8} (hactive : s.active = true)
    (hc : 32 ≤ c ∧ c ≤ 126) :
    s.termHandleKey c [] =
      if s.cmdlen < 255 then
        { s with
          cmdline := (s.cmdline.writeByte s.cmdlen c).writeByte (s.cmdlen + 1) 0
          cmdlen := s.cmdlen + 1
          io := s.io.putchar c }
      else s := by
  obtain ⟨hnl, hbs⟩ := TermIo.ne_of_printable hc
  rw [Console.termHandleKey, if_neg (by simp [hactive]), if_neg hnl, if_neg hbs, if_pos hc]

theorem termHandleKey_backspace {s : Console} (hactive : s.active = true) :
    s.termHandleKey 8 [] =
      if 0 < s.cmdlen then
        { s with
          cmdlen := s.cmdlen - 1
          cmdline := s.cmdline.writeByte (s.cmdlen - 1) 0
          io := s.io.putchar 8 }
      else s := by
  rw [Console.termHandleKey, if_neg (by simp [hactive]), if_neg (by decide), if_pos rfl]

/-- While what is shown is the line, the cursor is as far behind the prompt as the line is
long. -/
theorem Echoes.length (h : e.Echoes) : e.console.io.pos - e.start = e.console.cmdlen := by
  rw [← TermIo.length_textFrom, ← length_line]
  exact congrArg List.length h

/-- A printable character goes to both the line and the grid, unless the line is full. -/
theorem keep_char {c : UInt8} (hc : 32 ≤ c ∧ c ≤ 126) (h : e.Sound) (hechoes : e.Echoes)
    (hstep : e.step (.char c hc) = .ok e') : e'.Sound ∧ e'.Echoes := by
  obtain ⟨rfl, hon⟩ := step_ok hstep
  simp only [TypedKey.byte, termHandleKey_char h.active hc] at hon ⊢
  by_cases hroom : e.console.cmdlen < 255
  · have htyped := TermIo.putchar_printable h.ioActive h.inGrid hc
    have hreached := h.reached
    have hpos := htyped.pos
    simp only [if_pos hroom] at hon ⊢
    refine ⟨⟨h.active, htyped.active, htyped.inGrid, hon, by simp only; omega⟩, ?_⟩
    rw [Echoes, shown, htyped.textFrom hreached hon]
    exact (congrArg (· ++ [c]) hechoes).trans (line_append e.console c).symm
  · simp only [if_neg hroom]
    exact ⟨h, hechoes⟩

/-- A backspace away from the margin takes the last character off both. -/
theorem keep_backspace (h : e.Sound) (hechoes : e.Echoes) (hoff : e.OffMargin .backspace)
    (hstep : e.step .backspace = .ok e') : e'.Sound ∧ e'.Echoes := by
  obtain ⟨rfl, hon⟩ := step_ok hstep
  simp only [TypedKey.byte, termHandleKey_backspace h.active] at hon ⊢
  by_cases hpending : 0 < e.console.cmdlen
  · have herased := TermIo.putchar_backspace h.ioActive h.inGrid (hoff rfl hpending)
    have hlength := hechoes.length
    have hpos := herased.pos
    simp only [if_pos hpending] at hon ⊢
    refine ⟨⟨h.active, herased.active, herased.inGrid, hon, by simp only; omega⟩, ?_⟩
    rw [Echoes, shown, herased.textFrom h.onGrid]
    exact (congrArg List.dropLast hechoes).trans (line_dropLast e.console).symm
  · simp only [if_neg hpending]
    exact ⟨h, hechoes⟩

/-- A backspace at the margin takes a character off the line only. -/
theorem offMargin_of_echoes {k : TypedKey} (h : e.Sound) (hechoes : e.Echoes)
    (hstep : e.step k = .ok e') (hechoes' : e'.Echoes) : e.OffMargin k := by
  intro hk hpending
  by_contra hcol
  have hmargin := TermIo.putchar_backspace_margin h.ioActive h.inGrid (by omega)
  obtain ⟨rfl, _⟩ := step_ok hstep
  rw [hk, termHandleKey_backspace h.active, if_pos hpending, hmargin] at hechoes'
  have hbefore := hechoes.length
  have hafter : e.console.io.pos - e.start = e.console.cmdlen - 1 := hechoes'.length
  omega

theorem sound_begin {s : Console} (h : s.Ready) : (begin s).Sound := by
  refine ⟨h.active, h.ioActive, h.inGrid, ?_, Nat.le_refl _⟩
  simp only [begin, TermIo.pos]
  omega

theorem echoes_begin {s : Console} (h : s.Ready) : (begin s).Echoes := by
  rw [Echoes, begin, shown, TermIo.textFrom, Nat.sub_self, Console.line, h.empty]
  rfl

/-- For every sequence of characters and backspaces after a prompt, what is shown equals the
command line throughout exactly if no backspace takes a character off the line while the
cursor is at the left margin. -/
theorem echoes_iff_off_margin {s : Console} (h : s.Ready) (keys : List TypedKey) :
    Along step Echoes (begin s) keys ↔ Guarded step OffMargin (begin s) keys := by
  refine along_iff_of_invariant (I := fun e : Echo => e.Sound ∧ e.Echoes) (fun _ he => he.2) ?_ ?_
    ⟨sound_begin h, echoes_begin h⟩
  · intro e k e' he hoff hstep
    cases k with
    | char c hc => exact keep_char hc he.1 he.2 hstep
    | backspace => exact keep_backspace he.1 he.2 hoff hstep
  · intro e k e' he hstep hechoes'
    exact offMargin_of_echoes he.1 he.2 hstep hechoes'

/-- The terminal right after its start: the prompt ends in column 2 of row 3. -/
def firstPrompt : Console :=
  Console.terminalRun ⟨fun _ => 0, 0, false, ⟨fun _ _ => 0, 0, 0, false, 0⟩⟩

/-- The letter a. -/
def letterA : TypedKey := .char 97 (by decide)

theorem echoes_off_margin_firstPrompt :
    Along step Echoes (begin firstPrompt) [letterA, .backspace] := by
  refine (echoes_iff_off_margin (ready_terminalRun _) _).mpr ?_
  intro e he
  obtain ⟨rfl, _⟩ := step_ok he
  refine ⟨fun hbyte => absurd hbyte (by decide), fun e' _ => ⟨fun _ _ => ?_, trivial⟩⟩
  decide +kernel

/-- The line reaches the right margin, and the last character is taken back. -/
def fullRow : List TypedKey := List.replicate 73 letterA ++ [.backspace]

theorem run_fullRow :
    ((run step (begin firstPrompt) fullRow).toOption.map fun e =>
      (e.shown.length, e.console.line.length)) = some (73, 72) := by
  decide +kernel

theorem not_echoes_after_wrap : ¬ Along step Echoes (begin firstPrompt) fullRow := by
  intro halong
  obtain ⟨e, hrun, hend⟩ := exists_run_of_map run_fullRow
  have hlengths := congrArg List.length (halong.last hrun)
  obtain ⟨hshown, hline⟩ := Prod.mk.inj hend
  rw [hshown, hline] at hlengths
  exact absurd hlengths (by decide)

end Echo

end FalastinOS.Gui
