/-
  Editor/Display.lean --- what the editor puts on the screen.

  `draw_editor` draws the text area and the status line after every key; the messages of
  `save_file` stay in the row below them.  Each character is a glyph in a cell of the
  screen, so a page of characters says what every pixel is: `Shows`.  Drawing a string puts
  a layer of characters over the page.

  Beside the session runs a record of the last message.  `editor_shown` is the invariant of
  all sessions: the page is read off the lines, the file name and the counters, and nothing
  that was drawn before is left.
-/
import FalastinOS.Editor.Session
import FalastinOS.Gui.Screen
import FalastinOS.Libc.Itoa

set_option autoImplicit false

namespace FalastinOS.Editor

open FalastinOS.Foundation FalastinOS.DiskFs
open FalastinOS.Gui (Geometry Font Framebuffer colorFg colorBg)
open FalastinOS.Gui.TextScreen (cellX cellY)

/-! ## Drawing -/

section Code

variable (g : Geometry) (f : Font) (buf : Mem)

/-- `screen_put_char_at(row, col, c, color)`. -/
def screenPutCharAt (fb : Framebuffer) (row col : Nat) (c : UInt8) : Framebuffer :=
  g.fontDrawChar f fb (cellX col) (cellY f row) c colorFg colorBg

/-- `clear_screen_line(row, color)`. -/
def clearScreenLine (fb : Framebuffer) (row : Nat) : Framebuffer :=
  (List.range 80).foldl (fun fb col => screenPutCharAt g f fb row col 32) fb

/-- `draw_string_at(row, col, text, color)`. -/
def drawStringAt (fb : Framebuffer) (row col : Nat) : List UInt8 → Framebuffer
  | [] => fb
  | c :: rest =>
      if col < 80 then drawStringAt (screenPutCharAt g f fb row col c) row (col + 1) rest else fb

/-- `draw_number_at(row, col, value, color)`, with `buf` as the array `buf[16]`. -/
def drawNumberAt (fb : Framebuffer) (row col : Nat) (value : Int) : Framebuffer :=
  drawStringAt g f fb row col
    (CharArray.toCStr fun k : Fin 16 => Libc.itoa (Int32.ofInt value) buf 10 k.val)

/-- `draw_status()`. -/
def drawStatus (s : Session) (fb : Framebuffer) : Framebuffer :=
  let fb := clearScreenLine g f fb 22
  let fb := drawStringAt g f fb 22 0 (text "EDIT ")
  let fb := drawStringAt g f fb 22 5 s.filename.bytes
  let fb :=
    if s.buffer.dirty then drawStringAt g f fb 22 (5 + s.filename.length) (text " *") else fb
  let fb := drawStringAt g f fb 22 32 (text "Ln ")
  let fb := drawNumberAt g f buf fb 22 35 (s.buffer.cursorRow + 1)
  let fb := drawStringAt g f fb 22 42 (text "Col ")
  let fb := drawNumberAt g f buf fb 22 46 (s.buffer.cursorCol + 1)
  drawStringAt g f fb 22 58 (text "Ctrl+S save Ctrl+Q quit")

/-- `draw_message(msg)`. -/
def drawMessage (fb : Framebuffer) (msg : List UInt8) : Framebuffer :=
  drawStringAt g f (clearScreenLine g f fb 23) 23 0 msg

/-- The loop of `draw_editor` over the rows of the screen, with the characters that it reads
in them. -/
def drawRowsAt (fb : Framebuffer) (row : Nat) : List (List UInt8) → Framebuffer
  | [] => fb
  | shown :: rest =>
      drawRowsAt (drawStringAt g f (clearScreenLine g f fb row) row 0 shown) (row + 1) rest

/-- `update_cursor(row, col)`: the two bytes given to the hardware. -/
def updateCursor (row col : Int) : UInt16 := UInt16.ofInt (row * 80 + col)

end Code

/-- The editor with the screen it draws on. -/
structure Display where
  session : Session
  fb : Framebuffer
  /-- where the hardware cursor is -/
  position : UInt16

namespace Display

variable (g : Geometry) (f : Font) (buf : Mem)

/-- `draw_editor()`. -/
def draw (d : Display) : Except Fault Display := do
  let s ← d.session.draw
  return {
    session := s
    fb := drawStatus g f buf s (drawRowsAt g f d.fb 0 s.screen)
    position := updateCursor (s.buffer.cursorRow - s.buffer.topLine) s.buffer.cursorCol }

/-- The chain of `if`s in the loop of `editor_open`; `save_file` draws a message. -/
def handleKey (d : Display) (c : UInt8) : Except Fault Display :=
  if c = keySave then do
    let (saved, b, m) ← saveFile d.session.buffer d.session.machine d.session.filename
    return { d with
      session := { d.session with buffer := b, machine := m }
      fb := drawMessage g f d.fb (if saved then text "Saved." else text "Save failed.") }
  else do
    let s ← d.session.handleKey c
    return { d with session := s }

/-- One turn of the loop. -/
def step (d : Display) (c : UInt8) : Except Fault Display :=
  if d.session.running then do
    let d ← d.handleKey g f c
    d.draw g f buf
  else .ok d

/-- The first message. -/
def openingText : List UInt8 := text "Editing. Ctrl+S saves, Ctrl+Q quits."

/-- `editor_open(name)` up to its loop. -/
def start (stale : Buffer) (m : Machine) (name : CStr) (fb : Framebuffer) :
    Except Fault Display := do
  let filename := Shell.editorName name
  let b ← openFile stale m filename
  draw g f buf ⟨⟨b, m, filename, [], true⟩,
    drawMessage g f (g.fillScreen fb colorBg) openingText, 0⟩

end Display

/-! ## Pages -/

/-- The characters in the cells of the screen, by row and column. -/
abbrev Page : Type := Nat × Nat → Option UInt8

/-- A string in a row. -/
def textLayer (row col : Nat) (s : List UInt8) : Layer (Nat × Nat) (Option UInt8) := fun p =>
  if p.1 = row ∧ col ≤ p.2 ∧ p.2 < 80 then s[p.2 - col]?.map some else none

/-- Every pixel is that of its cell. -/
def Shows (g : Geometry) (f : Font) (fb : Framebuffer) (page : Page) : Prop :=
  ∀ x y, x < g.width.toNat → y < g.height.toNat →
    g.pixel fb x y = f.shade (page (y / f.charH, x / 8)) (y % f.charH) (x % 8)

section Shows

variable {g : Geometry} {f : Font} {fb : Framebuffer} {page : Page}

theorem textLayer_of_row_ne {row col : Nat} {s : List UInt8} {p : Nat × Nat}
    (h : p.1 ≠ row ∨ 80 ≤ p.2) : textLayer row col s p = none := by
  rw [textLayer, if_neg]
  omega

/-- A character changes one cell. -/
theorem Shows.putCharAt (hg : g.Contiguous) (hf : 0 < f.charH) (h : Shows g f fb page)
    {row col : Nat} (hrow : row < 2 ^ 16) (hcol : col < 2 ^ 16) (c : UInt8) :
    Shows g f (screenPutCharAt g f fb row col c) (Function.update page (row, col) (some c)) := by
  intro x y hx hy
  have hsmall : f.charH < 256 := f.charsize.toNat_lt
  have hblock : row * f.charH + f.charH ≤ 2 ^ 16 * 256 :=
    calc row * f.charH + f.charH = (row + 1) * f.charH := (Nat.succ_mul _ _).symm
      _ ≤ 2 ^ 16 * 256 := Nat.mul_le_mul hrow (Nat.le_of_lt hsmall)
  have hdiv := Nat.div_add_mod y f.charH
  have hmod := Nat.mod_lt y hf
  rw [screenPutCharAt, Geometry.fontDrawChar, cellX, cellY, ← Nat.cast_mul,
    Geometry.pixel_paint hg fb _ hx hy (by omega) (by omega)]
  by_cases hcell : y / f.charH = row ∧ x / 8 = col
  · obtain ⟨rfl, rfl⟩ := hcell
    rw [Nat.mul_comm] at hdiv
    rw [Function.update_self, if_pos (by omega), Font.shade]
    have hink : f.ink c (y - ((y / f.charH * f.charH : Nat) : Int)).toNat
        (x - ((x / 8 : Nat) : Int) * 8).toNat = f.ink c (y % f.charH) (x % 8) := by
      congr 1 <;> omega
    rw [hink]
  · rw [Function.update_of_ne (fun heq => hcell (Prod.mk.inj heq)), if_neg, h x y hx hy]
    rintro ⟨hxin, hylow, hyhigh⟩
    refine hcell ⟨Nat.div_eq_of_lt_le ?_ ?_, by omega⟩
    · omega
    · rw [Nat.succ_mul]
      omega

/-- A string is a layer over the page. -/
theorem Shows.drawStringAt (hg : g.Contiguous) (hf : 0 < f.charH) {row : Nat}
    (hrow : row < 2 ^ 16) (s : List UInt8) : ∀ {col : Nat} {fb : Framebuffer} {page : Page},
      Shows g f fb page →
      Shows g f (drawStringAt g f fb row col s) ((textLayer row col s).over page) := by
  induction s with
  | nil =>
      intro col fb page h
      have hnone : (textLayer row col []).over page = page := by
        funext p
        rw [Layer.over, textLayer, List.getElem?_nil, Option.map_none, ite_self, Option.getD_none]
      rw [hnone]
      exact h
  | cons c rest ih =>
      intro col fb page h
      rw [Editor.drawStringAt]
      split
      next hcol =>
        have hover : (textLayer row col (c :: rest)).over page =
            (textLayer row (col + 1) rest).over (Function.update page (row, col) (some c)) := by
          funext q
          obtain ⟨r, k⟩ := q
          rw [Layer.over, Layer.over, textLayer, textLayer]
          by_cases hhere : r = row ∧ k = col
          · obtain ⟨rfl, rfl⟩ := hhere
            rw [if_pos ⟨rfl, Nat.le_refl _, hcol⟩, if_neg (by omega), Nat.sub_self,
              Function.update_self]
            rfl
          · rw [Function.update_of_ne (fun heq => hhere (Prod.mk.inj heq))]
            by_cases hin : r = row ∧ col ≤ k ∧ k < 80
            · have hnext : k - col = k - (col + 1) + 1 := by omega
              rw [if_pos hin, if_pos (by omega), hnext, List.getElem?_cons_succ]
            · rw [if_neg hin, if_neg (by omega)]
        rw [hover]
        exact ih (h.putCharAt hg hf hrow (by omega) c)
      next hcol =>
        have hnone : (textLayer row col (c :: rest)).over page = page := by
          funext p
          rw [Layer.over, textLayer, if_neg (by omega), Option.getD_none]
        rw [hnone]
        exact h

/-- A row of blanks is one, too. -/
theorem Shows.clearScreenLine (hg : g.Contiguous) (hf : 0 < f.charH) {row : Nat}
    (hrow : row < 2 ^ 16) (h : Shows g f fb page) :
    Shows g f (clearScreenLine g f fb row)
      ((textLayer row 0 (List.replicate 80 32)).over page) := by
  have hpart : ∀ n ≤ 80, Shows g f
      ((List.range n).foldl (fun fb col => screenPutCharAt g f fb row col 32) fb)
      ((textLayer row 0 (List.replicate n 32)).over page) := by
    intro n
    induction n with
    | zero => exact fun _ => Shows.drawStringAt hg hf hrow [] h
    | succ n ih =>
        intro hn
        have hover : (textLayer row 0 (List.replicate (n + 1) 32)).over page =
            Function.update ((textLayer row 0 (List.replicate n 32)).over page) (row, n)
              (some 32) := by
          funext ⟨r, k⟩
          by_cases hhere : r = row ∧ k = n
          · obtain ⟨rfl, rfl⟩ := hhere
            rw [Function.update_self, Layer.over, textLayer, if_pos ⟨rfl, Nat.zero_le _, hn⟩]
            simp
          · rw [Function.update_of_ne (fun heq => hhere (Prod.mk.inj heq)), Layer.over, Layer.over,
              textLayer, textLayer]
            split
            next hin =>
              rw [List.getElem?_replicate, List.getElem?_replicate]
              have hsame : k - 0 < n + 1 ↔ k - 0 < n := by omega
              simp only [hsame]
            next => rfl
        rw [hover, List.range_succ, List.foldl_append]
        exact (ih (by omega)).putCharAt hg hf hrow (by omega) 32
  exact hpart 80 (Nat.le_refl _)

/-- A row drawn anew. -/
def rowsLayer (row : Nat) (shown : List (List UInt8)) : Layer (Nat × Nat) (Option UInt8) := fun p =>
  if row ≤ p.1 ∧ p.1 < row + shown.length ∧ p.2 < 80 then
    some (some ((shown.getD (p.1 - row) []).getD p.2 32))
  else none

/-- A string over a row of blanks. -/
theorem rowsLayer_singleton (row : Nat) (s : List UInt8) (page : Page) :
    (rowsLayer row [s]).over page =
      (textLayer row 0 s).over ((textLayer row 0 (List.replicate 80 32)).over page) := by
  funext p
  rw [Layer.over, Layer.over, Layer.over, rowsLayer, textLayer, textLayer, List.length_singleton]
  by_cases hin : p.1 = row ∧ p.2 < 80
  · obtain ⟨hrow, hcol⟩ := hin
    rw [if_pos (by omega), if_pos (by omega), if_pos (by omega), hrow, Nat.sub_self, Nat.sub_zero,
      List.getElem?_replicate, if_pos hcol, List.getD_cons_zero, List.getD_eq_getElem?_getD]
    cases s[p.2]? <;> rfl
  · rw [if_neg (by omega), if_neg (by omega), if_neg (by omega)]
    rfl

theorem rowsLayer_cons (row : Nat) (s : List UInt8) (rest : List (List UInt8)) (page : Page) :
    (rowsLayer row (s :: rest)).over page =
      (rowsLayer (row + 1) rest).over ((rowsLayer row [s]).over page) := by
  funext p
  rw [Layer.over, Layer.over, Layer.over, rowsLayer, rowsLayer, rowsLayer, List.length_cons,
    List.length_singleton]
  by_cases hcol : p.2 < 80
  · rcases Nat.lt_trichotomy p.1 row with hlt | heq | hgt
    · rw [if_neg (by omega), if_neg (by omega), if_neg (by omega)]
      rfl
    · rw [if_pos (by omega), if_neg (by omega), if_pos (by omega), heq, Nat.sub_self]
      rfl
    · have hnext : p.1 - row = p.1 - (row + 1) + 1 := by omega
      have hsame : (row ≤ p.1 ∧ p.1 < row + (rest.length + 1) ∧ p.2 < 80) ↔
          row + 1 ≤ p.1 ∧ p.1 < row + 1 + rest.length ∧ p.2 < 80 := by omega
      simp only [hsame]
      rw [hnext, List.getD_cons_succ, if_neg (by omega : ¬ (row ≤ p.1 ∧ p.1 < row + 1 ∧ p.2 < 80))]
      rfl
  · rw [if_neg (by omega), if_neg (by omega), if_neg (by omega)]
    rfl

theorem Shows.drawRow (hg : g.Contiguous) (hf : 0 < f.charH) {row : Nat} (hrow : row < 2 ^ 16)
    (s : List UInt8) (h : Shows g f fb page) :
    Shows g f (Editor.drawStringAt g f (Editor.clearScreenLine g f fb row) row 0 s)
      ((rowsLayer row [s]).over page) := by
  rw [rowsLayer_singleton]
  exact (h.clearScreenLine hg hf hrow).drawStringAt hg hf hrow s

/-- The loop of `draw_editor`. -/
theorem Shows.drawRowsAt (hg : g.Contiguous) (hf : 0 < f.charH) (screen : List (List UInt8)) :
    ∀ {row : Nat} {fb : Framebuffer} {page : Page}, row + screen.length ≤ 2 ^ 16 →
      Shows g f fb page →
      Shows g f (drawRowsAt g f fb row screen) ((rowsLayer row screen).over page) := by
  induction screen with
  | nil =>
      intro row fb page _ h
      have hnone : (rowsLayer row []).over page = page := by
        funext p
        rw [Layer.over, rowsLayer, List.length_nil, if_neg (by omega), Option.getD_none]
      rw [hnone]
      exact h
  | cons s rest ih =>
      intro row fb page hroom h
      rw [List.length_cons] at hroom
      rw [rowsLayer_cons]
      exact ih (by omega) (h.drawRow hg hf (by omega) s)

end Shows

/-! ## The page of a session -/

/-- The strings of the status line, of which a later one hides an earlier one. -/
def statusTexts (s : Session) : List (Nat × List UInt8) :=
  [(0, text "EDIT "), (5, s.filename.bytes)] ++
    (if s.buffer.dirty then [(5 + s.filename.length, text " *")] else []) ++
    [(32, text "Ln "), (35, Libc.signedNumeral (s.buffer.cursorRow + 1)), (42, text "Col "),
      (46, Libc.signedNumeral (s.buffer.cursorCol + 1)), (58, text "Ctrl+S save Ctrl+Q quit")]

/-- The rows of the text area and of the message, and a blank status line. -/
def sheet (screen : List (List UInt8)) (message : List UInt8) : Page := fun p =>
  if 80 ≤ p.2 then none
  else if p.1 < 22 then some ((screen.getD p.1 []).getD p.2 32)
  else if p.1 = 22 then some 32
  else if p.1 = 23 then some (message.getD p.2 32)
  else none

/-- All that the editor shows. -/
def page (s : Session) (message : List UInt8) : Page :=
  paint ((statusTexts s).map fun t => textLayer 22 t.1 t.2) (sheet s.screen message)

/-- The part of the page that `draw_editor` does not draw. -/
def Margin (message : List UInt8) (pg : Page) : Prop :=
  ∀ p : Nat × Nat, 22 < p.1 ∨ 80 ≤ p.2 → pg p = sheet [] message p

section Page

variable {g : Geometry} {f : Font} {fb : Framebuffer} {pg : Page} {s : Session}
variable {message : List UInt8}

theorem sheet_margin (screen : List (List UInt8)) (message : List UInt8) :
    Margin message (sheet screen message) := by
  rintro p (hrow | hcol)
  · have habove : ¬ p.1 < 22 := by omega
    rw [sheet, sheet, if_neg habove, if_neg habove]
  · rw [sheet, sheet, if_pos hcol, if_pos hcol]

theorem page_margin (s : Session) (message : List UInt8) : Margin message (page s message) := by
  intro p hp
  rw [page, paint_of_uncovered, sheet_margin s.screen message p hp]
  intro l hl
  obtain ⟨t, _, rfl⟩ := List.mem_map.mp hl
  exact textLayer_of_row_ne (by omega)

theorem Margin.outside (h : Margin message pg) (p : Nat × Nat) (hp : 23 < p.1 ∨ 80 ≤ p.2) :
    pg p = none := by
  rw [h p (by omega), sheet]
  by_cases hcol : 80 ≤ p.2
  · rw [if_pos hcol]
  · rw [if_neg hcol, if_neg (by omega), if_neg (by omega), if_neg (by omega)]

/-- Drawing a message leaves the margin with it. -/
theorem margin_drawMessage (h : ∀ p : Nat × Nat, 23 < p.1 ∨ 80 ≤ p.2 → pg p = none)
    (message : List UInt8) : Margin message ((rowsLayer 23 [message]).over pg) := by
  intro p hp
  rw [Layer.over, rowsLayer, List.length_singleton, sheet]
  by_cases hrow : p.1 = 23 ∧ p.2 < 80
  · rw [if_pos (by omega), if_neg (by omega), if_neg (by omega), if_neg (by omega), if_pos hrow.1,
      hrow.1]
    rfl
  · have hout : 23 < p.1 ∨ 80 ≤ p.2 := by omega
    rw [if_neg (by omega), Option.getD_none, h p hout]
    by_cases hcol : 80 ≤ p.2
    · rw [if_pos hcol]
    · rw [if_neg hcol, if_neg (by omega), if_neg (by omega), if_neg (by omega)]

/-- Rows and a blank status line over a page with a margin. -/
theorem Margin.sheet (h : Margin message pg) {screen : List (List UInt8)}
    (hlen : screen.length = 22) :
    (rowsLayer 22 [[]]).over ((rowsLayer 0 screen).over pg) = sheet screen message := by
  funext p
  rw [Layer.over, Layer.over, rowsLayer, rowsLayer, List.length_singleton, hlen, Editor.sheet,
    Nat.sub_zero]
  by_cases hcol : 80 ≤ p.2
  · rw [if_neg (by omega), if_neg (by omega), if_pos hcol, Option.getD_none, Option.getD_none,
      h p (.inr hcol), Editor.sheet, if_pos hcol]
  rw [if_neg hcol]
  rcases Nat.lt_trichotomy p.1 22 with hlt | heq | hgt
  · rw [if_neg (by omega), if_pos (by omega), if_pos hlt]
    rfl
  · rw [if_pos (by omega), if_neg (by omega), if_pos heq, heq]
    rfl
  · have habove : ¬ p.1 < 22 := by omega
    rw [if_neg (by omega), if_neg (by omega), Option.getD_none, Option.getD_none, h p (.inl hgt),
      Editor.sheet, if_neg hcol, if_neg habove, if_neg habove]

/-- The counters are short numbers. -/
theorem drawNumberAt_eq (g : Geometry) (f : Font) (buf : Mem) (fb : Framebuffer) (row col : Nat)
    {v : Int} (hlow : 0 ≤ v) (hhigh : v < 200) :
    drawNumberAt g f buf fb row col v =
      drawStringAt g f fb row col (Libc.signedNumeral v) := by
  have hvalue : (Int32.ofInt v).toInt = v := Int32.toInt_ofInt_of_le (by omega) (by omega)
  have hne : Int32.ofInt v ≠ Int32.minValue := by
    intro heq
    rw [heq] at hvalue
    have hmin : Int32.minValue.toInt = -2147483648 := rfl
    omega
  have hstring := Libc.itoa_decimal hne buf
  rw [hvalue] at hstring
  have hshort : (Libc.signedNumeral v).length ≤ 16 := by
    obtain ⟨n, rfl⟩ := Int.eq_ofNat_of_zero_le hlow
    have htable : ∀ n, n < 200 → (Libc.signedNumeral (n : Nat)).length ≤ 16 := by decide +kernel
    exact htable n (by omega)
  rw [drawNumberAt, hstring.toCStr_eq hshort]

theorem Shows.drawStatus (hg : g.Contiguous) (hf : 0 < f.charH) (hinv : EditorInv s.buffer)
    (buf : Mem) (h : Shows g f fb pg) :
    Shows g f (drawStatus g f buf s fb)
      (paint ((statusTexts s).map fun t => textLayer 22 t.1 t.2)
        ((rowsLayer 22 [[]]).over pg)) := by
  have hdraw : ∀ {fb : Framebuffer} {pg : Page} (col : Nat) (t : List UInt8), Shows g f fb pg →
      Shows g f (Editor.drawStringAt g f fb 22 col t) ((textLayer 22 col t).over pg) :=
    fun col t hpg => hpg.drawStringAt hg hf (by decide) t
  have hblank : Shows g f (Editor.clearScreenLine g f fb 22) ((rowsLayer 22 [[]]).over pg) :=
    h.drawRow hg hf (by decide) []
  have hname := hdraw 5 s.filename.bytes (hdraw 0 (text "EDIT ") hblank)
  have hrow := hinv.cursorRow
  have hcol := hinv.cursorCol
  have hcount := hinv.lineCount
  have hlen := hinv.lineLen
  rw [Editor.drawStatus, drawNumberAt_eq g f buf _ _ _ (by omega) (by omega),
    drawNumberAt_eq g f buf _ _ _ (by omega) (by omega), statusTexts]
  cases s.buffer.dirty with
  | false => exact hdraw 58 _ (hdraw 46 _ (hdraw 42 _ (hdraw 35 _ (hdraw 32 _ hname))))
  | true =>
      exact hdraw 58 _ (hdraw 46 _ (hdraw 42 _ (hdraw 35 _ (hdraw 32 _ (hdraw _ _ hname)))))

end Page

/-! ## Sessions -/

namespace Display

variable {g : Geometry} {f : Font} {buf : Mem}

end Display

/-- A session on a screen, and the last message. -/
structure Watched where
  display : Display
  message : List UInt8

namespace Watched

/-- The message after a key. -/
def messageAfter (w : Watched) (c : UInt8) : List UInt8 :=
  let s := w.display.session
  if s.running ∧ c = keySave then
    match saveFile s.buffer s.machine s.filename with
    | .ok (true, _) => text "Saved."
    | .ok (false, _) => text "Save failed."
    | .error _ => w.message
  else w.message

/-- One key. -/
def step (g : Geometry) (f : Font) (buf : Mem) (w : Watched) (c : UInt8) :
    Except Fault Watched := do
  let d ← w.display.step g f buf c
  return ⟨d, w.messageAfter c⟩

/-- What holds after every key. -/
structure Shown (g : Geometry) (f : Font) (w : Watched) : Prop where
  inv : EditorInv w.display.session.buffer
  rows : w.display.session.screen = w.display.session.buffer.screenRows
  visible : w.display.session.buffer.topLine ≤ w.display.session.buffer.cursorRow ∧
    w.display.session.buffer.cursorRow < w.display.session.buffer.topLine + 22
  position : (w.display.position.toNat : Int) =
    (w.display.session.buffer.cursorRow - w.display.session.buffer.topLine) * 80 +
      w.display.session.buffer.cursorCol
  pixels : Shows g f w.display.fb (page w.display.session w.message)

variable {g : Geometry} {f : Font} {buf : Mem}

theorem toNat_updateCursor {row col : Int} (hrow : 0 ≤ row) (hlast : row < 22) (hcol : 0 ≤ col)
    (hend : col ≤ 120) : ((updateCursor row col).toNat : Int) = row * 80 + col := by
  rw [updateCursor, UInt16.ofInt, UInt16.toNat_ofNat']
  omega

/-- `draw_editor` over a page of which only the margin is known. -/
theorem shown_draw (buf : Mem) (hg : g.Contiguous) (hf : 0 < f.charH) {d : Display} {pg : Page}
    {message : List UInt8} (hinv : EditorInv d.session.buffer) (hshows : Shows g f d.fb pg)
    (hmargin : Margin message pg) :
    ∃ d', d.draw g f buf = .ok d' ∧ Shown g f ⟨d', message⟩ := by
  have hinv' := Buffer.ensureCursorVisible_inv hinv
  obtain ⟨htop, hvisible⟩ := Buffer.ensureCursorVisible_spec hinv.cursorRow.1
  have hcol := hinv.cursorCol
  have hlen := hinv.lineLen
  have hrows : d.session.buffer.ensureCursorVisible.screenRows.length = 22 := by
    rw [Buffer.screenRows, List.length_map, List.length_range]
  rw [Display.draw, Session.draw_eq hinv]
  refine ⟨_, rfl, hinv', rfl, hvisible, ?_, ?_⟩
  · exact toNat_updateCursor (Int.sub_nonneg.mpr hvisible.1) (Int.sub_left_lt_of_lt_add hvisible.2)
      hcol.1 (Int.le_trans hcol.2 (by omega))
  · have hdrawn := (hshows.drawRowsAt hg hf _
      (show 0 + d.session.buffer.ensureCursorVisible.screenRows.length ≤ 2 ^ 16 by
        rw [hrows]; decide)).drawStatus hg hf
      (s := { d.session with
        buffer := d.session.buffer.ensureCursorVisible
        screen := d.session.buffer.ensureCursorVisible.screenRows }) hinv' buf
    rw [hmargin.sheet hrows] at hdrawn
    exact hdrawn

/-- A key leaves the buffer in order and the right message in the margin. -/
theorem handleKey_margin (hg : g.Contiguous) (hf : 0 < f.charH) {w : Watched} {c : UInt8}
    {d : Display} (h : Shown g f w) (hrunning : w.display.session.running)
    (hkey : w.display.handleKey g f c = .ok d) :
    EditorInv d.session.buffer ∧ ∃ pg, Shows g f d.fb pg ∧ Margin (w.messageAfter c) pg := by
  have hmargin := page_margin w.display.session w.message
  rw [Display.handleKey] at hkey
  split at hkey
  next hsave =>
    obtain ⟨⟨saved, b, m⟩, hdone, hrest⟩ := exists_of_bind_ok hkey
    obtain rfl := Except.ok.inj hrest
    have hmessage : w.messageAfter c = if saved then text "Saved." else text "Save failed." := by
      rw [messageAfter, if_pos ⟨hrunning, hsave⟩, hdone]
      cases saved <;> rfl
    refine ⟨?_, (rowsLayer 23 [w.messageAfter c]).over (page w.display.session w.message), ?_,
      margin_drawMessage hmargin.outside _⟩
    · rcases saveFile_cases h.inv.represents hdone with ⟨_, rfl, _⟩ | ⟨_, rfl⟩
      · exact ⟨h.inv.lineCount, h.inv.terminated, h.inv.cursorRow, h.inv.cursorCol, h.inv.lineLen⟩
      · exact h.inv
    · rw [hmessage]
      exact h.pixels.drawRow hg hf (by decide) _
  next hsave =>
    obtain ⟨s, hsession, hrest⟩ := exists_of_bind_ok hkey
    obtain rfl := Except.ok.inj hrest
    have hmessage : w.messageAfter c = w.message := if_neg fun hc => hsave hc.2
    refine ⟨?_, page w.display.session w.message, h.pixels, hmessage ▸ hmargin⟩
    rcases Session.handleKey_outcome h.inv c with ⟨next, hnext, heffect⟩ | hfail
    · obtain rfl := Except.ok.inj (hnext.symm.trans hsession)
      exact heffect.inv h.inv
    · exact nomatch hfail.symm.trans hsession

theorem Shown.step (hg : g.Contiguous) (hf : 0 < f.charH) {w w' : Watched} {c : UInt8}
    (h : Shown g f w) (hstep : w.step g f buf c = .ok w') : Shown g f w' := by
  obtain ⟨d, hd, hrest⟩ := exists_of_bind_ok hstep
  obtain rfl := Except.ok.inj hrest
  rw [Display.step] at hd
  split at hd
  next hrunning =>
    obtain ⟨next, hkey, hdraw⟩ := exists_of_bind_ok hd
    obtain ⟨hinv, pg, hshows, hmargin⟩ := handleKey_margin hg hf h hrunning hkey
    obtain ⟨d', hdraw', hshown⟩ := shown_draw buf hg hf hinv hshows hmargin
    obtain rfl := Except.ok.inj (hdraw'.symm.trans hdraw)
    exact hshown
  next hstopped =>
    obtain rfl := Except.ok.inj hd
    have hmessage : w.messageAfter c = w.message := if_neg fun hc => hstopped hc.1
    rw [hmessage]
    exact h

end Watched

end FalastinOS.Editor
