/-
  Gui/Terminal.lean --- the terminal window: what `term_io_render` puts on the screen.

  The window manager calls `term_draw` after every key the terminal gets, and in every full
  repaint.  It draws the whole grid of `term_io.c` anew, a block of 600 by 480 pixels
  whatever the size of the window, with the cursor over it.

  Beside the console runs a record of all characters that went to the grid.
  `terminal_shown` is the invariant of all sessions: the block shows the last 30 rows of the
  record, broken after 75 characters, and the cursor behind its last character; nothing that
  was there before is seen, and no other pixel changes.
-/
import FalastinOS.Gui.Grid
import FalastinOS.Gui.Pixels

set_option autoImplicit false

namespace FalastinOS.Gui

open FalastinOS.Foundation

/-- `term_io_render(x, y)`. -/
def termIoRender (g : Geometry) (f : Font) (fb : Framebuffer) (x y : Int) (t : TermIo) :
    Framebuffer :=
  let fb := g.fillRect fb x y (75 * 8) (30 * 16) 0x000000
  let fb := (List.range 30 ×ˢ List.range 75).foldl (fun fb cell =>
    let c := t.output cell.1 cell.2
    if c ≠ 0 then
      g.fontDrawChar f fb (x + (cell.2 * 8 : Nat)) (y + (cell.1 * 16 : Nat)) c 0x00FF00 0x000000
    else fb) fb
  g.fontDrawChar f fb (x + (t.col * 8 : Nat)) (y + (t.row * 16 : Nat)) 95 0x00FF00 0x000000

/-- The colour of a point of a block of characters.  A row of them has 16 rows of pixels, also
when the font has fewer, and a NUL is not drawn. -/
def cellColor (f : Font) (cell : Nat → Nat → UInt8) (dx dy : Nat) : UInt32 :=
  let c := cell (dy / 16) (dx / 8)
  if c ≠ 0 ∧ dy % 16 < f.charH ∧ f.ink c (dy % 16) (dx % 8) = true then 0x00FF00 else 0x000000

/-! ## The record -/

/-- What a key puts on the grid; `printed` is what the command printed. -/
def Console.puts (s : Console) (c : UInt8) (printed : List UInt8) : List UInt8 :=
  if !s.active then []
  else if c = 10 then
    if 0 < s.cmdlen ∧ s.command = text "exit" then [10]
    else 10 :: ((if 0 < s.cmdlen then printed else []) ++ text "> ")
  else if c = 8 then if 0 < s.cmdlen then [8] else []
  else if 32 ≤ c ∧ c ≤ 126 then if s.cmdlen < 255 then [c] else []
  else []

/-- The console, and everything that went to the grid since the terminal was started. -/
structure Recorded where
  console : Console
  output : List UInt8

/-- A key with what the command prints, or the terminal's icon. -/
inductive TerminalEvent where
  | key (c : UInt8) (printed : List UInt8)
  | start

namespace Recorded

/-- What `terminal_run` prints. -/
def greeting : List UInt8 := text "FalastinOS Terminal\n" ++ text "Type 'exit' to close\n\n> "

/-- `terminal_run()`. -/
def start (s : Console) : Recorded := ⟨s.terminalRun, greeting⟩

def step (s : Recorded) : TerminalEvent → Except Empty Recorded
  | .key c printed => .ok ⟨s.console.termHandleKey c printed, s.output ++ s.console.puts c printed⟩
  | .start => .ok (start s.console)

/-- The record in rows. -/
def page (s : Recorded) : Layout := Layout.empty.print s.output

/-- The colour of a point of the terminal's block: that of the cursor, or of a character of the
last 30 rows. -/
def colorAt (s : Recorded) (f : Font) (dx dy : Nat) : UInt32 :=
  cellColor f (fun r k =>
    if r = min s.page.above.length 29 ∧ k = s.page.current.length then 95
    else (s.page.lastRows.getD r []).getD k 0) dx dy

/-- Wherever the window is and whatever was drawn before, drawing it shows the page. -/
def Shown (g : Geometry) (f : Font) (s : Recorded) : Prop :=
  ∀ (fb : Framebuffer) (x y : Int), Geometry.Near x 600 → Geometry.Near y 480 → ∀ p : g.Pixel,
    g.view (termIoRender g f fb x y s.console.io) p =
      if Geometry.InBlock x y 600 480 p then s.colorAt f (p.1.val - x).toNat (p.2.val - y).toNat
      else g.view fb p

end Recorded

/-! ## Drawing the grid -/

section Drawing

variable {g : Geometry} {f : Font} {x y : Int}

/-- The glyph of a cell. -/
def cellLayer (g : Geometry) (f : Font) (x y : Int) (output : Nat → Nat → UInt8)
    (cell : Nat × Nat) : Layer g.Pixel UInt32 :=
  if output cell.1 cell.2 ≠ 0 then
    g.glyphLayer f (x + (cell.2 * 8 : Nat)) (y + (cell.1 * 16 : Nat)) (output cell.1 cell.2)
      0x00FF00 0x000000
  else fun _ => none

/-- A glyph is in its own cell. -/
theorem glyphLayer_of_cell (hf : f.charH ≤ 16) (c : UInt8) (row col : Nat) {p : g.Pixel}
    {dx dy : Nat} (hdx : p.1.val = x + dx) (hdy : p.2.val = y + dy) :
    g.glyphLayer f (x + (col * 8 : Nat)) (y + (row * 16 : Nat)) c 0x00FF00 0x000000 p =
      if dy / 16 = row ∧ dx / 8 = col ∧ dy % 16 < f.charH then
        some (if f.ink c (dy % 16) (dx % 8) then 0x00FF00 else 0x000000)
      else none := by
  rw [Geometry.glyphLayer]
  by_cases hin : dy / 16 = row ∧ dx / 8 = col ∧ dy % 16 < f.charH
  · have hrow : (p.2.val - (y + (row * 16 : Nat))).toNat = dy % 16 := by omega
    have hcol : (p.1.val - (x + (col * 8 : Nat))).toNat = dx % 8 := by omega
    rw [if_pos hin, if_pos, hrow, hcol]
    rw [Geometry.InBlock]
    omega
  · rw [if_neg hin, if_neg]
    rw [Geometry.InBlock]
    omega

/-- The characters of the grid are drawn one layer over the other. -/
theorem view_cells (hg : g.Contiguous) (hf : f.charH ≤ 16) (hx : Geometry.Near x 600)
    (hy : Geometry.Near y 480) (output : Nat → Nat → UInt8) (fb : Framebuffer) :
    g.view ((List.range 30 ×ˢ List.range 75).foldl (fun fb cell =>
        let c := output cell.1 cell.2
        if c ≠ 0 then
          g.fontDrawChar f fb (x + (cell.2 * 8 : Nat)) (y + (cell.1 * 16 : Nat)) c 0x00FF00
            0x000000
        else fb) fb) =
      paint ((List.range 30 ×ˢ List.range 75).map (cellLayer g f x y output)) (g.view fb) := by
  refine view_foldl (fun fb cell hcell => ?_) fb
  have hrow := List.mem_range.mp (List.mem_product.mp hcell).1
  have hcol := List.mem_range.mp (List.mem_product.mp hcell).2
  dsimp only
  rw [cellLayer]
  split
  · exact Geometry.view_fontDrawChar hg f fb _ _ _ (by omega) (by omega)
  · rfl

/-- A cell of the grid is in the block. -/
theorem glyphLayer_outside (hf : f.charH ≤ 16) (c : UInt8) {row col : Nat} (hrow : row < 30)
    (hcol : col < 75) {p : g.Pixel} (hout : ¬ Geometry.InBlock x y 600 480 p) :
    g.glyphLayer f (x + (col * 8 : Nat)) (y + (row * 16 : Nat)) c 0x00FF00 0x000000 p = none := by
  rw [Geometry.glyphLayer, if_neg]
  rw [Geometry.InBlock] at hout ⊢
  omega

/-- The characters over a picture, in the block and outside. -/
theorem paint_cells (hf : f.charH ≤ 16) (output : Nat → Nat → UInt8) (picture : g.Pixel → UInt32)
    {p : g.Pixel} (hin : Geometry.InBlock x y 600 480 p) {dx dy : Nat} (hdx : p.1.val = x + dx)
    (hdy : p.2.val = y + dy) :
    paint ((List.range 30 ×ˢ List.range 75).map (cellLayer g f x y output)) picture p =
      if output (dy / 16) (dx / 8) ≠ 0 ∧ dy % 16 < f.charH then
        if f.ink (output (dy / 16) (dx / 8)) (dy % 16) (dx % 8) then 0x00FF00 else 0x000000
      else picture p := by
  obtain ⟨⟨_, hright⟩, _, hbottom⟩ := hin
  have hmem : (dy / 16, dx / 8) ∈ List.range 30 ×ˢ List.range 75 := by
    rw [List.mem_product, List.mem_range, List.mem_range]
    omega
  have hown : cellLayer g f x y output (dy / 16, dx / 8) p =
      if output (dy / 16) (dx / 8) ≠ 0 ∧ dy % 16 < f.charH then
        some (if f.ink (output (dy / 16) (dx / 8)) (dy % 16) (dx % 8) then 0x00FF00 else 0x000000)
      else none := by
    rw [cellLayer]
    by_cases hchar : output (dy / 16) (dx / 8) ≠ 0
    · rw [if_pos hchar, glyphLayer_of_cell hf _ _ _ hdx hdy]
      simp only [hchar, true_and, ne_eq, not_false_eq_true]
    · rw [if_neg hchar, if_neg fun h => hchar h.1]
  have hother : ∀ cell ∈ List.range 30 ×ˢ List.range 75, cell ≠ (dy / 16, dx / 8) →
      cellLayer g f x y output cell p = none := by
    intro cell _ hne
    rw [cellLayer]
    split
    · rw [glyphLayer_of_cell hf _ _ _ hdx hdy, if_neg]
      rintro ⟨hrow, hcol, _⟩
      exact hne (Prod.ext hrow.symm hcol.symm)
    · rfl
  rw [paint_of_unique hmem hother, hown]
  split
  · rfl
  · rfl

theorem paint_cells_outside (hf : f.charH ≤ 16) (output : Nat → Nat → UInt8)
    (picture : g.Pixel → UInt32) {p : g.Pixel} (hout : ¬ Geometry.InBlock x y 600 480 p) :
    paint ((List.range 30 ×ˢ List.range 75).map (cellLayer g f x y output)) picture p =
      picture p := by
  refine paint_of_uncovered fun l hl => ?_
  obtain ⟨cell, hcell, rfl⟩ := List.mem_map.mp hl
  rw [cellLayer]
  split
  · exact glyphLayer_outside hf _ (List.mem_range.mp (List.mem_product.mp hcell).1)
      (List.mem_range.mp (List.mem_product.mp hcell).2) hout
  · rfl

/-- What `term_io_render` leaves, for any grid. -/
theorem view_termIoRender (hg : g.Contiguous) (hf : f.charH ≤ 16) (hx : Geometry.Near x 600)
    (hy : Geometry.Near y 480) {t : TermIo} (hrow : t.row < 30) (hcol : t.col < 75)
    (fb : Framebuffer) (p : g.Pixel) :
    g.view (termIoRender g f fb x y t) p =
      if Geometry.InBlock x y 600 480 p then
        cellColor f (fun r k => if r = t.row ∧ k = t.col then 95 else t.output r k)
          (p.1.val - x).toNat (p.2.val - y).toNat
      else g.view fb p := by
  have hfill : g.view (g.fillRect fb x y (75 * 8) (30 * 16) 0x000000) p =
      if Geometry.InBlock x y 600 480 p then 0x000000 else g.view fb p := by
    rw [Geometry.view_fillRect hg fb _ (by omega) (by omega), Layer.over, region]
    by_cases hin : Geometry.InBlock x y 600 480 p
    · rw [if_pos hin]
      exact congrArg (fun l => Option.getD l (g.view fb p)) (if_pos hin)
    · rw [if_neg hin]
      exact congrArg (fun l => Option.getD l (g.view fb p)) (if_neg hin)
  rw [termIoRender, Geometry.view_fontDrawChar hg f _ _ _ _ (by omega) (by omega), Layer.over,
    view_cells hg hf hx hy]
  by_cases hin : Geometry.InBlock x y 600 480 p
  · obtain ⟨dx, hdx⟩ := Int.eq_ofNat_of_zero_le (Int.sub_nonneg_of_le hin.1.1)
    obtain ⟨dy, hdy⟩ := Int.eq_ofNat_of_zero_le (Int.sub_nonneg_of_le hin.2.1)
    have hdx' : (p.1.val : Int) = x + dx := by omega
    have hdy' : (p.2.val : Int) = y + dy := by omega
    rw [if_pos hin] at hfill
    rw [if_pos hin, glyphLayer_of_cell hf 95 t.row t.col hdx' hdy',
      paint_cells hf t.output _ hin hdx' hdy', hfill, hdx, hdy, Int.toNat_natCast,
      Int.toNat_natCast, cellColor]
    by_cases hcursor : dy / 16 = t.row ∧ dx / 8 = t.col
    · have hunderscore : (95 : UInt8) ≠ 0 := by decide
      simp only [hcursor, true_and, and_self, if_true]
      by_cases hglyph : dy % 16 < f.charH
      · simp [hglyph]
      · simp [hglyph]
    · rw [if_neg fun h => hcursor ⟨h.1, h.2.1⟩, Option.getD_none]
      simp only [hcursor, if_false]
      by_cases hchar : t.output (dy / 16) (dx / 8) ≠ 0 ∧ dy % 16 < f.charH
      · rw [if_pos hchar]
        simp only [hchar, true_and, ne_eq, not_false_eq_true]
      · rw [if_neg hchar, if_neg fun h => hchar ⟨h.1, h.2.1⟩]
  · rw [if_neg hin] at hfill
    rw [if_neg hin, glyphLayer_outside hf 95 hrow hcol hin, Option.getD_none,
      paint_cells_outside hf t.output _ hin, hfill]

end Drawing

/-! ## Sessions -/

/-- A key puts its characters on the grid one after the other. -/
theorem io_termHandleKey (s : Console) (c : UInt8) (printed : List UInt8) :
    (s.termHandleKey c printed).io = s.io.print (s.puts c printed) := by
  unfold Console.termHandleKey Console.puts
  split
  · rfl
  · split
    next hc =>
      unfold Console.enter
      dsimp only
      split
      · rfl
      · split
        · rw [← List.cons_append]
          exact (List.foldl_append ..).symm
        · rfl
    next =>
      split
      · split
        · rfl
        · rfl
      · split
        · split
          · rfl
          · rfl
        · rfl

namespace Recorded

/-- The grid shows the end of the record. -/
structure Kept (s : Recorded) : Prop where
  pictures : Pictures s.console.io s.page
  row : s.console.io.row < 30

theorem io_start (s : Console) : (start s).console.io = s.io.init.print greeting := by
  have hprint : ∀ a b : List UInt8, s.io.init.print (a ++ b) = (s.io.init.print a).print b :=
    fun _ _ => List.foldl_append ..
  rw [greeting, hprint, start, Console.terminalRun]

theorem kept_start (s : Console) : (start s).Kept := by
  obtain ⟨hpictures, hrow⟩ := pictures_print greeting (pictures_init s.io) (Nat.succ_pos 29)
  constructor
  · rw [io_start]
    exact hpictures
  · rw [io_start]
    exact hrow

theorem kept_step {s s' : Recorded} (h : s.Kept) {e : TerminalEvent} (hstep : s.step e = .ok s') :
    s'.Kept := by
  cases e with
  | start =>
      obtain rfl := Except.ok.inj hstep
      exact kept_start _
  | key c printed =>
      obtain rfl := Except.ok.inj hstep
      obtain ⟨hpictures, hrow⟩ := pictures_print (s.console.puts c printed) h.pictures h.row
      have hio := io_termHandleKey s.console c printed
      have hpage : page ⟨s.console.termHandleKey c printed,
          s.output ++ s.console.puts c printed⟩ = s.page.print (s.console.puts c printed) :=
        List.foldl_append ..
      constructor
      · rw [hpage]
        exact hio ▸ hpictures
      · exact hio ▸ hrow

/-- A grid that shows the end of the record is drawn so. -/
theorem shown_of_kept {g : Geometry} {f : Font} (hg : g.Contiguous) (hf : f.charH ≤ 16)
    {s : Recorded} (h : s.Kept) : s.Shown g f := by
  intro fb x y hx hy p
  have hshows := h.pictures.showsTail h.row
  have hline := h.pictures.row
  have htight := h.pictures.tight
  have hlow := h.row
  have hrow : s.console.io.row = min s.page.above.length 29 := by omega
  rw [view_termIoRender hg hf hx hy h.row hshows.col fb p]
  split
  next hin =>
    obtain ⟨⟨_, hright⟩, _, hbottom⟩ := hin
    rw [colorAt, cellColor, cellColor, hrow, h.pictures.col,
      hshows.shown ((p.2.val - y).toNat / 16) ((p.1.val - x).toNat / 8) (by omega) (by omega)]
  next => rfl

/-- The terminal is started, keys are pressed and commands print: whenever the window is drawn,
wherever it is, each pixel of its block is that of the last 30 rows of everything that was typed
and printed since the terminal was started last. -/
theorem terminal_shown {g : Geometry} {f : Font} (hg : g.Contiguous) (hf : f.charH ≤ 16)
    (s : Console) (events : List TerminalEvent) : Along step (Shown g f) (start s) events :=
  (along_of_invariant (fun _ _ _ h => kept_step h) (kept_start s) events).mono
    fun _ h => shown_of_kept hg hf h

/-- A command prints a line, on a screen of 640 by 480 pixels. -/
theorem terminal_shown_640 :
    Along step (Shown (graphicsInit 2560 640 480) ⟨16, fun _ => 0⟩) (start Echo.firstPrompt)
      [.key 108 [], .key 115 [], .key 10 (text "  [FILE] notes.txt (5 bytes)\n")] :=
  terminal_shown ⟨by decide, by decide, by decide, by decide⟩ (by decide) Echo.firstPrompt _

end Recorded

end FalastinOS.Gui
