/-
  Gui/Screen.lean --- text on the framebuffer: `screen.c`.

  `put_char` draws glyphs, blanks them and moves whole pixel rows; nothing in memory says
  which characters are on the screen.  `calls_render` says that the pixels nevertheless are
  those of a page: the last lines of everything that was printed, broken at the right
  margin.  While output is redirected, the same characters go to the grid of `term_io.c`,
  and no pixel changes.

  Pixels are addressed through `index`, whose row length is the pitch in `put_pixel` and
  the width in `scroll_up`; `Flat` says that the two are one, and that a whole number of
  text rows fits on the screen.
-/
import FalastinOS.Gui.Grid
import FalastinOS.Gui.Pixels

set_option autoImplicit false

namespace FalastinOS.Gui

open FalastinOS.Foundation

/-- `COLOR_FG`. -/
def colorFg : UInt32 := 0x00FFFFFF

/-- `COLOR_BG`. -/
def colorBg : UInt32 := 0x00001133

namespace Geometry

/-- The loop of `scroll_up`. -/
def copyUp (fb : Framebuffer) (distance : UInt32) (count : Nat) : Framebuffer :=
  (List.range count).foldl
    (fun fb i => Function.update fb (UInt32.ofNat i) (fb (UInt32.ofNat i + distance))) fb

/-- `scroll_up()`. -/
def scrollUp (g : Geometry) (f : Font) (fb : Framebuffer) : Framebuffer :=
  let ch := UInt32.ofNat f.charH
  let fb := copyUp fb (g.width * ch) (g.width * (g.height - ch)).toNat
  g.fillRect fb 0 (g.height - ch).toInt32.toInt g.width.toInt32.toInt f.charH colorBg

end Geometry

/-- The variables of `screen.c`, with the framebuffer and the grid of `term_io.c`. -/
structure TextScreen where
  fb : Framebuffer
  /-- `cur_col` -/
  curCol : Nat
  /-- `cur_row` -/
  curRow : Nat
  /-- `terminal_output_mode` -/
  terminalOutputMode : Bool
  io : TermIo

namespace TextScreen

variable (g : Geometry) (f : Font)

/-- `clear_screen()`. -/
def clearScreen (s : TextScreen) : TextScreen :=
  { s with fb := g.fillScreen s.fb colorBg, curCol := 0, curRow := 0 }

/-- `cell_x(col)`. -/
def cellX (col : Nat) : Int := col * 8

/-- `cell_y(row)`. -/
def cellY (row : Nat) : Int := row * f.charH

/-- The end of `put_char`: the screen scrolls when the cursor is below it. -/
def scrolled (s : TextScreen) : TextScreen :=
  if cellY f s.curRow ≥ g.height.toInt32.toInt then
    { s with fb := g.scrollUp f s.fb, curRow := s.curRow - 1 }
  else s

/-- `put_char(c)`, but for the hardware cursor. -/
def putChar (s : TextScreen) (c : UInt8) : TextScreen :=
  if s.terminalOutputMode then { s with io := s.io.putchar c }
  else if c = 10 then scrolled g f { s with curCol := 0, curRow := s.curRow + 1 }
  else if c = 8 then
    if 0 < s.curCol then
      scrolled g f { s with
        fb := g.fillRect s.fb (cellX (s.curCol - 1)) (cellY f s.curRow) 8 f.charH colorBg
        curCol := s.curCol - 1 }
    else scrolled g f s
  else
    let s := { s with
      fb := g.fontDrawChar f s.fb (cellX s.curCol) (cellY f s.curRow) c colorFg colorBg
      curCol := s.curCol + 1 }
    if cellX s.curCol ≥ g.width.toInt32.toInt then
      scrolled g f { s with curCol := 0, curRow := s.curRow + 1 }
    else scrolled g f s

/-- `print(str)`. -/
def print (s : TextScreen) (str : CStr) : TextScreen := str.bytes.foldl (putChar g f) s

end TextScreen

/-! ## Pixels -/

namespace Geometry

/-- The rows of pixels follow each other without a gap, and the screen has `rows` rows of
text. -/
structure Flat (g : Geometry) (f : Font) (rows : Nat) : Prop where
  pitch : g.pitchPx = g.width
  width_pos : 0 < g.width.toNat
  rows_pos : 0 < rows
  charH_pos : 0 < f.charH
  height : g.height.toNat = f.charH * rows
  small : g.width.toNat * g.height.toNat < 2 ^ 31

variable {g : Geometry} {f : Font} {rows : Nat}

namespace Flat

theorem contiguous (hg : g.Flat f rows) : g.Contiguous where
  pitch := hg.pitch
  width_pos := hg.width_pos
  height_pos := by
    rw [hg.height]
    exact Nat.mul_pos hg.charH_pos hg.rows_pos
  small := hg.small

theorem width_lt (hg : g.Flat f rows) : g.width.toNat < 2 ^ 31 := hg.contiguous.width_lt

theorem height_lt (hg : g.Flat f rows) : g.height.toNat < 2 ^ 31 := hg.contiguous.height_lt

theorem width_toInt (hg : g.Flat f rows) : g.width.toInt32.toInt = g.width.toNat :=
  hg.contiguous.width_toInt

theorem height_toInt (hg : g.Flat f rows) : g.height.toInt32.toInt = g.height.toNat :=
  hg.contiguous.height_toInt

end Flat

/-- A block with its corner on the screen has its colours. -/
theorem pixel_block (hg : g.Flat f rows) (fb : Framebuffer) {x y : Nat} (x₀ y₀ h w : Nat)
    (color : Nat → Nat → UInt32) (hx : x < g.width.toNat) (hy : y < g.height.toNat)
    (hx₀ : x₀ + w ≤ 2 ^ 32) (hy₀ : y₀ + h ≤ 2 ^ 32) :
    g.pixel (g.paint fb x₀ y₀ h w color) x y =
      if (x₀ ≤ x ∧ x < x₀ + w) ∧ y₀ ≤ y ∧ y < y₀ + h then color (y - y₀) (x - x₀)
      else g.pixel fb x y := by
  rw [pixel_paint hg.contiguous fb color hx hy (by omega) (by omega)]
  by_cases hin : (x₀ ≤ x ∧ x < x₀ + w) ∧ y₀ ≤ y ∧ y < y₀ + h
  · rw [if_pos hin, if_pos (by omega)]
    congr 1 <;> omega
  · rw [if_neg hin, if_neg (by omega)]

/-! ## Scrolling -/

/-- The loop of `scroll_up` never reads a word that it has written. -/
theorem copyUp_apply (fb : Framebuffer) {distance : UInt32} {count : Nat}
    (h : count + distance.toNat ≤ 2 ^ 32) (i : UInt32) :
    copyUp fb distance count i = if i.toNat < count then fb (i + distance) else fb i := by
  induction count generalizing i with
  | zero => exact (if_neg (Nat.not_lt_zero _)).symm
  | succ count ih =>
      have hcount : (UInt32.ofNat count).toNat = count := by
        rw [UInt32.toNat_ofNat']
        omega
      have hread : (UInt32.ofNat count + distance).toNat = count + distance.toNat := by
        rw [UInt32.toNat_add, hcount]
        omega
      rw [copyUp, List.range_succ, List.foldl_append, List.foldl_cons, List.foldl_nil, ← copyUp]
      by_cases hi : i = UInt32.ofNat count
      · rw [hi, Function.update_self, ih (by omega), hread, if_neg (by omega), hcount,
          if_pos (by omega)]
      · have hne : i.toNat ≠ count := fun heq => hi (by rw [← heq, UInt32.ofNat_toNat])
        rw [Function.update_of_ne hi, ih (by omega)]
        congr 1
        rw [eq_iff_iff]
        omega

namespace Flat

theorem charH_le (hg : g.Flat f rows) : f.charH ≤ g.height.toNat := by
  rw [hg.height]
  exact Nat.le_mul_of_pos_right _ hg.rows_pos

theorem charH_toNat : (UInt32.ofNat f.charH).toNat = f.charH := by
  have hlt : f.charH < 256 := f.charsize.toNat_lt
  rw [UInt32.toNat_ofNat']
  omega

/-- The distance in `scroll_up`. -/
theorem toNat_distance (hg : g.Flat f rows) :
    (g.width * UInt32.ofNat f.charH).toNat = g.width.toNat * f.charH := by
  have hle := Nat.mul_le_mul_left g.width.toNat hg.charH_le
  have hsmall := hg.small
  rw [UInt32.toNat_mul, charH_toNat, Nat.mod_eq_of_lt (by omega)]

theorem toNat_lastRow (hg : g.Flat f rows) :
    (g.height - UInt32.ofNat f.charH).toNat = g.height.toNat - f.charH := by
  have hle := hg.charH_le
  have hlt := g.height.toNat_lt
  rw [UInt32.toNat_sub, charH_toNat]
  omega

/-- The number of rounds in `scroll_up`. -/
theorem toNat_copied (hg : g.Flat f rows) :
    (g.width * (g.height - UInt32.ofNat f.charH)).toNat =
      g.width.toNat * (g.height.toNat - f.charH) := by
  have hle := Nat.mul_le_mul_left g.width.toNat (Nat.sub_le g.height.toNat f.charH)
  have hsmall := hg.small
  rw [UInt32.toNat_mul, hg.toNat_lastRow, Nat.mod_eq_of_lt (by omega)]

theorem lastRow_toInt (hg : g.Flat f rows) :
    (g.height - UInt32.ofNat f.charH).toInt32.toInt = (g.height.toNat - f.charH : Nat) := by
  have hlt := hg.height_lt
  rw [toInt_toInt32, hg.toNat_lastRow, if_pos (by omega)]

end Flat

/-- A row that stays on the screen is copied from the row that is a character below. -/
theorem pixel_copyUp (hg : g.Flat f rows) (fb : Framebuffer) {x y : Nat} (hx : x < g.width.toNat)
    (hy : y + f.charH < g.height.toNat) :
    g.pixel (copyUp fb (g.width * UInt32.ofNat f.charH)
      (g.width.toNat * (g.height.toNat - f.charH))) x y = g.pixel fb x (y + f.charH) := by
  have hsmall := hg.small
  have hle := hg.charH_le
  have hindex := toNat_index hg.contiguous (y := y) hx (by omega)
  have hlinear := linear_lt hx (show y < g.height.toNat - f.charH by omega)
  have htotal : g.width.toNat * (g.height.toNat - f.charH) + g.width.toNat * f.charH =
      g.width.toNat * g.height.toNat := by
    rw [← Nat.mul_add, Nat.sub_add_cancel hle]
  have hbelow : (y + f.charH) * g.width.toNat = y * g.width.toNat + g.width.toNat * f.charH := by
    rw [Nat.add_mul, Nat.mul_comm f.charH]
  have hread : index g.pitchPx x y + g.width * UInt32.ofNat f.charH =
      index g.pitchPx x (y + f.charH : Nat) := by
    apply UInt32.toNat_inj.mp
    rw [UInt32.toNat_add, toNat_index hg.contiguous hx hy, hindex, hg.toNat_distance, hbelow,
      Nat.mod_eq_of_lt (by omega)]
    omega
  rw [pixel, copyUp_apply fb (by rw [hg.toNat_distance]; omega), hindex, if_pos hlinear, hread,
    pixel]

/-- `scroll_up` takes every row of pixels up by the height of a character, and leaves the
last ones blank. -/
theorem pixel_scrollUp (hg : g.Flat f rows) (fb : Framebuffer) {x y : Nat}
    (hx : x < g.width.toNat) (hy : y < g.height.toNat) :
    g.pixel (g.scrollUp f fb) x y =
      if y + f.charH < g.height.toNat then g.pixel fb x (y + f.charH) else colorBg := by
  have hle := hg.charH_le
  have hwlt := hg.width_lt
  have hhlt := hg.height_lt
  have hfill := pixel_block hg (copyUp fb (g.width * UInt32.ofNat f.charH)
    (g.width.toNat * (g.height.toNat - f.charH))) 0 (g.height.toNat - f.charH) f.charH
    g.width.toNat (fun _ _ => colorBg) hx hy (by omega) (by omega)
  rw [scrollUp, fillRect, hg.toNat_copied, hg.lastRow_toInt, hg.width_toInt, Int.toNat_natCast,
    Int.toNat_natCast]
  refine hfill.trans ?_
  by_cases hstay : y + f.charH < g.height.toNat
  · rw [if_pos hstay, if_neg (by omega), pixel_copyUp hg fb hx hstay]
  · rw [if_neg hstay, if_pos (by omega)]

end Geometry

/-! ## The page -/

namespace Layout

/-- One more character on a page with `cols` columns. -/
def type (cols : Nat) (l : Layout) (c : UInt8) : Layout :=
  if c = 10 then ⟨l.rows, []⟩
  else if c = 8 then ⟨l.above, l.current.dropLast⟩
  else if cols ≤ l.current.length + 1 then ⟨l.above ++ [l.current ++ [c]], []⟩
  else ⟨l.above, l.current ++ [c]⟩

/-- The character in a row and a column, if there is one. -/
def charAt (l : Layout) (r k : Nat) : Option UInt8 := (l.rows.getD r [])[k]?

variable (l : Layout) (r k : Nat)

theorem charAt_eq : l.charAt r k =
    if r = l.above.length then l.current[k]? else (l.above.getD r [])[k]? := by
  rw [charAt, rows, getD_concat]
  split <;> rfl

theorem charAt_newRow : (Layout.mk l.rows []).charAt r k = l.charAt r k := by
  rw [charAt, charAt, rows, getD_concat]
  split
  · rename_i hlast
    rw [hlast, List.getD_eq_default _ _ (Nat.le_refl _)]
  · rfl

theorem charAt_append (c : UInt8) : (Layout.mk l.above (l.current ++ [c])).charAt r k =
    if r = l.above.length ∧ k = l.current.length then some c else l.charAt r k := by
  rw [charAt_eq, charAt_eq]
  by_cases hr : r = l.above.length
  · rw [if_pos hr, if_pos hr]
    by_cases hk : k = l.current.length
    · rw [if_pos ⟨hr, hk⟩, hk]
      exact List.getElem?_concat_length
    · rw [if_neg fun h => hk h.2]
      rcases Nat.lt_or_gt_of_ne hk with hlt | hgt
      · exact List.getElem?_append_left hlt
      · rw [List.getElem?_eq_none (by simp only [List.length_append, List.length_singleton]; omega),
          List.getElem?_eq_none (Nat.le_of_lt hgt)]
  · rw [if_neg hr, if_neg hr, if_neg fun h => hr h.1]

theorem charAt_dropLast : (Layout.mk l.above l.current.dropLast).charAt r k =
    if r = l.above.length ∧ k + 1 = l.current.length then none else l.charAt r k := by
  rw [charAt_eq, charAt_eq]
  by_cases hr : r = l.above.length
  · have hdrop : l.current.dropLast[k]? =
        if k < l.current.length - 1 then l.current[k]? else none := List.getElem?_dropLast
    rw [if_pos hr, if_pos hr, hdrop]
    by_cases hk : k + 1 = l.current.length
    · rw [if_pos (⟨hr, hk⟩ : r = _ ∧ _), if_neg (by omega)]
    · rw [if_neg (fun h => hk h.2 : ¬ (r = l.above.length ∧ _))]
      split
      · rfl
      · exact (List.getElem?_eq_none (by omega)).symm
  · rw [if_neg hr, if_neg hr, if_neg fun h => hr h.1]

end Layout

/-- The colour of a pixel of a cell with a character or without one. -/
def Font.shade (f : Font) (c : Option UInt8) (row col : Nat) : UInt32 :=
  match c with
  | none => colorBg
  | some c => if f.ink c row col then colorFg else colorBg

/-- How many columns of characters are on the screen, the last of them perhaps in part. -/
def Geometry.textCols (g : Geometry) : Nat := (g.width.toNat + 7) / 8

namespace TextScreen

/-- The screen shows the page from row `top` on.  The cursor is behind the last character;
it may be in the row below the screen. -/
structure Pictures (g : Geometry) (f : Font) (rows : Nat) (s : TextScreen) (l : Layout)
    (top : Nat) : Prop where
  col : s.curCol = l.current.length
  colLt : s.curCol < g.textCols
  row : s.curRow + top = l.above.length
  rowLe : s.curRow ≤ rows
  below : s.curRow = rows → s.curCol = 0
  anchored : top = 0 ∨ rows ≤ s.curRow + 1
  pixels : ∀ x y, x < g.width.toNat → y < g.height.toNat →
    g.pixel s.fb x y = f.shade (l.charAt (top + y / f.charH) (x / 8)) (y % f.charH) (x % 8)

variable {g : Geometry} {f : Font} {rows top : Nat} {s : TextScreen} {l : Layout}

theorem textCols_pos (hg : g.Flat f rows) : 0 < g.textCols := by
  have hpos := hg.width_pos
  rw [Geometry.textCols]
  omega

/-- Painting a cell changes its pixels only. -/
theorem pixel_cell (hg : g.Flat f rows) (fb : Framebuffer) (color : Nat → Nat → UInt32)
    {row col x y : Nat} (hcol : col < g.textCols) (hrow : row < rows) (hx : x < g.width.toNat)
    (hy : y < g.height.toNat) :
    g.pixel (g.paint fb (cellX col) (cellY f row) f.charH 8 color) x y =
      if y / f.charH = row ∧ x / 8 = col then color (y % f.charH) (x % 8) else g.pixel fb x y := by
  have hpos := hg.charH_pos
  have hwlt := hg.width_lt
  have hhlt := hg.height_lt
  have hblock : row * f.charH + f.charH ≤ g.height.toNat :=
    calc row * f.charH + f.charH = (row + 1) * f.charH := (Nat.succ_mul _ _).symm
      _ ≤ rows * f.charH := Nat.mul_le_mul_right _ hrow
      _ = g.height.toNat := by rw [hg.height, Nat.mul_comm]
  rw [Geometry.textCols] at hcol
  have hpaint := Geometry.pixel_block hg fb (col * 8) (row * f.charH) f.charH 8 color hx hy
    (by omega) (by omega)
  rw [Nat.cast_mul, Nat.cast_mul] at hpaint
  refine hpaint.trans ?_
  have hdiv := Nat.div_add_mod y f.charH
  have hmod := Nat.mod_lt y hpos
  by_cases hcell : y / f.charH = row ∧ x / 8 = col
  · obtain ⟨hy', hx'⟩ := hcell
    rw [hy', Nat.mul_comm] at hdiv
    rw [if_pos ⟨by omega, by omega⟩, if_pos ⟨hy', hx'⟩]
    congr 1 <;> omega
  · rw [if_neg hcell, if_neg]
    rintro ⟨hxin, hylow, hyhigh⟩
    refine hcell ⟨?_, by omega⟩
    exact Nat.div_eq_of_lt_le hylow (by rw [Nat.succ_mul]; exact hyhigh)

theorem cellY_ge_iff (hg : g.Flat f rows) (row : Nat) :
    cellY f row ≥ g.height.toInt32.toInt ↔ rows ≤ row := by
  rw [hg.height_toInt, hg.height, cellY, ge_iff_le, ← Nat.cast_mul, Int.ofNat_le,
    Nat.mul_comm f.charH]
  exact Nat.mul_le_mul_right_iff hg.charH_pos

/-- The cursor is back on the screen at the end of `put_char`. -/
theorem Pictures.scrolled (hg : g.Flat f rows) (h : Pictures g f rows s l top) :
    ∃ top, Pictures g f rows (scrolled g f s) l top ∧ (scrolled g f s).curRow < rows := by
  have hpos := hg.charH_pos
  rw [TextScreen.scrolled]
  by_cases hrow : rows ≤ s.curRow
  · have hlast : s.curRow = rows := Nat.le_antisymm h.rowLe hrow
    have hempty : l.current = [] := List.length_eq_zero_iff.mp (h.col.symm.trans (h.below hlast))
    have htop := h.row
    have hrows := hg.rows_pos
    rw [if_pos ((cellY_ge_iff hg _).mpr hrow)]
    refine ⟨top + 1, ⟨h.col, h.colLt, ?_, ?_, ?_, .inr ?_, fun x y hx hy => ?_⟩, ?_⟩
    · show s.curRow - 1 + (top + 1) = _
      omega
    · show s.curRow - 1 ≤ rows
      omega
    · intro heq
      have heq' : s.curRow - 1 = rows := heq
      omega
    · show rows ≤ s.curRow - 1 + 1
      omega
    · rw [Geometry.pixel_scrollUp hg s.fb hx hy]
      by_cases hstay : y + f.charH < g.height.toNat
      · rw [if_pos hstay, h.pixels x _ hx hstay, Nat.add_div_right _ hpos, Nat.add_mod_right,
          Nat.add_right_comm, Nat.add_assoc]
      · have hline : y / f.charH = rows - 1 := by
          have hheight := hg.height
          have hsplit : f.charH * rows = f.charH * (rows - 1) + f.charH := by
            rw [← Nat.mul_succ]
            congr 1
            omega
          rw [Nat.div_eq_iff hpos]
          rw [Nat.mul_comm]
          omega
        rw [if_neg hstay, hline, show top + 1 + (rows - 1) = l.above.length by omega,
          Layout.charAt_eq, if_pos rfl, hempty]
        rfl
    · show s.curRow - 1 < rows
      omega
  · rw [if_neg fun hge => hrow ((cellY_ge_iff hg _).mp hge)]
    exact ⟨top, h, Nat.lt_of_not_le hrow⟩

/-- The cursor goes to the beginning of the next row. -/
theorem pictures_newRow (hg : g.Flat f rows) (hcol : s.curCol = 0)
    (hrow : s.curRow + top = l.above.length + 1) (hle : s.curRow ≤ rows)
    (hanchored : top = 0 ∨ rows ≤ s.curRow)
    (hpixels : ∀ x y, x < g.width.toNat → y < g.height.toNat →
      g.pixel s.fb x y = f.shade (l.charAt (top + y / f.charH) (x / 8)) (y % f.charH) (x % 8)) :
    Pictures g f rows s ⟨l.rows, []⟩ top where
  col := hcol
  colLt := hcol ▸ textCols_pos hg
  row := by
    show s.curRow + top = (l.above ++ [l.current]).length
    rw [List.length_append, List.length_singleton]
    exact hrow
  rowLe := hle
  below := fun _ => hcol
  anchored := hanchored.imp_right fun h => Nat.le_succ_of_le h
  pixels := fun x y hx hy => by rw [Layout.charAt_newRow, hpixels x y hx hy]

/-- A glyph is drawn at the cursor, which may be at the margin then. -/
theorem pixel_typed (hg : g.Flat f rows) (h : Pictures g f rows s l top)
    (hrow : s.curRow < rows) (c : UInt8) {x y : Nat} (hx : x < g.width.toNat)
    (hy : y < g.height.toNat) :
    g.pixel (g.fontDrawChar f s.fb (cellX s.curCol) (cellY f s.curRow) c colorFg colorBg) x y =
      f.shade ((Layout.mk l.above (l.current ++ [c])).charAt (top + y / f.charH) (x / 8))
        (y % f.charH) (x % 8) := by
  have htop := h.row
  rw [Geometry.fontDrawChar, pixel_cell hg s.fb _ h.colLt hrow hx hy, Layout.charAt_append]
  by_cases hcell : y / f.charH = s.curRow ∧ x / 8 = s.curCol
  · have hlast : top + y / f.charH = l.above.length ∧ x / 8 = l.current.length :=
      ⟨by omega, hcell.2.trans h.col⟩
    rw [if_pos hcell, if_pos hlast]
    rfl
  · rw [if_neg hcell, if_neg fun heq => hcell ⟨by omega, heq.2.trans h.col.symm⟩]
    exact h.pixels x y hx hy

/-- The cell before the cursor is blanked. -/
theorem pixel_erased (hg : g.Flat f rows) (h : Pictures g f rows s l top)
    (hrow : s.curRow < rows) (hcol : 0 < s.curCol) {x y : Nat} (hx : x < g.width.toNat)
    (hy : y < g.height.toNat) :
    g.pixel (g.fillRect s.fb (cellX (s.curCol - 1)) (cellY f s.curRow) 8 f.charH colorBg) x y =
      f.shade ((Layout.mk l.above l.current.dropLast).charAt (top + y / f.charH) (x / 8))
        (y % f.charH) (x % 8) := by
  have htop := h.row
  have hlen := h.col
  have hlt := h.colLt
  rw [Geometry.fillRect, Int.toNat_natCast]
  refine (pixel_cell hg s.fb _ (by omega) hrow hx hy).trans ?_
  rw [Layout.charAt_dropLast]
  by_cases hcell : y / f.charH = s.curRow ∧ x / 8 = s.curCol - 1
  · rw [if_pos hcell, if_pos ⟨by omega, by omega⟩]
    rfl
  · rw [if_neg hcell, if_neg fun heq => hcell ⟨by omega, by omega⟩]
    exact h.pixels x y hx hy

theorem cellX_ge_iff (hg : g.Flat f rows) (col : Nat) :
    cellX col ≥ g.width.toInt32.toInt ↔ g.textCols ≤ col := by
  rw [hg.width_toInt, cellX, Geometry.textCols]
  omega

/-- A character on the screen is a character on the page. -/
theorem Pictures.putChar (hg : g.Flat f rows) (h : Pictures g f rows s l top)
    (hrow : s.curRow < rows) (hmode : s.terminalOutputMode = false) (c : UInt8) :
    ∃ top, Pictures g f rows (putChar g f s c) (l.type g.textCols c) top ∧
      (TextScreen.putChar g f s c).curRow < rows := by
  have hcol := h.col
  have htop := h.row
  have hlt := h.colLt
  have hhere : s.curRow ≠ rows := Nat.ne_of_lt hrow
  rw [TextScreen.putChar, if_neg (by rw [hmode]; decide), Layout.type]
  by_cases hnewline : c = 10
  · rw [if_pos hnewline, if_pos hnewline]
    have hnext : Pictures g f rows { s with curCol := 0, curRow := s.curRow + 1 } ⟨l.rows, []⟩
        top :=
      pictures_newRow hg rfl (by show s.curRow + 1 + top = _; omega) hrow h.anchored h.pixels
    exact hnext.scrolled hg
  · rw [if_neg hnewline, if_neg hnewline]
    by_cases hback : c = 8
    · rw [if_pos hback, if_pos hback]
      by_cases hpos : 0 < s.curCol
      · rw [if_pos hpos]
        have hback : Pictures g f rows
            { s with
              fb := g.fillRect s.fb (cellX (s.curCol - 1)) (cellY f s.curRow) 8 f.charH colorBg
              curCol := s.curCol - 1 } ⟨l.above, l.current.dropLast⟩ top :=
          ⟨by rw [List.length_dropLast, ← hcol], Nat.lt_of_le_of_lt (Nat.sub_le _ _) hlt, htop,
            h.rowLe, fun heq => absurd heq hhere, h.anchored,
            fun x y hx hy => pixel_erased hg h hrow hpos hx hy⟩
        exact hback.scrolled hg
      · have hempty : l.current = [] := by
          apply List.length_eq_zero_iff.mp
          omega
        have hsame : Layout.mk l.above l.current.dropLast = l := by
          rw [hempty, List.dropLast_nil, ← hempty]
        rw [if_neg hpos, hsame]
        exact h.scrolled hg
    · rw [if_neg hback, if_neg hback]
      have htyped : ∀ x y, x < g.width.toNat → y < g.height.toNat → _ :=
        fun x y hx hy => pixel_typed hg h hrow c hx hy
      by_cases hmargin : g.textCols ≤ s.curCol + 1
      · have hnext : Pictures g f rows
            { s with
              fb := g.fontDrawChar f s.fb (cellX s.curCol) (cellY f s.curRow) c colorFg colorBg
              curCol := 0
              curRow := s.curRow + 1 } ⟨l.above ++ [l.current ++ [c]], []⟩ top :=
          pictures_newRow (l := ⟨l.above, l.current ++ [c]⟩) hg rfl
            (by show s.curRow + 1 + top = l.above.length + 1; omega) hrow h.anchored htyped
        simp only [(cellX_ge_iff hg (s.curCol + 1)).mpr hmargin, if_true]
        rw [if_pos (by omega)]
        exact hnext.scrolled hg
      · have hnext : Pictures g f rows
            { s with
              fb := g.fontDrawChar f s.fb (cellX s.curCol) (cellY f s.curRow) c colorFg colorBg
              curCol := s.curCol + 1 } ⟨l.above, l.current ++ [c]⟩ top :=
          ⟨by rw [List.length_append, List.length_singleton, ← hcol], Nat.lt_of_not_le hmargin,
            htop, h.rowLe, fun heq => absurd heq hhere, h.anchored, htyped⟩
        simp only [mt (cellX_ge_iff hg (s.curCol + 1)).mp hmargin, if_false]
        rw [if_neg (by omega)]
        exact hnext.scrolled hg

/-- After `clear_screen` the page is empty. -/
theorem pictures_clearScreen (hg : g.Flat f rows) (s : TextScreen) :
    Pictures g f rows (clearScreen g s) Layout.empty 0 where
  col := rfl
  colLt := textCols_pos hg
  row := rfl
  rowLe := Nat.zero_le _
  below := fun _ => rfl
  anchored := .inl rfl
  pixels := fun x y hx hy => by
    have hwlt := hg.width_lt
    have hhlt := hg.height_lt
    have hfill := Geometry.pixel_block hg s.fb 0 0 g.height.toNat g.width.toNat
      (fun _ _ => colorBg) hx hy (by omega) (by omega)
    have hblank : Layout.empty.charAt (0 + y / f.charH) (x / 8) = none := by
      rw [Layout.charAt_eq]
      split <;> rfl
    rw [hblank, clearScreen, Geometry.fillScreen, Geometry.fillRect, hg.width_toInt,
      hg.height_toInt, Int.toNat_natCast, Int.toNat_natCast]
    exact hfill.trans (if_pos (by omega))

theorem mode_putChar (s : TextScreen) (c : UInt8) :
    (putChar g f s c).terminalOutputMode = s.terminalOutputMode := by
  have hscrolled : ∀ s : TextScreen,
      (TextScreen.scrolled g f s).terminalOutputMode = s.terminalOutputMode := by
    intro s
    rw [TextScreen.scrolled]
    split <;> rfl
  rw [putChar]
  split
  · rfl
  · split
    · exact hscrolled _
    · split
      · split <;> exact hscrolled _
      · dsimp only
        split <;> exact hscrolled _

/-- While output is redirected only the grid changes. -/
theorem print_redirected {s : TextScreen} (hmode : s.terminalOutputMode = true) (str : List UInt8) :
    str.foldl (putChar g f) s = { s with io := s.io.print str } := by
  induction str generalizing s with
  | nil => rfl
  | cons c rest ih =>
      have hc : putChar g f s c = { s with io := s.io.putchar c } := by
        rw [putChar, if_pos hmode]
      rw [List.foldl_cons, hc]
      exact ih (s := { s with io := s.io.putchar c }) hmode

theorem io_putChar (hmode : s.terminalOutputMode = false) (c : UInt8) :
    (putChar g f s c).io = s.io := by
  have hscrolled : ∀ s : TextScreen, (TextScreen.scrolled g f s).io = s.io := by
    intro s
    rw [TextScreen.scrolled]
    split <;> rfl
  rw [putChar, hmode, if_neg (by decide)]
  split
  · exact hscrolled _
  · split
    · split <;> exact hscrolled _
    · dsimp only
      split <;> exact hscrolled _

/-- On the screen the page grows by what is printed, and the grid stays. -/
theorem print_pictures (hg : g.Flat f rows) (str : List UInt8) : ∀ {s : TextScreen} {l : Layout}
    {top : Nat}, Pictures g f rows s l top → s.curRow < rows → s.terminalOutputMode = false →
      (∃ top, Pictures g f rows (str.foldl (putChar g f) s) (str.foldl (Layout.type g.textCols) l)
        top) ∧ (str.foldl (putChar g f) s).curRow < rows ∧
        (str.foldl (putChar g f) s).terminalOutputMode = false ∧
        (str.foldl (putChar g f) s).io = s.io := by
  induction str with
  | nil => exact fun {_ _ top} h hrow hmode => ⟨⟨top, h⟩, hrow, hmode, rfl⟩
  | cons c rest ih =>
      intro s l top h hrow hmode
      obtain ⟨top', h', hrow'⟩ := h.putChar hg hrow hmode c
      obtain ⟨hpage, hlast, hmode', hio⟩ := ih h' hrow' ((mode_putChar s c).trans hmode)
      exact ⟨hpage, hlast, hmode', hio.trans (io_putChar hmode c)⟩

end TextScreen

/-! ## Everything that is printed -/

/-- The calls of the kernel that concern the screen. -/
inductive ScreenCall where
  | print (str : CStr)
  | clearScreen
  /-- `screen_set_terminal_output(enabled)` -/
  | setTerminalOutput (enabled : Bool)

/-- The screen after a call. -/
def TextScreen.call (g : Geometry) (f : Font) (s : TextScreen) : ScreenCall → TextScreen
  | .print str => s.print g f str
  | .clearScreen => s.clearScreen g
  | .setTerminalOutput enabled => { s with terminalOutputMode := enabled }

/-- Where the output goes: a page without a lower end, or a grid. -/
structure Output where
  page : Layout
  grid : TermIo
  toGrid : Bool

/-- What a call adds to the output. -/
def Output.call (cols : Nat) (o : Output) : ScreenCall → Output
  | .print str =>
      if o.toGrid then { o with grid := o.grid.print str.bytes }
      else { o with page := str.bytes.foldl (Layout.type cols) o.page }
  | .clearScreen => { o with page := Layout.empty }
  | .setTerminalOutput enabled => { o with toGrid := enabled }

/-- The screen shows the end of the page, and the grid is as if it had been written alone. -/
structure Renders (g : Geometry) (f : Font) (rows : Nat) (s : TextScreen) (o : Output) : Prop where
  pictures : ∃ top, TextScreen.Pictures g f rows s o.page top
  onScreen : s.curRow < rows
  grid : s.io = o.grid
  mode : s.terminalOutputMode = o.toGrid

variable {g : Geometry} {f : Font} {rows : Nat}

theorem Renders.call (hg : g.Flat f rows) {s : TextScreen} {o : Output} (h : Renders g f rows s o)
    (c : ScreenCall) : Renders g f rows (s.call g f c) (o.call g.textCols c) := by
  obtain ⟨⟨top, hpictures⟩, hrow, hgrid, hmode⟩ := h
  cases c with
  | print str =>
      rw [TextScreen.call, TextScreen.print, Output.call]
      by_cases hto : o.toGrid = true
      · rw [TextScreen.print_redirected (hmode.trans hto), if_pos hto]
        refine ⟨⟨top, ?_⟩, hrow, congrArg (fun io => TermIo.print io str.bytes) hgrid, hmode⟩
        exact ⟨hpictures.col, hpictures.colLt, hpictures.row, hpictures.rowLe, hpictures.below,
          hpictures.anchored, hpictures.pixels⟩
      · have hoff : o.toGrid = false := Bool.not_eq_true _ ▸ hto
        obtain ⟨hpage, hlast, hmode', hio⟩ :=
          TextScreen.print_pictures hg str.bytes hpictures hrow (hmode.trans hoff)
        rw [if_neg hto]
        exact ⟨hpage, hlast, hio.trans hgrid, hmode'.trans hoff.symm⟩
  | clearScreen =>
      exact ⟨⟨0, TextScreen.pictures_clearScreen hg s⟩, hg.rows_pos, hgrid, hmode⟩
  | setTerminalOutput enabled =>
      refine ⟨⟨top, ?_⟩, hrow, hgrid, rfl⟩
      exact ⟨hpictures.col, hpictures.colLt, hpictures.row, hpictures.rowLe, hpictures.below,
        hpictures.anchored, hpictures.pixels⟩

theorem Renders.calls (hg : g.Flat f rows) (calls : List ScreenCall) : ∀ {s : TextScreen}
    {o : Output}, Renders g f rows s o →
      Renders g f rows (calls.foldl (TextScreen.call g f) s)
        (calls.foldl (Output.call g.textCols) o) := by
  induction calls with
  | nil => exact fun h => h
  | cons c rest ih => exact fun h => ih (h.call hg c)

/-- Begin with a clear screen.  After any calls every pixel is that of the character which
the last rows of the page have there, the cursor is behind the last character, and the
redirected output is in the grid of `term_io.c`. -/
theorem calls_render (hg : g.Flat f rows) (s : TextScreen) (calls : List ScreenCall) :
    let s' := calls.foldl (TextScreen.call g f) (s.clearScreen g)
    let o := calls.foldl (Output.call g.textCols) ⟨Layout.empty, s.io, s.terminalOutputMode⟩
    (∀ x y, x < g.width.toNat → y < g.height.toNat →
      g.pixel s'.fb x y = f.shade
        (o.page.charAt (o.page.rows.length - rows + y / f.charH) (x / 8)) (y % f.charH) (x % 8)) ∧
      s'.curCol = o.page.current.length ∧ s'.curRow + 1 = min rows o.page.rows.length ∧
      s'.io = o.grid := by
  intro s' o
  have hclear : Renders g f rows (s.clearScreen g) ⟨Layout.empty, s.io, s.terminalOutputMode⟩ :=
    ⟨⟨0, TextScreen.pictures_clearScreen hg s⟩, hg.rows_pos, rfl, rfl⟩
  obtain ⟨⟨top, h⟩, hrow, hgrid, -⟩ : Renders g f rows s' o := hclear.calls hg calls
  have hlen : o.page.rows.length = o.page.above.length + 1 := List.length_append
  have htop := h.row
  have hanchored := h.anchored
  have hbegin : o.page.rows.length - rows = top := by omega
  refine ⟨fun x y hx hy => ?_, h.col, by omega, hgrid⟩
  rw [hbegin]
  exact h.pixels x y hx hy

/-- A screen of 1024 by 768 pixels without padding, and a font of 16 rows. -/
theorem flat_1024 : (graphicsInit 4096 1024 768).Flat ⟨16, fun _ => 0⟩ 48 where
  pitch := by decide
  width_pos := by decide
  rows_pos := by decide
  charH_pos := by decide
  height := by decide
  small := by decide

/-- Some output on a screen of 1024 by 768 pixels, with a part of it redirected. -/
theorem calls_render_1024 :
    let g := graphicsInit 4096 1024 768
    let f : Font := ⟨16, fun _ => 0⟩
    let calls := [.print ⟨text "ls\n", by decide⟩, .setTerminalOutput true,
      .print ⟨text "hidden", by decide⟩, .setTerminalOutput false, .print ⟨text "> ", by decide⟩]
    let start : TextScreen := ⟨fun _ => 0, 7, 7, false, ⟨fun _ _ => 0, 0, 0, true, 0⟩⟩
    let s' := calls.foldl (TextScreen.call g f) (start.clearScreen g)
    let o := calls.foldl (Output.call g.textCols) ⟨Layout.empty, start.io, false⟩
    (∀ x y, x < g.width.toNat → y < g.height.toNat →
      g.pixel s'.fb x y = f.shade
        (o.page.charAt (o.page.rows.length - 48 + y / f.charH) (x / 8)) (y % f.charH) (x % 8)) ∧
      s'.curCol = o.page.current.length ∧ s'.curRow + 1 = min 48 o.page.rows.length ∧
      s'.io = o.grid :=
  calls_render flat_1024 _ _

end FalastinOS.Gui
