/-
  Gui/Cursor.lean --- the mouse pointer: `cursor_gfx.c` over `graphics.c`.

  `cursor_gfx_draw` saves the 16 by 16 block of pixels at the pointer and draws an arrow
  over it, and `cursor_gfx_erase` puts the saved pixels back.  Both address a saved
  pixel with the width of the screen as the stride, while the arrow is drawn with
  `put_pixel`, whose stride is the pitch.  Where the two differ, the arrow goes to words
  that were not saved.

  A position is an `int`; a word of the framebuffer is named by its index, a `uint32_t`,
  and is computed with the overflow that this type has.
-/
import FalastinOS.Foundation.Memory
import Mathlib.Data.List.ProdSigma

set_option autoImplicit false

namespace FalastinOS.Gui

open FalastinOS.Foundation

/-! ## `graphics.c` -/

/-- The variables of `graphics.c`, but for the address of the framebuffer. -/
structure Geometry where
  /-- `fb_pitch_px` -/
  pitchPx : UInt32
  /-- `fb_width` -/
  width : UInt32
  /-- `fb_height` -/
  height : UInt32

/-- The words at the address of the framebuffer, by index. -/
abbrev Framebuffer : Type := UInt32 → UInt32

/-- `graphics_init(addr, pitch, w, h, bpp)`. -/
def graphicsInit (pitch w h : UInt32) : Geometry := ⟨pitch / 4, w, h⟩

namespace Geometry

/-- `py * stride + px`, for two `int` and a `uint32_t`. -/
def index (stride : UInt32) (px py : Int) : UInt32 := UInt32.ofInt py * stride + UInt32.ofInt px

/-- `put_pixel(x, y, color)`. -/
def putPixel (g : Geometry) (fb : Framebuffer) (x y : Int) (color : UInt32) : Framebuffer :=
  if UInt32.ofInt x < g.width ∧ UInt32.ofInt y < g.height then
    Function.update fb (index g.pitchPx x y) color
  else fb

/-! ## `cursor_gfx.c` -/

/-- `cursor_shape`. -/
def cursorShape : List (List UInt8) := [
  [1,0,0,0,0,0,0,0,0,0,0,0,0,0,0,0],
  [1,1,0,0,0,0,0,0,0,0,0,0,0,0,0,0],
  [1,2,1,0,0,0,0,0,0,0,0,0,0,0,0,0],
  [1,2,2,1,0,0,0,0,0,0,0,0,0,0,0,0],
  [1,2,2,2,1,0,0,0,0,0,0,0,0,0,0,0],
  [1,2,2,2,2,1,0,0,0,0,0,0,0,0,0,0],
  [1,2,2,2,2,2,1,0,0,0,0,0,0,0,0,0],
  [1,2,2,2,2,2,2,1,0,0,0,0,0,0,0,0],
  [1,2,2,2,2,2,2,2,1,0,0,0,0,0,0,0],
  [1,2,2,2,2,1,1,1,1,0,0,0,0,0,0,0],
  [1,2,2,1,2,2,1,0,0,0,0,0,0,0,0,0],
  [1,2,1,0,1,2,2,1,0,0,0,0,0,0,0,0],
  [1,1,0,0,0,1,2,2,1,0,0,0,0,0,0,0],
  [0,0,0,0,0,0,1,2,2,1,0,0,0,0,0,0],
  [0,0,0,0,0,0,0,1,2,2,1,0,0,0,0,0],
  [0,0,0,0,0,0,0,0,1,1,0,0,0,0,0,0]]

/-- The variables of `cursor_gfx.c`, with the framebuffer. -/
structure Screen where
  fb : Framebuffer
  /-- `saved` -/
  saved : Nat → UInt32
  /-- `saved_x` -/
  savedX : Int
  /-- `saved_y` -/
  savedY : Int

/-- The rounds of two nested loops from 0 to 15: row and column. -/
def cells : List (Nat × Nat) := List.range 16 ×ˢ List.range 16

/-- `px >= 0 && px < (int)w && py >= 0 && py < (int)h`. -/
def OnScreen (g : Geometry) (px py : Int) : Prop :=
  0 ≤ px ∧ px < g.width.toInt32.toInt ∧ 0 ≤ py ∧ py < g.height.toInt32.toInt

instance (g : Geometry) (px py : Int) : Decidable (g.OnScreen px py) :=
  inferInstanceAs (Decidable (_ ∧ _ ∧ _ ∧ _))

/-- A round of the loop of `cursor_gfx_erase`. -/
def eraseCell (g : Geometry) (s : Screen) (fb : Framebuffer) (c : Nat × Nat) : Framebuffer :=
  let px := s.savedX + c.2
  let py := s.savedY + c.1
  if g.OnScreen px py then Function.update fb (index g.width px py) (s.saved (c.1 * 16 + c.2))
  else fb

/-- `cursor_gfx_erase()`. -/
def cursorGfxErase (g : Geometry) (s : Screen) : Screen :=
  if s.savedX < 0 then s
  else { s with fb := cells.foldl (g.eraseCell s) s.fb, savedX := -1 }

/-- A round of the loop that saves the background. -/
def saveCell (g : Geometry) (fb : Framebuffer) (x y : Int) (saved : Nat → UInt32)
    (c : Nat × Nat) : Nat → UInt32 :=
  let px := x + c.2
  let py := y + c.1
  Function.update saved (c.1 * 16 + c.2)
    (if g.OnScreen px py then fb (index g.width px py) else 0)

/-- A round of the loop that draws the arrow. -/
def drawCell (g : Geometry) (x y : Int) (fb : Framebuffer) (c : Nat × Nat) : Framebuffer :=
  let px := x + c.2
  let py := y + c.1
  if ¬ g.OnScreen px py then fb
  else
    let p := (cursorShape.getD c.1 []).getD c.2 0
    if p = 1 then g.putPixel fb px py 0x000000
    else if p = 2 then g.putPixel fb px py 0xFFFFFF
    else fb

/-- `cursor_gfx_draw(x, y)`. -/
def cursorGfxDraw (g : Geometry) (s : Screen) (x y : Int) : Screen where
  fb := cells.foldl (g.drawCell x y) s.fb
  saved := cells.foldl (g.saveCell s.fb x y) s.saved
  savedX := x
  savedY := y

/-- Drawing the pointer at a position and erasing it changes no word of the screen. -/
def RestoredAt (g : Geometry) (x y : Int) : Prop :=
  ∀ s : Screen, (g.cursorGfxErase (g.cursorGfxDraw s x y)).fb = s.fb

/-- The position is one of a pixel. -/
def HasPixel (g : Geometry) (x y : Int) : Prop :=
  0 ≤ x ∧ x < g.width.toNat ∧ 0 ≤ y ∧ y < g.height.toNat

/-- Is the pixel a part of the arrow? -/
def Inked (c : Nat × Nat) : Prop := (cursorShape.getD c.1 []).getD c.2 0 ≠ 0

/-- Every word the arrow is drawn into, at the pitch, is a word of the block that is saved,
at the width. -/
def Covered (g : Geometry) (x y : Int) : Prop :=
  ∀ c ∈ cells, g.OnScreen (x + c.2) (y + c.1) → Inked c →
    ∃ d ∈ cells, g.OnScreen (x + d.2) (y + d.1) ∧
      index g.width (x + d.2) (y + d.1) = index g.pitchPx (x + c.2) (y + c.1)

/-! ## Integers -/

/-- The test of `put_pixel` is weaker than that of the loops. -/
theorem ofInt_lt {w : UInt32} {px : Int} (hlow : 0 ≤ px) (hhigh : px < w.toInt32.toInt) :
    UInt32.ofInt px < w := by
  have hw := w.toNat_lt
  rw [toInt_toInt32] at hhigh
  rw [UInt32.lt_iff_toNat_lt, UInt32.ofInt, UInt32.toNat_ofNat']
  split at hhigh
  · omega
  · omega

variable {g : Geometry} {x y : Int}

theorem putPixel_of_onScreen {px py : Int} (h : g.OnScreen px py) (fb : Framebuffer)
    (color : UInt32) :
    g.putPixel fb px py color = Function.update fb (index g.pitchPx px py) color :=
  if_pos ⟨ofInt_lt h.1 h.2.1, ofInt_lt h.2.2.1 h.2.2.2⟩

/-! ## The three loops -/

/-- What a round of the loop that draws stores. -/
def drawn (g : Geometry) (x y : Int) (c : Nat × Nat) : Option (UInt32 × UInt32) :=
  if g.OnScreen (x + c.2) (y + c.1) then
    if (cursorShape.getD c.1 []).getD c.2 0 = 1 then
      some (index g.pitchPx (x + c.2) (y + c.1), 0x000000)
    else if (cursorShape.getD c.1 []).getD c.2 0 = 2 then
      some (index g.pitchPx (x + c.2) (y + c.1), 0xFFFFFF)
    else none
  else none

theorem drawCell_eq (fb : Framebuffer) (c : Nat × Nat) :
    g.drawCell x y fb c = storeOption fb (g.drawn x y c) := by
  rw [drawCell, drawn]
  by_cases hscreen : g.OnScreen (x + c.2) (y + c.1)
  · simp only [not_true_eq_false, hscreen, if_true, if_false]
    rw [putPixel_of_onScreen hscreen, putPixel_of_onScreen hscreen]
    split
    · rfl
    · split
      · rfl
      · rfl
  · simp only [not_false_eq_true, hscreen, if_true, if_false]
    rfl

/-- The tip of the arrow. -/
theorem inked_tip : Inked (0, 0) := by
  rw [Inked]
  decide

/-- The arrow has two colours. -/
def Colour (v : UInt32) : Prop := v = 0x000000 ∨ v = 0xFFFFFF

theorem shape_values : ∀ c ∈ cells, (cursorShape.getD c.1 []).getD c.2 0 = 0 ∨
    (cursorShape.getD c.1 []).getD c.2 0 = 1 ∨ (cursorShape.getD c.1 []).getD c.2 0 = 2 := by
  decide +kernel

theorem drawn_eq_some {c : Nat × Nat} {a v : UInt32} (h : g.drawn x y c = some (a, v)) :
    g.OnScreen (x + c.2) (y + c.1) ∧ Inked c ∧ index g.pitchPx (x + c.2) (y + c.1) = a ∧
      Colour v := by
  rw [drawn] at h
  split at h
  · rename_i hscreen
    split at h
    · rename_i hblack
      obtain ⟨ha, hv⟩ := Prod.mk.inj (Option.some.inj h)
      exact ⟨hscreen, by rw [Inked, hblack]; decide, ha, .inl hv.symm⟩
    · split at h
      · rename_i hwhite
        obtain ⟨ha, hv⟩ := Prod.mk.inj (Option.some.inj h)
        exact ⟨hscreen, by rw [Inked, hwhite]; decide, ha, .inr hv.symm⟩
      · exact nomatch h
  · exact nomatch h

theorem exists_drawn {c : Nat × Nat} (hc : c ∈ cells) (hscreen : g.OnScreen (x + c.2) (y + c.1))
    (hinked : Inked c) :
    ∃ v, g.drawn x y c = some (index g.pitchPx (x + c.2) (y + c.1), v) := by
  rw [drawn, if_pos hscreen]
  rcases shape_values c hc with hclear | hblack | hwhite
  · exact absurd hclear hinked
  · exact ⟨_, if_pos hblack⟩
  · exact ⟨_, by rw [if_neg (by rw [hwhite]; decide), if_pos hwhite]⟩

/-- A word the arrow is drawn into has one of its colours. -/
theorem draw_inked {c : Nat × Nat} (hc : c ∈ cells) (hscreen : g.OnScreen (x + c.2) (y + c.1))
    (hinked : Inked c) (s : Screen) :
    Colour ((g.cursorGfxDraw s x y).fb (index g.pitchPx (x + c.2) (y + c.1))) := by
  obtain ⟨v, hv⟩ := exists_drawn hc hscreen hinked
  simp only [cursorGfxDraw]
  exact foldl_store_induction drawCell_eq
    (fun d _ w hw => (drawn_eq_some hw).2.2.2) (.inr ⟨c, hc, v, hv⟩)

/-- No other word changes. -/
theorem draw_of_ne {a : UInt32} (h : ∀ c ∈ cells, g.OnScreen (x + c.2) (y + c.1) → Inked c →
    index g.pitchPx (x + c.2) (y + c.1) ≠ a) (s : Screen) :
    (g.cursorGfxDraw s x y).fb a = s.fb a := by
  simp only [cursorGfxDraw]
  refine foldl_store_of_ne drawCell_eq (fun c hc v hv => ?_) s.fb
  obtain ⟨hscreen, hinked, ha, _⟩ := drawn_eq_some hv
  exact h c hc hscreen hinked ha

theorem mem_cells {c : Nat × Nat} : c ∈ cells ↔ c.1 < 16 ∧ c.2 < 16 := by
  rw [cells, List.mem_product, List.mem_range, List.mem_range]

/-- The block is saved as it was before the arrow. -/
theorem draw_saved {c : Nat × Nat} (hc : c ∈ cells) (hscreen : g.OnScreen (x + c.2) (y + c.1))
    (s : Screen) : (g.cursorGfxDraw s x y).saved (c.1 * 16 + c.2) =
      s.fb (index g.width (x + c.2) (y + c.1)) := by
  have hsave : ∀ saved d, g.saveCell s.fb x y saved d = storeOption saved (some (d.1 * 16 + d.2,
      if g.OnScreen (x + d.2) (y + d.1) then s.fb (index g.width (x + d.2) (y + d.1)) else 0)) :=
    fun _ _ => rfl
  simp only [cursorGfxDraw]
  refine foldl_store_induction (P := fun v => v = s.fb (index g.width (x + c.2) (y + c.1)))
    hsave (fun d hd v hv => ?_) (.inr ⟨c, hc, _, rfl⟩)
  obtain ⟨hplace, rfl⟩ := Prod.mk.inj (Option.some.inj hv)
  -- The rounds have places of their own in `saved`.
  have hcell : d = c := by
    rw [mem_cells] at hc hd
    exact Prod.ext (by omega) (by omega)
  rw [hcell, if_pos hscreen]

/-- What a round of `cursor_gfx_erase` stores. -/
def erased (g : Geometry) (s : Screen) (c : Nat × Nat) : Option (UInt32 × UInt32) :=
  if g.OnScreen (s.savedX + c.2) (s.savedY + c.1) then
    some (index g.width (s.savedX + c.2) (s.savedY + c.1), s.saved (c.1 * 16 + c.2))
  else none

theorem eraseCell_eq (s : Screen) (fb : Framebuffer) (c : Nat × Nat) :
    g.eraseCell s fb c = storeOption fb (g.erased s c) := by
  rw [eraseCell, erased]
  split
  · rfl
  · rfl

theorem erased_eq_some {s : Screen} {c : Nat × Nat} {a v : UInt32}
    (h : g.erased s c = some (a, v)) :
    g.OnScreen (s.savedX + c.2) (s.savedY + c.1) ∧
      index g.width (s.savedX + c.2) (s.savedY + c.1) = a ∧ s.saved (c.1 * 16 + c.2) = v := by
  rw [erased] at h
  split at h
  · rename_i hscreen
    exact ⟨hscreen, Prod.mk.inj (Option.some.inj h)⟩
  · exact nomatch h

/-! ## Drawing and erasing -/

variable (s : Screen)

theorem erase_draw (hx : 0 ≤ x) : (g.cursorGfxErase (g.cursorGfxDraw s x y)).fb =
    cells.foldl (g.eraseCell (g.cursorGfxDraw s x y)) (g.cursorGfxDraw s x y).fb := by
  have hsaved : ¬ (g.cursorGfxDraw s x y).savedX < 0 := Int.not_lt.mpr hx
  rw [cursorGfxErase, if_neg hsaved]

/-- A word of the block is restored. -/
theorem restore_block (hx : 0 ≤ x) {c : Nat × Nat} (hc : c ∈ cells)
    (hscreen : g.OnScreen (x + c.2) (y + c.1)) :
    (g.cursorGfxErase (g.cursorGfxDraw s x y)).fb (index g.width (x + c.2) (y + c.1)) =
      s.fb (index g.width (x + c.2) (y + c.1)) := by
  have hstored : g.erased (g.cursorGfxDraw s x y) c =
      some (index g.width (x + c.2) (y + c.1),
        (g.cursorGfxDraw s x y).saved (c.1 * 16 + c.2)) := if_pos hscreen
  rw [erase_draw s hx]
  refine foldl_store_induction (P := fun v => v = s.fb (index g.width (x + c.2) (y + c.1)))
    (eraseCell_eq _) (fun d hd v hv => ?_) (.inr ⟨c, hc, _, hstored⟩)
  obtain ⟨hd', hindex, rfl⟩ := erased_eq_some hv
  exact (draw_saved hd hd' s).trans (congrArg s.fb hindex)

/-- A word outside the block stays as the arrow left it. -/
theorem restore_outside (hx : 0 ≤ x) {a : UInt32}
    (h : ∀ d ∈ cells, g.OnScreen (x + d.2) (y + d.1) → index g.width (x + d.2) (y + d.1) ≠ a) :
    (g.cursorGfxErase (g.cursorGfxDraw s x y)).fb a = (g.cursorGfxDraw s x y).fb a := by
  rw [erase_draw s hx]
  refine foldl_store_of_ne (eraseCell_eq _) (fun d hd v hv => ?_) _
  obtain ⟨hd', hindex, _⟩ := erased_eq_some hv
  exact h d hd hd' hindex

/-- At one position: the screen is restored, whatever it shows, exactly if the arrow stays
inside the block. -/
theorem restoredAt_iff (hx : 0 ≤ x) : g.RestoredAt x y ↔ g.Covered x y := by
  constructor
  · intro hrestored c hc hscreen hinked
    by_contra hnone
    -- A screen in neither of the colours of the arrow.
    have hcolour := draw_inked hc hscreen hinked ⟨fun _ => 0x808080, fun _ => 0, -1, -1⟩
    rw [← restore_outside _ hx fun d hd hd' hindex => hnone ⟨d, hd, hd', hindex⟩,
      hrestored] at hcolour
    have hgrey : ¬ Colour 0x808080 := by
      rw [Colour]
      decide
    exact hgrey hcolour
  · intro hcovered s
    funext a
    by_cases hblock : ∃ d ∈ cells, g.OnScreen (x + d.2) (y + d.1) ∧
        index g.width (x + d.2) (y + d.1) = a
    · obtain ⟨d, hd, hd', rfl⟩ := hblock
      exact restore_block s hx hd hd'
    · rw [restore_outside s hx fun d hd hd' hindex => hblock ⟨d, hd, hd', hindex⟩]
      refine draw_of_ne (fun c hc hscreen hinked hindex => hblock ?_) s
      obtain ⟨d, hd, hd', hsame⟩ := hcovered c hc hscreen hinked
      exact ⟨d, hd, hd', hsame.trans hindex⟩

/-! ## All positions -/

/-- With one stride the arrow is inside the block. -/
theorem covered_of_sameStride (h : g.pitchPx = g.width) (x y : Int) : g.Covered x y :=
  fun c hc hscreen _ => ⟨c, hc, hscreen, by rw [h]⟩

/-- In the first row the stride does not matter. -/
theorem covered_of_oneRow (h : g.height ≤ 1) (x y : Int) : g.Covered x y := by
  intro c hc hscreen _
  refine ⟨c, hc, hscreen, ?_⟩
  have hheight : g.height.toNat ≤ 1 := h
  obtain ⟨_, _, hlow, hhigh⟩ := hscreen
  rw [toInt_toInt32, if_pos (by omega)] at hhigh
  have hrow : y + c.1 = 0 := by omega
  have hzero : UInt32.ofInt 0 = 0 := rfl
  rw [index, index, hrow, hzero, UInt32.zero_mul, UInt32.zero_mul]

/-- A height that is negative as an `int` leaves nothing to draw. -/
theorem covered_of_negative (h : 2 ^ 31 ≤ g.height.toNat) (x y : Int) : g.Covered x y := by
  intro c hc hscreen _
  have hheight := g.height.toNat_lt
  obtain ⟨_, _, hlow, hhigh⟩ := hscreen
  rw [toInt_toInt32, if_neg (by omega)] at hhigh
  omega

/-- At the last pixel of a row only the column at the right edge is on the screen. -/
theorem index_of_covered (hwidth : 0 < g.width.toNat) (hwidth' : g.width.toNat < 2 ^ 31)
    (hheight : g.height.toNat < 2 ^ 31) {y : Nat} (hy : y < g.height.toNat)
    (h : g.Covered (g.width.toNat - 1) y) :
    ∃ k : Nat, y + k < g.height.toNat ∧
      UInt32.ofInt (y + k) * g.width = UInt32.ofInt y * g.pitchPx := by
  have hright : g.width.toInt32.toInt = g.width.toNat := by
    rw [toInt_toInt32, if_pos hwidth']
  have hbottom : g.height.toInt32.toInt = g.height.toNat := by
    rw [toInt_toInt32, if_pos hheight]
  obtain ⟨⟨k, j⟩, hd, ⟨_, hj, _, hk⟩, hindex⟩ := h (0, 0) (by decide)
    ⟨by simp only; omega, by simp only; omega, by simp only; omega, by simp only; omega⟩ inked_tip
  simp only [hright, hbottom] at hj hk hindex
  have hedge : j = 0 := by omega
  rw [hedge, index, index] at hindex
  refine ⟨k, by omega, ?_⟩
  simpa using hindex

/-- In two rows, and so in the last two, the arrow is inside the block only with one stride. -/
theorem sameStride_of_covered (hwidth : 0 < g.width.toNat) (hwidth' : g.width.toNat < 2 ^ 31)
    (hpitch : g.width ≤ g.pitchPx) (hheight : g.height.toNat < 2 ^ 31) (hrows : 2 ≤ g.height.toNat)
    (h : ∀ x y, g.HasPixel x y → g.Covered x y) : g.pitchPx = g.width := by
  obtain ⟨n, hn⟩ : ∃ n, g.height.toNat = n + 2 := ⟨g.height.toNat - 2, by omega⟩
  have hlast := index_of_covered (y := n + 1) hwidth hwidth' hheight (by omega)
    (h _ _ ⟨by omega, by omega, by omega, by omega⟩)
  have hbefore := index_of_covered (y := n) hwidth hwidth' hheight (by omega)
    (h _ _ ⟨by omega, by omega, by omega, by omega⟩)
  obtain ⟨i, hi, heq⟩ := hlast
  obtain ⟨k, hk, heq'⟩ := hbefore
  have hnext : UInt32.ofInt ((n + 1 : Nat) : Int) = UInt32.ofInt n + 1 := by
    rw [Int.natCast_succ, UInt32.ofInt_add]
    rfl
  obtain rfl : i = 0 := by omega
  rw [Int.natCast_zero, Int.add_zero, hnext] at heq
  rcases Nat.le_one_iff_eq_zero_or_eq_one.mp (show k ≤ 1 by omega) with rfl | rfl
  · rw [Int.natCast_zero, Int.add_zero] at heq'
    grind
  · -- Both rows would be the last row of the block, which is one pitch away from itself.
    have hsum : (n : Int) + (1 : Nat) = ((n + 1 : Nat) : Int) := by omega
    rw [hsum, hnext] at heq'
    have hzero : g.pitchPx = 0 := by grind
    rw [hzero] at hpitch
    have hnone : g.width.toNat ≤ 0 := hpitch
    omega

/-- At every position of a pixel the screen is restored exactly if the arrow stays inside the
block; and that is so at all of them exactly if the pitch is the width, or in the cases
where the stride is never used. -/
theorem restored_iff (pitch w h : UInt32) (hpitch : w ≤ pitch / 4) :
    (∀ x y, (graphicsInit pitch w h).HasPixel x y →
      ((graphicsInit pitch w h).RestoredAt x y ↔ (graphicsInit pitch w h).Covered x y)) ∧
    ((∀ x y, (graphicsInit pitch w h).HasPixel x y → (graphicsInit pitch w h).RestoredAt x y) ↔
      pitch / 4 = w ∨ h ≤ 1 ∨ w = 0 ∨ 2 ^ 31 ≤ h.toNat) := by
  have hwidth : w.toNat < 2 ^ 31 := by
    have hle : w.toNat ≤ pitch.toNat / 4 := hpitch
    have hbytes := pitch.toNat_lt
    omega
  refine ⟨fun x y hpixel => restoredAt_iff hpixel.1, ?_, ?_⟩
  · intro hrestored
    by_contra hcases
    simp only [not_or] at hcases
    obtain ⟨hstride, hrows, hnone, hlarge⟩ := hcases
    have hcovered : ∀ x y, (graphicsInit pitch w h).HasPixel x y →
        (graphicsInit pitch w h).Covered x y :=
      fun x y hpixel => (restoredAt_iff hpixel.1).mp (hrestored x y hpixel)
    refine hstride (sameStride_of_covered ?_ hwidth hpitch (Nat.lt_of_not_le hlarge) ?_ hcovered)
    · exact Nat.pos_of_ne_zero fun hzero => hnone (UInt32.toNat_inj.mp hzero)
    · exact UInt32.not_le.mp hrows
  · intro hcases x y hpixel
    refine (restoredAt_iff hpixel.1).mpr ?_
    rcases hcases with hstride | hrows | hnone | hlarge
    · exact covered_of_sameStride hstride x y
    · exact covered_of_oneRow hrows x y
    · obtain ⟨hlow, hhigh, _, _⟩ := hpixel
      have hempty : (graphicsInit pitch w h).width.toNat = 0 := by
        rw [graphicsInit, hnone]
        rfl
      omega
    · exact covered_of_negative hlarge x y

/-- A screen without padding. -/
theorem restored_iff_unpadded :
    (800 : UInt32) ≤ 3200 / 4 ∧
      ∀ x y, (graphicsInit 3200 800 600).HasPixel x y →
        (graphicsInit 3200 800 600).RestoredAt x y :=
  ⟨by decide, (restored_iff 3200 800 600 (by decide)).2.mpr (.inl (by decide))⟩

/-- A screen of 800 columns whose rows are 1024 words apart: the tip of the arrow is drawn
in word 1024 when it is in the second row, and no row of the block has that word. -/
theorem not_restored_padded :
    (graphicsInit 4096 800 600).HasPixel 0 1 ∧ ¬ (graphicsInit 4096 800 600).RestoredAt 0 1 := by
  have hoff : ∀ d ∈ cells, index 800 (0 + d.2) (1 + d.1) ≠ index 1024 0 1 := by
    decide +kernel
  refine ⟨⟨by decide, by decide, by decide, by decide⟩, fun hrestored => ?_⟩
  obtain ⟨d, hd, _, hindex⟩ := (restoredAt_iff (Int.le_refl 0)).mp hrestored (0, 0) (by decide)
    ⟨by decide, by decide, by decide, by decide⟩ inked_tip
  exact hoff d hd hindex

end Geometry

end FalastinOS.Gui
