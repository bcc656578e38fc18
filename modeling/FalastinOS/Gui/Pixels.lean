/-
  Gui/Pixels.lean --- pixels and glyphs: `graphics.c` and `font.c`.

  `put_pixel` takes two `int` and compares them as unsigned numbers, so a negative
  coordinate is one far to the right of or below the screen.  On a screen without padding
  between its rows every drawing is therefore that of a plane, cut off at the sides:
  `pixel_paint`, for a block of pixels anywhere near the screen.

  In the words of `Foundation/Layers.lean` a block of one colour is a layer over what the
  screen shows, `Geometry.view`.
-/
import FalastinOS.Foundation.Layers
import FalastinOS.Gui.Cursor

set_option autoImplicit false

namespace FalastinOS.Gui

open FalastinOS.Foundation

/-- `psf` and `glyphs` of `font.c`: the height of a glyph, and the bytes of all of them. -/
structure Font where
  charsize : UInt8
  glyphs : Mem

/-- `font_char_height()`. -/
def Font.charH (f : Font) : Nat := f.charsize.toNat

/-- Is the pixel of the glyph set? -/
def Font.ink (f : Font) (c : UInt8) (row col : Nat) : Bool :=
  f.glyphs (c.toNat * f.charH + row) &&& (0x80 >>> UInt8.ofNat col) ≠ 0

namespace Geometry

/-- The loops of `fill_rect` and `font_draw_char`: a block of pixels with its top left
corner at `(x, y)`, row by row. -/
def paint (g : Geometry) (fb : Framebuffer) (x y : Int) (rows cols : Nat)
    (color : Nat → Nat → UInt32) : Framebuffer :=
  (List.range rows ×ˢ List.range cols).foldl
    (fun fb c => g.putPixel fb (x + c.2) (y + c.1) (color c.1 c.2)) fb

/-- `fill_rect(x, y, w, h, color)`. -/
def fillRect (g : Geometry) (fb : Framebuffer) (x y w h : Int) (color : UInt32) : Framebuffer :=
  g.paint fb x y h.toNat w.toNat fun _ _ => color

/-- `fill_screen(color)`. -/
def fillScreen (g : Geometry) (fb : Framebuffer) (color : UInt32) : Framebuffer :=
  g.fillRect fb 0 0 g.width.toInt32.toInt g.height.toInt32.toInt color

/-- `font_draw_char(x, y, c, fg, bg)`. -/
def fontDrawChar (g : Geometry) (f : Font) (fb : Framebuffer) (x y : Int) (c : UInt8)
    (fg bg : UInt32) : Framebuffer :=
  g.paint fb x y f.charH 8 fun row col => if f.ink c row col then fg else bg

/-- `draw_rect_outline(x, y, w, h, color)`. -/
def drawRectOutline (g : Geometry) (fb : Framebuffer) (x y w h : Int) (color : UInt32) :
    Framebuffer :=
  let fb := (List.range w.toNat).foldl
    (fun fb (i : Nat) => g.putPixel (g.putPixel fb (x + i) y color) (x + i) (y + h - 1) color) fb
  (List.range h.toNat).foldl
    (fun fb (i : Nat) => g.putPixel (g.putPixel fb x (y + i) color) (x + w - 1) (y + i) color) fb

/-- The loop of `font_draw_string(x, y, str, fg, bg)`, at column `cx`. -/
def fontDrawString (g : Geometry) (f : Font) (x : Int) (fg bg : UInt32) :
    Framebuffer → Int → Int → List UInt8 → Framebuffer
  | fb, _, _, [] => fb
  | fb, cx, y, c :: rest =>
      if c = 10 then fontDrawString g f x fg bg fb x (y + f.charH) rest
      else fontDrawString g f x fg bg (g.fontDrawChar f fb cx y c fg bg) (cx + 8) y rest

/-- The pixel in column `x` and row `y`. -/
def pixel (g : Geometry) (fb : Framebuffer) (x y : Nat) : UInt32 := fb (index g.pitchPx x y)

end Geometry

/-! ## Screens without padding -/

namespace Geometry

/-- The rows of pixels follow each other without a gap. -/
structure Contiguous (g : Geometry) : Prop where
  pitch : g.pitchPx = g.width
  width_pos : 0 < g.width.toNat
  height_pos : 0 < g.height.toNat
  small : g.width.toNat * g.height.toNat < 2 ^ 31

variable {g : Geometry}

namespace Contiguous

theorem width_lt (hg : g.Contiguous) : g.width.toNat < 2 ^ 31 :=
  Nat.lt_of_le_of_lt (Nat.le_mul_of_pos_right _ hg.height_pos) hg.small

theorem height_lt (hg : g.Contiguous) : g.height.toNat < 2 ^ 31 :=
  Nat.lt_of_le_of_lt (Nat.le_mul_of_pos_left _ hg.width_pos) hg.small

theorem width_toInt (hg : g.Contiguous) : g.width.toInt32.toInt = g.width.toNat := by
  rw [toInt_toInt32, if_pos hg.width_lt]

theorem height_toInt (hg : g.Contiguous) : g.height.toInt32.toInt = g.height.toNat := by
  rw [toInt_toInt32, if_pos hg.height_lt]

end Contiguous

/-- The index of a pixel in a picture of `w` columns and `h` rows. -/
theorem linear_lt {w h x y : Nat} (hx : x < w) (hy : y < h) : y * w + x < w * h :=
  calc y * w + x < y * w + w := Nat.add_lt_add_left hx _
    _ = (y + 1) * w := (Nat.succ_mul _ _).symm
    _ ≤ h * w := Nat.mul_le_mul_right _ hy
    _ = w * h := Nat.mul_comm _ _

/-- Different pixels have different indices. -/
theorem linear_inj {w x y x' y' : Nat} (hx : x < w) (hx' : x' < w)
    (h : y * w + x = y' * w + x') : x = x' ∧ y = y' := by
  have hrow : y = y' := by
    have hdiv : (y * w + x) / w = (y' * w + x') / w := by rw [h]
    rwa [Nat.mul_comm y, Nat.mul_comm y', Nat.mul_add_div (by omega), Nat.mul_add_div (by omega),
      Nat.div_eq_of_lt hx, Nat.div_eq_of_lt hx', Nat.add_zero, Nat.add_zero] at hdiv
  subst hrow
  exact ⟨Nat.add_left_cancel h, rfl⟩

theorem toNat_ofInt_natCast {n : Nat} (h : n < 2 ^ 32) : (UInt32.ofInt (n : Int)).toNat = n := by
  rw [UInt32.ofInt, UInt32.toNat_ofNat']
  omega

/-- The index of a pixel of the screen is computed without overflow. -/
theorem toNat_index (hg : g.Contiguous) {x y : Nat} (hx : x < g.width.toNat)
    (hy : y < g.height.toNat) : (index g.pitchPx x y).toNat = y * g.width.toNat + x := by
  have hlinear := linear_lt hx hy
  have hsmall := hg.small
  have hxlt := hg.width_lt
  have hylt := hg.height_lt
  rw [index, hg.pitch, UInt32.toNat_add, UInt32.toNat_mul, toNat_ofInt_natCast (by omega),
    toNat_ofInt_natCast (by omega), Nat.mod_eq_of_lt (a := y * _) (by omega),
    Nat.mod_eq_of_lt (by omega)]

/-- The test of `put_pixel` on a side of the screen. -/
theorem ofInt_lt_iff {side : UInt32} (hside : side.toNat < 2 ^ 31) {v : Int} (hlow : -2 ^ 31 ≤ v)
    (hhigh : v < 2 ^ 32) : UInt32.ofInt v < side ↔ 0 ≤ v ∧ v < side.toNat := by
  rw [UInt32.lt_iff_toNat_lt, UInt32.ofInt, UInt32.toNat_ofNat']
  omega

/-- `put_pixel` sets one pixel, or none if it is not on the screen. -/
theorem pixel_putPixel (hg : g.Contiguous) (fb : Framebuffer) {x y : Nat} {px py : Int}
    (color : UInt32) (hx : x < g.width.toNat) (hy : y < g.height.toNat)
    (hpx : -2 ^ 31 ≤ px ∧ px < 2 ^ 32) (hpy : -2 ^ 31 ≤ py ∧ py < 2 ^ 32) :
    g.pixel (g.putPixel fb px py color) x y =
      if px = x ∧ py = y then color else g.pixel fb x y := by
  have htest := and_congr (ofInt_lt_iff hg.width_lt hpx.1 hpx.2)
    (ofInt_lt_iff hg.height_lt hpy.1 hpy.2)
  rw [putPixel]
  by_cases hin : (0 ≤ px ∧ px < g.width.toNat) ∧ 0 ≤ py ∧ py < g.height.toNat
  · obtain ⟨a, rfl⟩ := Int.eq_ofNat_of_zero_le hin.1.1
    obtain ⟨b, rfl⟩ := Int.eq_ofNat_of_zero_le hin.2.1
    have ha : a < g.width.toNat := Int.ofNat_lt.mp hin.1.2
    have hb : b < g.height.toNat := Int.ofNat_lt.mp hin.2.2
    rw [if_pos (htest.mpr hin), pixel]
    by_cases hsame : (a : Int) = x ∧ (b : Int) = y
    · rw [if_pos hsame, hsame.1, hsame.2, Function.update_self]
    · rw [if_neg hsame, Function.update_of_ne, pixel]
      intro hindex
      have hlinear := congrArg UInt32.toNat hindex
      rw [toNat_index hg hx hy, toNat_index hg ha hb] at hlinear
      obtain ⟨hax, hby⟩ := linear_inj hx ha hlinear
      exact hsame ⟨congrArg _ hax.symm, congrArg _ hby.symm⟩
  · rw [if_neg (mt htest.mp hin), if_neg]
    rintro ⟨rfl, rfl⟩
    exact hin ⟨⟨Int.natCast_nonneg x, Int.ofNat_lt.mpr hx⟩, Int.natCast_nonneg y,
      Int.ofNat_lt.mpr hy⟩

/-- A block of pixels has its colours, and the others are as they were. -/
theorem pixel_paint (hg : g.Contiguous) (fb : Framebuffer) {x y : Nat} {x₀ y₀ : Int} {h w : Nat}
    (color : Nat → Nat → UInt32) (hx : x < g.width.toNat) (hy : y < g.height.toNat)
    (hx₀ : -2 ^ 31 ≤ x₀ ∧ x₀ + w ≤ 2 ^ 32) (hy₀ : -2 ^ 31 ≤ y₀ ∧ y₀ + h ≤ 2 ^ 32) :
    g.pixel (g.paint fb x₀ y₀ h w color) x y =
      if (x₀ ≤ x ∧ x < x₀ + w) ∧ y₀ ≤ y ∧ y < y₀ + h then color (y - y₀).toNat (x - x₀).toNat
      else g.pixel fb x y := by
  have hcells : ∀ cells : List (Nat × Nat), (∀ c ∈ cells, c.1 < h ∧ c.2 < w) → ∀ fb,
      g.pixel (cells.foldl (fun fb c => g.putPixel fb (x₀ + c.2) (y₀ + c.1) (color c.1 c.2)) fb)
          x y =
        if x₀ ≤ x ∧ y₀ ≤ y ∧ ((y - y₀).toNat, (x - x₀).toNat) ∈ cells then
          color (y - y₀).toNat (x - x₀).toNat
        else g.pixel fb x y := by
    intro cells hbounds
    induction cells with
    | nil => exact fun fb => (if_neg (by simp)).symm
    | cons c rest ih =>
        intro fb
        rw [List.forall_mem_cons] at hbounds
        rw [List.foldl_cons, ih hbounds.2,
          pixel_putPixel hg fb _ hx hy (by omega) (by omega)]
        by_cases hrest : x₀ ≤ x ∧ y₀ ≤ y ∧ ((y - y₀).toNat, (x - x₀).toNat) ∈ rest
        · rw [if_pos hrest, if_pos ⟨hrest.1, hrest.2.1, List.mem_cons_of_mem _ hrest.2.2⟩]
        · rw [if_neg hrest]
          by_cases hhere : x₀ + c.2 = x ∧ y₀ + c.1 = y
          · have hrow : (y - y₀).toNat = c.1 := by omega
            have hcolumn : (x - x₀).toNat = c.2 := by omega
            rw [if_pos hhere, hrow, hcolumn,
              if_pos ⟨by omega, by omega, List.mem_cons_self⟩]
          · rw [if_neg hhere, if_neg]
            rintro ⟨hxle, hyle, hmem⟩
            rcases List.mem_cons.mp hmem with heq | hin
            · refine hhere ?_
              rw [← heq]
              exact ⟨by simp only; omega, by simp only; omega⟩
            · exact hrest ⟨hxle, hyle, hin⟩
  have hall : ∀ c ∈ List.range h ×ˢ List.range w, c.1 < h ∧ c.2 < w := by
    intro c hc
    exact ⟨List.mem_range.mp (List.mem_product.mp hc).1,
      List.mem_range.mp (List.mem_product.mp hc).2⟩
  rw [paint, hcells _ hall fb]
  congr 1
  rw [List.mem_product, List.mem_range, List.mem_range, eq_iff_iff]
  omega

/-! ## Blocks as layers -/

/-- The pixels of the screen, by column and row. -/
abbrev Pixel (g : Geometry) : Type := Fin g.width.toNat × Fin g.height.toNat

/-- What the screen shows. -/
def view (g : Geometry) (fb : Framebuffer) : g.Pixel → UInt32 := fun p => g.pixel fb p.1 p.2

/-- A pixel in a block of `w` columns and `h` rows. -/
def InBlock (x y w h : Int) (p : g.Pixel) : Prop :=
  (x ≤ p.1.val ∧ p.1.val < x + w) ∧ y ≤ p.2.val ∧ p.2.val < y + h

instance (x y w h : Int) (p : g.Pixel) : Decidable (InBlock x y w h p) :=
  inferInstanceAs (Decidable (_ ∧ _))

/-- The coordinates of a block are near the screen. -/
abbrev Near (start size : Int) : Prop := -2 ^ 31 ≤ start ∧ start + size ≤ 2 ^ 32 ∧ 0 ≤ size

/-- A filled block is a layer over what was there. -/
theorem view_fillRect (hg : g.Contiguous) (fb : Framebuffer) {x y w h : Int} (color : UInt32)
    (hx : Near x w) (hy : Near y h) :
    g.view (g.fillRect fb x y w h color) =
      Layer.over (region (InBlock x y w h) color) (g.view fb) := by
  funext p
  rw [view, fillRect, pixel_paint hg fb _ p.1.isLt p.2.isLt (by omega) (by omega)]
  rw [Int.toNat_of_nonneg hx.2.2, Int.toNat_of_nonneg hy.2.2, Layer.over, region]
  by_cases hin : InBlock x y w h p
  · rw [if_pos hin]
    exact if_pos hin
  · rw [if_neg hin]
    exact if_neg hin

/-- A glyph with its top left corner at `(x, y)`. -/
def glyphLayer (g : Geometry) (f : Font) (x y : Int) (c : UInt8) (fg bg : UInt32) :
    Layer g.Pixel UInt32 := fun p =>
  if InBlock x y 8 f.charH p then
    some (if f.ink c (p.2.val - y).toNat (p.1.val - x).toNat then fg else bg)
  else none

theorem view_fontDrawChar (hg : g.Contiguous) (f : Font) (fb : Framebuffer) {x y : Int} (c : UInt8)
    (fg bg : UInt32) (hx : Near x 8) (hy : Near y f.charH) :
    g.view (g.fontDrawChar f fb x y c fg bg) =
      (g.glyphLayer f x y c fg bg).over (g.view fb) := by
  funext p
  rw [view, fontDrawChar, pixel_paint hg fb _ p.1.isLt p.2.isLt (by omega) (by omega), Layer.over,
    glyphLayer]
  by_cases hin : InBlock x y 8 f.charH p
  · rw [if_pos hin]
    exact if_pos hin
  · rw [if_neg hin]
    exact if_neg hin

/-! ## Text -/

/-- The glyphs of a text that begins in column `cx`; a new line begins in column `x`. -/
def stringLayers (g : Geometry) (f : Font) (x : Int) (fg bg : UInt32) :
    Int → Int → List UInt8 → List (Layer g.Pixel UInt32)
  | _, _, [] => []
  | cx, y, c :: rest =>
      if c = 10 then stringLayers g f x fg bg x (y + f.charH) rest
      else g.glyphLayer f cx y c fg bg :: stringLayers g f x fg bg (cx + 8) y rest

/-- Layers that leave every point above row `y` as it is. -/
def Below (g : Geometry) (y : Int) (layers : List (Layer g.Pixel UInt32)) : Prop :=
  ∀ p : g.Pixel, p.2.val < y → ∀ l ∈ layers, l p = none

theorem Below.append {y : Int} {layers layers' : List (Layer g.Pixel UInt32)}
    (h : g.Below y layers) (h' : g.Below y layers') : g.Below y (layers ++ layers') :=
  fun p hp l hl => (List.mem_append.mp hl).elim (h p hp l) (h' p hp l)

theorem Below.paint {y : Int} {layers : List (Layer g.Pixel UInt32)} (h : g.Below y layers)
    {p : g.Pixel} (hp : p.2.val < y) (picture : g.Pixel → UInt32) :
    Foundation.paint layers picture p = picture p := paint_of_uncovered (h p hp)

theorem below_block {x y y' w h : Int} {color : UInt32} {above : List (Layer g.Pixel UInt32)}
    (hy : y ≤ y') (habove : g.Below y above) :
    g.Below y (region (InBlock x y' w h) color :: above) := by
  intro p hp l hl
  rcases List.mem_cons.mp hl with rfl | hrest
  · exact if_neg fun hin => by
      have hrow := hin.2.1
      omega
  · exact habove p hp l hrest

/-- No glyph of a text is above its first line. -/
theorem below_stringLayers {f : Font} {x : Int} {fg bg : UInt32} (s : List UInt8) :
    ∀ {cx y y' : Int}, y ≤ y' → g.Below y (g.stringLayers f x fg bg cx y' s) := by
  induction s with
  | nil => exact fun _ _ _ l hl => absurd hl List.not_mem_nil
  | cons c rest ih =>
      intro cx y y' hy p hp l hl
      rw [stringLayers] at hl
      split at hl
      next => exact ih (by omega) p hp l hl
      next =>
        rcases List.mem_cons.mp hl with rfl | hrest
        · exact if_neg fun hin => by
            have hrow := hin.2.1
            omega
        · exact ih hy p hp l hrest

theorem view_fontDrawString (hg : g.Contiguous) (f : Font) {x : Int} (fg bg : UInt32)
    (s : List UInt8) : ∀ {cx y : Int} {fb : Framebuffer}, Near x (8 * s.length) →
      Near cx (8 * s.length) → Near y (256 * s.length) →
      g.view (g.fontDrawString f x fg bg fb cx y s) =
        Foundation.paint (g.stringLayers f x fg bg cx y s) (g.view fb) := by
  have hsize : f.charH < 256 := f.charsize.toNat_lt
  induction s with
  | nil => exact fun _ _ _ => rfl
  | cons c rest ih =>
      intro cx y fb hx hcx hy
      rw [List.length_cons] at hx hcx hy
      rw [fontDrawString.eq_def, stringLayers]
      dsimp only
      split
      next => exact ih (by omega) (by omega) (by omega)
      next =>
        rw [ih (by omega) (by omega) (by omega), view_fontDrawChar hg f fb c fg bg (by omega)
          (by omega)]
        rfl

/-! ## Drawings inside a block -/

/-- A drawing that changes only pixels of `R`, and these only to colours of `C`. -/
def Inks (g : Geometry) (R : g.Pixel → Prop) (C : UInt32 → Prop)
    (op : Framebuffer → Framebuffer) : Prop :=
  ∀ fb p, g.view (op fb) p = g.view fb p ∨ R p ∧ C (g.view (op fb) p)

section Inks

variable {R : g.Pixel → Prop} {C : UInt32 → Prop} {op op' : Framebuffer → Framebuffer}

theorem Inks.andThen (h : Inks g R C op) (h' : Inks g R C op') :
    Inks g R C fun fb => op' (op fb) := by
  intro fb p
  rcases h' (op fb) p with hsame | hinked
  · rw [hsame]
    exact h fb p
  · exact .inr hinked

theorem inks_foldl {ι : Type} {op : Framebuffer → ι → Framebuffer} {items : List ι}
    (h : ∀ i ∈ items, Inks g R C fun fb => op fb i) : Inks g R C fun fb => items.foldl op fb := by
  induction items with
  | nil => exact fun fb p => .inl rfl
  | cons i rest ih =>
      rw [List.forall_mem_cons] at h
      exact h.1.andThen (ih h.2)

variable {a b w h : Int}

theorem inks_putPixel (hg : g.Contiguous) (hnear : Near a w ∧ Near b h) {x y : Int} {color : UInt32}
    (hx : a ≤ x ∧ x < a + w) (hy : b ≤ y ∧ y < b + h) (hcolor : C color) :
    Inks g (InBlock a b w h) C fun fb => g.putPixel fb x y color := by
  intro fb p
  have hpixel := pixel_putPixel hg fb color p.1.isLt p.2.isLt
    (show -2 ^ 31 ≤ x ∧ x < 2 ^ 32 by omega) (show -2 ^ 31 ≤ y ∧ y < 2 ^ 32 by omega)
  by_cases hhere : x = p.1 ∧ y = p.2
  · rw [if_pos hhere] at hpixel
    refine .inr ⟨?_, ?_⟩
    · rw [InBlock]
      omega
    · rw [view, hpixel]
      exact hcolor
  · rw [if_neg hhere] at hpixel
    exact .inl hpixel

/-- Blocks, outlines and text with their corners inside. -/
theorem inks_paint (hg : g.Contiguous) (hnear : Near a w ∧ Near b h) {x y : Int} {rows cols : Nat}
    {color : Nat → Nat → UInt32} (hx : a ≤ x ∧ x + cols ≤ a + w) (hy : b ≤ y ∧ y + rows ≤ b + h)
    (hcolor : ∀ row col, C (color row col)) :
    Inks g (InBlock a b w h) C fun fb => g.paint fb x y rows cols color := by
  refine inks_foldl fun c hc => ?_
  have hrow := List.mem_range.mp (List.mem_product.mp hc).1
  have hcol := List.mem_range.mp (List.mem_product.mp hc).2
  exact inks_putPixel hg hnear (by omega) (by omega) (hcolor _ _)

theorem inks_fillRect (hg : g.Contiguous) (hnear : Near a w ∧ Near b h) {x y cols rows : Int}
    {color : UInt32} (hx : a ≤ x ∧ x + cols ≤ a + w ∧ 0 ≤ cols)
    (hy : b ≤ y ∧ y + rows ≤ b + h ∧ 0 ≤ rows) (hcolor : C color) :
    Inks g (InBlock a b w h) C fun fb => g.fillRect fb x y cols rows color :=
  inks_paint hg hnear (by omega) (by omega) fun _ _ => hcolor

theorem inks_drawRectOutline (hg : g.Contiguous) (hnear : Near a w ∧ Near b h)
    {x y cols rows : Int} {color : UInt32} (hx : a ≤ x ∧ x + cols ≤ a + w ∧ 0 < cols)
    (hy : b ≤ y ∧ y + rows ≤ b + h ∧ 0 < rows) (hcolor : C color) :
    Inks g (InBlock a b w h) C fun fb => g.drawRectOutline fb x y cols rows color := by
  refine (inks_foldl fun i hi => ?_).andThen (inks_foldl fun i hi => ?_)
  · have hi' := List.mem_range.mp hi
    exact (inks_putPixel hg hnear (by omega) (by omega) hcolor).andThen
      (inks_putPixel hg hnear (by omega) (by omega) hcolor)
  · have hi' := List.mem_range.mp hi
    exact (inks_putPixel hg hnear (by omega) (by omega) hcolor).andThen
      (inks_putPixel hg hnear (by omega) (by omega) hcolor)

theorem inks_fontDrawChar (hg : g.Contiguous) (hnear : Near a w ∧ Near b h) {f : Font} {x y : Int}
    {fg bg : UInt32} (hx : a ≤ x ∧ x + 8 ≤ a + w) (hy : b ≤ y ∧ y + f.charH ≤ b + h) (hfg : C fg)
    (hbg : C bg) (c : UInt8) :
    Inks g (InBlock a b w h) C fun fb => g.fontDrawChar f fb x y c fg bg := by
  refine inks_paint hg hnear (by omega) (by omega) fun row col => ?_
  split
  · exact hfg
  · exact hbg

/-- A line of text. -/
theorem inks_fontDrawString (hg : g.Contiguous) (hnear : Near a w ∧ Near b h) {f : Font}
    {x y : Int} {fg bg : UInt32} (hy : b ≤ y ∧ y + f.charH ≤ b + h) (hfg : C fg) (hbg : C bg)
    (s : List UInt8) (hs : (10 : UInt8) ∉ s) :
    ∀ {cx : Int}, a ≤ cx ∧ cx + 8 * s.length ≤ a + w →
      Inks g (InBlock a b w h) C fun fb => g.fontDrawString f x fg bg fb cx y s := by
  induction s with
  | nil => exact fun _ fb p => .inl rfl
  | cons c rest ih =>
      intro cx hcx
      rw [List.mem_cons, not_or] at hs
      rw [List.length_cons] at hcx
      have hop : (fun fb => g.fontDrawString f x fg bg fb cx y (c :: rest)) = fun fb =>
          g.fontDrawString f x fg bg (g.fontDrawChar f fb cx y c fg bg) (cx + 8) y rest := by
        funext fb
        rw [fontDrawString, if_neg (Ne.symm hs.1)]
      rw [hop]
      exact (inks_fontDrawChar hg hnear (by omega) hy hfg hbg c).andThen
        (ih hs.2 (by omega))

end Inks

end Geometry

end FalastinOS.Gui
