/-
  Doom/Canvas.lean --- drawing into `draw_buffer` in `doom_wrapper.c`.

  `buf_put_pixel` tests every pixel; `buf_fill_rect` clamps the four edges once and then
  stores without a test.  `bufFillRect_eq_pixelByPixel` says that the two draw the same
  and that neither stores outside the buffer, also for rectangles that begin left of or
  above the frame, that are empty, or of which nothing is visible.

  The index `py * draw_w + px` is computed here without overflow.  A buffer of
  `draw_w * draw_h` words is at most `2 ^ 30` words, and in one that is at most
  `2 ^ 31` words the machine computes the same index: `Frame.toInt_index`.
-/
import FalastinOS.Foundation.Execution
import FalastinOS.Foundation.Memory
import Mathlib.Data.Int.Range

set_option autoImplicit false

namespace FalastinOS.Doom

open FalastinOS.Foundation

/-- `draw_w` and `draw_h`. -/
structure Frame where
  drawW : Int32
  drawH : Int32
  drawW_nonneg : 0 ≤ drawW.toInt
  drawH_nonneg : 0 ≤ drawH.toInt

/-- `draw_buffer`. -/
abbrev DrawBuffer : Type := Int → UInt32

/-- A store at an index that the buffer does not have. -/
inductive DrawFault where
  | index (i : Int)

namespace Frame

variable (f : Frame)

/-- How many words the buffer has. -/
def words : Int := f.drawW.toInt * f.drawH.toInt

/-- `y * draw_w + x`. -/
def index (x y : Int) : Int := y * f.drawW.toInt + x

/-- The test of `buf_put_pixel`. -/
def Visible (x y : Int) : Prop := 0 ≤ x ∧ x < f.drawW.toInt ∧ 0 ≤ y ∧ y < f.drawH.toInt

instance (x y : Int) : Decidable (f.Visible x y) := inferInstanceAs (Decidable (_ ∧ _))

/-- `draw_buffer[i] = color`. -/
def store (i : Int) (color : UInt32) (buffer : DrawBuffer) : Except DrawFault DrawBuffer :=
  if 0 ≤ i ∧ i < f.words then .ok (Function.update buffer i color) else .error (.index i)

end Frame

/-- `clamp_int(v, lo, hi)`. -/
def clampInt (v lo hi : Int) : Int := if v < lo then lo else if v > hi then hi else v

/-- `buf_put_pixel(x, y, color)`. -/
def bufPutPixel (f : Frame) (x y : Int) (color : UInt32) (buffer : DrawBuffer) :
    Except DrawFault DrawBuffer :=
  if f.Visible x y then f.store (f.index x y) color buffer else .ok buffer

/-- `buf_fill_rect(x, y, w, h, color)`. -/
def bufFillRect (f : Frame) (x y w h : Int32) (color : UInt32) (buffer : DrawBuffer) :
    Except DrawFault DrawBuffer :=
  let x0 := clampInt x.toInt 0 f.drawW.toInt
  let y0 := clampInt y.toInt 0 f.drawH.toInt
  let x1 := clampInt (x + w).toInt 0 f.drawW.toInt
  let y1 := clampInt (y + h).toInt 0 f.drawH.toInt
  (Int.range y0 y1).foldlM (fun row py =>
    (Int.range x0 x1).foldlM (fun buffer px => f.store (f.index px py) color buffer) row) buffer

/-- `buf_put_pixel` for every pixel of a rectangle. -/
def pixelByPixel (f : Frame) (x y w h : Int) (color : UInt32) (buffer : DrawBuffer) :
    Except DrawFault DrawBuffer :=
  (Int.range y (y + h)).foldlM (fun row py =>
    (Int.range x (x + w)).foldlM (fun buffer px => bufPutPixel f px py color buffer) row) buffer

/-! ## Indices -/

namespace Frame

variable {f : Frame} {x y : Int}

theorem index_nonneg (h : f.Visible x y) : 0 ≤ f.index x y :=
  Int.add_nonneg (Int.mul_nonneg h.2.2.1 f.drawW_nonneg) h.1

theorem index_lt_words (h : f.Visible x y) : f.index x y < f.words := by
  obtain ⟨_, hx, _, hy⟩ := h
  calc f.index x y < y * f.drawW.toInt + f.drawW.toInt := Int.add_lt_add_left hx _
    _ = (y + 1) * f.drawW.toInt := by ring
    _ ≤ f.drawH.toInt * f.drawW.toInt := Int.mul_le_mul_of_nonneg_right hy f.drawW_nonneg
    _ = f.words := Int.mul_comm _ _

theorem store_visible (h : f.Visible x y) (color : UInt32) (buffer : DrawBuffer) :
    f.store (f.index x y) color buffer = .ok (Function.update buffer (f.index x y) color) :=
  if_pos ⟨index_nonneg h, index_lt_words h⟩

/-- In a buffer that can exist the computation of an index does not overflow. -/
theorem toInt_index (hwords : f.words ≤ 2 ^ 31) (h : f.Visible x y) :
    (Int32.ofInt y * f.drawW + Int32.ofInt x).toInt = f.index x y := by
  have hlow := index_nonneg h
  have hhigh := index_lt_words h
  have hword : Int32.ofInt y * f.drawW + Int32.ofInt x = Int32.ofInt (f.index x y) := by
    rw [Frame.index, Int32.ofInt_add, Int32.ofInt_mul, Int32.ofInt_toInt]
  rw [hword, Int32.toInt_ofInt_of_le (by omega) (by omega)]

end Frame

/-! ## The two ways to draw -/

/-- Clamped edges keep exactly the visible part of a range. -/
theorem clampInt_range (v lo hi : Int) {size : Int} (hsize : 0 ≤ size) :
    clampInt lo 0 size ≤ v ∧ v < clampInt hi 0 size ↔ (lo ≤ v ∧ v < hi) ∧ 0 ≤ v ∧ v < size := by
  unfold clampInt
  split_ifs <;> omega

section Rectangle

variable (f : Frame) (x y w h : Int)

/-- The pixels of a rectangle, row by row. -/
def rectangle : List (Int × Int) := Int.range y (y + h) ×ˢ Int.range x (x + w)

/-- The pixels between the clamped edges, row by row. -/
def clamped : List (Int × Int) :=
  Int.range (clampInt y 0 f.drawH.toInt) (clampInt (y + h) 0 f.drawH.toInt) ×ˢ
    Int.range (clampInt x 0 f.drawW.toInt) (clampInt (x + w) 0 f.drawW.toInt)

variable {f x y w h}

theorem mem_clamped {c : Int × Int} :
    c ∈ clamped f x y w h ↔ c ∈ rectangle x y w h ∧ f.Visible c.2 c.1 := by
  have hrow := clampInt_range c.1 y (y + h) f.drawH_nonneg
  have hcolumn := clampInt_range c.2 x (x + w) f.drawW_nonneg
  rw [clamped, rectangle, List.mem_product, List.mem_product, Int.mem_range_iff,
    Int.mem_range_iff, Int.mem_range_iff, Int.mem_range_iff, hrow, hcolumn, Frame.Visible]
  constructor
  · rintro ⟨⟨hy, htop, hbottom⟩, hx, hleft, hright⟩
    exact ⟨⟨hy, hx⟩, hleft, hright, htop, hbottom⟩
  · rintro ⟨⟨hy, hx⟩, hleft, hright, htop, hbottom⟩
    exact ⟨⟨hy, htop, hbottom⟩, hx, hleft, hright⟩

end Rectangle

/-- What one round of `buf_fill_rect` stores. -/
def filled (f : Frame) (color : UInt32) (c : Int × Int) : Option (Int × UInt32) :=
  some (f.index c.2 c.1, color)

/-- What `buf_put_pixel` stores. -/
def putPixel (f : Frame) (color : UInt32) (c : Int × Int) : Option (Int × UInt32) :=
  if f.Visible c.2 c.1 then some (f.index c.2 c.1, color) else none

theorem bufPutPixel_eq (f : Frame) (color : UInt32) (buffer : DrawBuffer) (c : Int × Int) :
    bufPutPixel f c.2 c.1 color buffer = .ok (storeOption buffer (putPixel f color c)) := by
  unfold bufPutPixel putPixel
  split
  next hvisible => exact Frame.store_visible hvisible color buffer
  next => rfl

theorem pixelByPixel_eq (f : Frame) (x y w h : Int) (color : UInt32) (buffer : DrawBuffer) :
    pixelByPixel f x y w h color buffer = .ok ((rectangle x y w h).foldl
      (fun buffer c => storeOption buffer (putPixel f color c)) buffer) := by
  have hround : ∀ buffer, ∀ c ∈ rectangle x y w h, bufPutPixel f c.2 c.1 color buffer =
      .ok (storeOption buffer (putPixel f color c)) :=
    fun buffer c _ => bufPutPixel_eq f color buffer c
  have hloop := foldlM_nested_ok hround buffer
  exact hloop

theorem bufFillRect_eq (f : Frame) {x y w h : Int32} (color : UInt32) (buffer : DrawBuffer)
    (hx : (x + w).toInt = x.toInt + w.toInt) (hy : (y + h).toInt = y.toInt + h.toInt) :
    bufFillRect f x y w h color buffer = .ok ((clamped f x.toInt y.toInt w.toInt h.toInt).foldl
      (fun buffer c => storeOption buffer (filled f color c)) buffer) := by
  have hround : ∀ buffer, ∀ c ∈ clamped f x.toInt y.toInt w.toInt h.toInt,
      f.store (f.index c.2 c.1) color buffer = .ok (storeOption buffer (filled f color c)) :=
    fun buffer c hc => Frame.store_visible (mem_clamped.mp hc).2 color buffer
  have hloop := foldlM_nested_ok hround buffer
  rw [bufFillRect, hx, hy]
  exact hloop

/-- Both ways store the colour at the same indices. -/
theorem filled_iff_putPixel (f : Frame) (x y w h : Int) (color : UInt32) (i : Int) :
    (∃ c ∈ clamped f x y w h, ∃ v, filled f color c = some (i, v)) ↔
      ∃ c ∈ rectangle x y w h, ∃ v, putPixel f color c = some (i, v) := by
  constructor
  · rintro ⟨c, hc, v, hv⟩
    obtain ⟨hrectangle, hvisible⟩ := mem_clamped.mp hc
    exact ⟨c, hrectangle, v, (if_pos hvisible).trans hv⟩
  · rintro ⟨c, hc, v, hv⟩
    unfold putPixel at hv
    split at hv
    next hvisible => exact ⟨c, mem_clamped.mpr ⟨hc, hvisible⟩, v, hv⟩
    next => exact nomatch hv

/-- `buf_fill_rect` leaves the buffer as `buf_put_pixel` for every pixel of the rectangle
does, and neither stores outside it. -/
theorem bufFillRect_eq_pixelByPixel (f : Frame) (x y w h : Int32) (color : UInt32)
    (buffer : DrawBuffer)
    (hx : -2 ^ 31 ≤ x.toInt + w.toInt ∧ x.toInt + w.toInt < 2 ^ 31)
    (hy : -2 ^ 31 ≤ y.toInt + h.toInt ∧ y.toInt + h.toInt < 2 ^ 31) :
    ∃ drawn, bufFillRect f x y w h color buffer = .ok drawn ∧
      pixelByPixel f x.toInt y.toInt w.toInt h.toInt color buffer = .ok drawn := by
  have hfill := bufFillRect_eq f color buffer (toInt_add_of_bounds hx.1 hx.2)
    (toInt_add_of_bounds hy.1 hy.2)
  have hput := pixelByPixel_eq f x.toInt y.toInt w.toInt h.toInt color buffer
  refine ⟨_, hfill, hput.trans (congrArg Except.ok ?_)⟩
  refine (foldl_store_eq (fun _ _ => rfl) (fun _ _ => rfl) (v := color) ?_ ?_
    (filled_iff_putPixel f _ _ _ _ color) buffer).symm
  · rintro c - v hv
    rw [← Option.some.inj hv]
  · intro c _ v hv
    unfold putPixel at hv
    split at hv
    next => rw [← Option.some.inj hv]
    next => exact nomatch hv

/-- A frame of four by three. -/
def smallFrame : Frame := ⟨4, 3, by decide, by decide⟩

theorem bufFillRect_eq_pixelByPixel_corner :
    ∃ drawn, bufFillRect smallFrame (-2) (-1) 3 9 7 (fun _ => 0) = .ok drawn ∧
      pixelByPixel smallFrame (-2) (-1) 3 9 7 (fun _ => 0) = .ok drawn :=
  bufFillRect_eq_pixelByPixel smallFrame (-2) (-1) 3 9 7 (fun _ => 0) (by decide) (by decide)

end FalastinOS.Doom
