/-
  Doom/Scene.lean --- `render_scene` and the loop of `doom_main` in `doom_wrapper.c`.

  A frame is painted in layers: ceiling and floor, for each ray a wall with two edges,
  then the weapon, the status bar and the map.  A small frame is painted in
  `frame_buffer` and copied to the screen, a large one on the screen itself.

  `scene_shown` says that neither the choice of the buffer nor anything that was drawn
  before is seen: after any keys the screen shows the layers for the place where the
  player is.  There is one row without a ceiling or a floor when the part of the screen
  above the status bar has an odd height, and that one is left out.

  The coordinates are computed here without overflow.  For screens whose sides are small
  enough for `col * FOV` and `game_h * 72` the machine computes the same.
-/
import FalastinOS.Doom.Canvas
import FalastinOS.Doom.Player
import FalastinOS.Foundation.Layers

set_option autoImplicit false

namespace FalastinOS.Doom

open FalastinOS.Foundation

/-! ## Drawing a frame -/

/-- Programs that draw into `draw_buffer`. -/
abbrev Draw : Type → Type := Painter Int UInt32 DrawFault

/-- `shade_color(color, dist)`. -/
def shadeColor (color : UInt32) (dist : Int) : UInt32 :=
  let shade := UInt32.ofInt (clampInt (255 - dist.tdiv 3) 48 255)
  let r := ((color >>> 16) &&& 0xFF) * shade / 255
  let g := ((color >>> 8) &&& 0xFF) * shade / 255
  let b := (color &&& 0xFF) * shade / 255
  (r <<< 16) ||| (g <<< 8) ||| b

namespace Frame

variable (f : Frame)

/-- `buf_fill_rect(x, y, w, h, color)`. -/
def fillRect (x y w h : Int) (color : UInt32) : Draw Unit := fun buffer =>
  (bufFillRect f (Int32.ofInt x) (Int32.ofInt y) (Int32.ofInt w) (Int32.ofInt h) color buffer).map
    fun drawn => ((), drawn)

/-- `game_h`. -/
def gameH : Int := f.drawH.toInt - 34

/-- `draw_weapon(fb_w, fb_h)`. -/
def drawWeapon : Draw Unit := do
  let baseY := f.drawH.toInt - 92
  let cx := f.drawW.toInt.tdiv 2
  f.fillRect (cx - 36) (baseY + 28) 72 64 0x2d2d2d
  f.fillRect (cx - 22) (baseY + 4) 44 52 0x555555
  f.fillRect (cx - 12) baseY 24 62 0x888888
  f.fillRect (cx - 5) (baseY - 10) 10 40 0xb8b8b8
  f.fillRect (cx - 34) (baseY + 34) 68 8 0x111111

/-- `draw_status_bar`; it does not use `health` and `ammo`. -/
def drawStatusBar : Draw Unit := do
  let barH := 34
  let y := f.drawH.toInt - barH
  f.fillRect 0 y f.drawW.toInt barH 0x3c3c3c
  f.fillRect 0 y f.drawW.toInt 2 0xb30000

/-- The colour of a cell in `draw_minimap`. -/
def cellColor (x y : Nat) : UInt32 :=
  if (doomMap.getD y "").toList.getD x ' ' = '1' then 0x777777 else 0x161616

/-- `draw_minimap(ox, oy)`. -/
def drawMinimap (p : Player) (ox oy : Int) : Draw Unit := do
  let scale := 4
  (List.range 16).forM fun y : Nat => (List.range 16).forM fun x : Nat =>
    f.fillRect (ox + x * scale) (oy + y * scale) (scale - 1) (scale - 1) (cellColor x y)
  f.fillRect (ox + fpShift p.x * scale - 1) (oy + fpShift p.y * scale - 1) 3 3 0xff2020

/-- What a round of the loop over the columns computes. -/
structure Wall where
  corrected : Int
  wallH : Int
  top : Int
  hitSide : Int

/-- The ray of a column, and the wall it hits. -/
def wallAt (p : Player) (col : Int) : Wall :=
  let rayAngle := wrapAngle (p.angle - Int.tdiv 60 2 + (col * 60).tdiv f.drawW.toInt)
  let ray := p.castRay rayAngle
  let corrected := fpShift (ray.dist * cosFixed (rayAngle - p.angle))
  let corrected := if corrected < 1 then 1 else corrected
  let wallH := (f.gameH * 72).tdiv corrected
  let wallH := if wallH > f.gameH then f.gameH else wallH
  ⟨corrected, wallH, (f.gameH - wallH).tdiv 2, ray.hitSide⟩

/-- The colours of a wall and of the lines at its ends. -/
def wallColor (w : Wall) : UInt32 :=
  shadeColor (if w.hitSide = 1 then 0x9a1616 else 0x751010) w.corrected

/-- The line at the upper end. -/
def ceilColor (w : Wall) : UInt32 := shadeColor 0x303850 (absInt (f.gameH.tdiv 2 - w.top))

/-- The line at the lower end. -/
def floorColor (w : Wall) : UInt32 :=
  shadeColor 0x3a2f23 (absInt (w.top + w.wallH - f.gameH.tdiv 2))

/-- A round of the loop over the columns. -/
def drawColumn (p : Player) (col : Int) : Draw Unit := do
  let w := f.wallAt p col
  f.fillRect col w.top 2 w.wallH (wallColor w)
  (if w.top > 0 then f.fillRect col w.top 2 1 (f.ceilColor w) else pure ())
  (if w.top + w.wallH < f.gameH then f.fillRect col (w.top + w.wallH) 2 1 (f.floorColor w)
    else pure ())

/-- `for (int col = 0; col < fb_w; col += RENDER_STEP)`. -/
def columns : List Int :=
  (List.range ((f.drawW.toInt.toNat + 1) / 2)).map fun i : Nat => 2 * (i : Int)

/-- `render_scene` between `frame_begin` and `frame_present`. -/
def drawScene (p : Player) : Draw Unit := do
  f.fillRect 0 0 f.drawW.toInt (f.gameH.tdiv 2) 0x303850
  f.fillRect 0 (f.gameH.tdiv 2) f.drawW.toInt (f.gameH.tdiv 2) 0x2b241d
  f.columns.forM (f.drawColumn p)
  f.drawWeapon
  f.drawStatusBar
  f.drawMinimap p 8 24

end Frame

/-- The words of the screen, and `frame_buffer`. -/
structure DoomVideo where
  fb : DrawBuffer
  frameBuffer : DrawBuffer

namespace Frame

variable (f : Frame)

/-- `draw_uses_backbuffer`. -/
def usesBackbuffer : Bool := f.drawW.toInt ≤ 800 ∧ f.drawH.toInt ≤ 600

/-- `frame_present(fb)` when the frame was drawn in `frame_buffer`. -/
def framePresent (drawn fb : DrawBuffer) : DrawBuffer := fun i =>
  if 0 ≤ i ∧ i < f.words then drawn i else fb i

/-- `render_scene` with either buffer as `draw_buffer`, up to the words on the status bar. -/
def renderIn (backbuffer : Bool) (p : Player) (v : DoomVideo) : Except DrawFault DoomVideo :=
  if backbuffer then do
    let drawn ← (f.drawScene p).run v.frameBuffer
    return { fb := f.framePresent drawn.2 v.fb, frameBuffer := drawn.2 }
  else do
    let drawn ← (f.drawScene p).run v.fb
    return { v with fb := drawn.2 }

/-- `render_scene()` up to the words on the status bar. -/
def renderScene (p : Player) (v : DoomVideo) : Except DrawFault DoomVideo :=
  f.renderIn f.usesBackbuffer p v

end Frame

/-- The state of the loop in `doom_main`. -/
structure DoomGame where
  player : Player
  video : DoomVideo
  running : Bool

namespace DoomGame

/-- A round of the loop with a key waiting; after a `break` there are no more. -/
def step (f : Frame) (backbuffer : Bool) (s : DoomGame) (key : Int) : Except DrawFault DoomGame :=
  if s.running then
    let (go, player) := s.player.handleKey key
    if go = 0 then .ok { s with player := player, running := false }
    else do
      let video ← f.renderIn backbuffer player s.video
      return { s with player := player, video := video }
  else .ok s

/-- `doom_main` up to its loop. -/
def start (f : Frame) (backbuffer : Bool) (v : DoomVideo) : Except DrawFault DoomGame := do
  let video ← f.renderIn backbuffer Player.start { v with fb := fun _ => 0 }
  return ⟨Player.start, video, true⟩

end DoomGame

/-! ## Rectangles as layers -/

namespace Frame

variable {f : Frame} {x y w h : Int} {color : UInt32}

/-- The words of a rectangle, as far as it is in the frame. -/
def rect (f : Frame) (x y w h : Int) (color : UInt32) : Layer Int UInt32 := fun i =>
  if (0 ≤ i ∧ i < f.words) ∧ (x ≤ i % f.drawW.toInt ∧ i % f.drawW.toInt < x + w) ∧
    y ≤ i / f.drawW.toInt ∧ i / f.drawW.toInt < y + h then some color else none

/-- A word of the frame is one of its pixels. -/
theorem visible_of_word {i : Int} (hi : 0 ≤ i ∧ i < f.words) :
    f.Visible (i % f.drawW.toInt) (i / f.drawW.toInt) ∧
      f.index (i % f.drawW.toInt) (i / f.drawW.toInt) = i := by
  have hw : 0 < f.drawW.toInt := by
    rcases Int.lt_or_eq_of_le f.drawW_nonneg with hpos | hzero
    · exact hpos
    · rw [words, ← hzero, Int.zero_mul] at hi
      omega
  refine ⟨⟨Int.emod_nonneg _ (Int.ne_of_gt hw), Int.emod_lt_of_pos _ hw,
    Int.ediv_nonneg hi.1 f.drawW_nonneg, ?_⟩, ?_⟩
  · exact Int.ediv_lt_of_lt_mul hw (by rw [Int.mul_comm]; exact hi.2)
  · rw [index, Int.mul_comm]
    exact Int.mul_ediv_add_emod i _

/-- The pixel of a word. -/
theorem index_div_mod (h : f.Visible x y) :
    f.index x y % f.drawW.toInt = x ∧ f.index x y / f.drawW.toInt = y := by
  obtain ⟨hx, hxw, _, _⟩ := h
  have hw : f.drawW.toInt ≠ 0 := by omega
  rw [index, Int.add_comm]
  refine ⟨?_, ?_⟩
  · rw [Int.add_mul_emod_self_right, Int.emod_eq_of_lt hx hxw]
  · rw [Int.add_mul_ediv_right _ _ hw, Int.ediv_eq_zero_of_lt hx hxw, Int.zero_add]

/-- The layer of a rectangle at a pixel. -/
theorem rect_index {px py : Int} (hvisible : f.Visible px py) :
    f.rect x y w h color (f.index px py) =
      if (x ≤ px ∧ px < x + w) ∧ y ≤ py ∧ py < y + h then some color else none := by
  obtain ⟨hmod, hdiv⟩ := index_div_mod hvisible
  rw [rect, hmod, hdiv]
  congr 1
  rw [eq_iff_iff]
  exact and_iff_right ⟨index_nonneg hvisible, index_lt_words hvisible⟩

/-- The words that `buf_fill_rect` stores in are those of the layer. -/
theorem filled_iff_rect (i : Int) :
    (∃ c ∈ clamped f x y w h, ∃ v, filled f color c = some (i, v)) ↔
      (f.rect x y w h color i).isSome := by
  have hrect : ∀ {c : Int × Int}, c ∈ rectangle x y w h ↔
      (x ≤ c.2 ∧ c.2 < x + w) ∧ y ≤ c.1 ∧ c.1 < y + h := by
    intro c
    rw [rectangle, List.mem_product, Int.mem_range_iff, Int.mem_range_iff, and_comm]
  constructor
  · rintro ⟨c, hc, v, hv⟩
    obtain ⟨hmem, hvisible⟩ := mem_clamped.mp hc
    obtain rfl : f.index c.2 c.1 = i := congrArg Prod.fst (Option.some.inj hv)
    rw [rect_index hvisible, if_pos (hrect.mp hmem), Option.isSome_some]
  · intro hsome
    rw [rect] at hsome
    split at hsome
    next hin =>
      obtain ⟨hvisible, hindex⟩ := visible_of_word hin.1
      exact ⟨(i / f.drawW.toInt, i % f.drawW.toInt),
        mem_clamped.mpr ⟨hrect.mpr hin.2, hvisible⟩, color,
        congrArg (fun i => some (i, color)) hindex⟩
    next => exact absurd hsome Bool.false_ne_true

/-- No coordinate is near the ends of the type. -/
abbrev Small (v : Int) : Prop := -2 ^ 30 ≤ v ∧ v < 2 ^ 30

theorem toInt_of_small {v : Int} (hv : Small v) : (Int32.ofInt v).toInt = v := by
  obtain ⟨hlow, hhigh⟩ := hv
  exact Int32.toInt_ofInt_of_le (by omega) (by omega)

theorem toInt_add_of_small {v v' : Int} (hv : Small v) (hv' : Small v') :
    (Int32.ofInt v + Int32.ofInt v').toInt = (Int32.ofInt v).toInt + (Int32.ofInt v').toInt := by
  have hlow := hv.1
  have hhigh := hv.2
  have hlow' := hv'.1
  have hhigh' := hv'.2
  rw [← toInt_of_small hv] at hlow hhigh
  rw [← toInt_of_small hv'] at hlow' hhigh'
  exact toInt_add_of_bounds (by omega) (by omega)

/-- `buf_fill_rect` paints a rectangle. -/
theorem paints_fillRect (hx : Small x) (hy : Small y) (hw : Small w) (hh : Small h) :
    Paints (f.fillRect x y w h color) [f.rect x y w h color] := by
  intro buffer
  have hfill := bufFillRect_eq f color buffer (toInt_add_of_small hx hw) (toInt_add_of_small hy hh)
  rw [toInt_of_small hx, toInt_of_small hy, toInt_of_small hw, toInt_of_small hh] at hfill
  have hdrawn : (clamped f x y w h).foldl (fun buffer c => storeOption buffer (filled f color c))
      buffer = paint [f.rect x y w h color] buffer := by
    funext i
    by_cases hcovered : ∃ c ∈ clamped f x y w h, ∃ v, filled f color c = some (i, v)
    · have hcolor : ∀ c ∈ clamped f x y w h, ∀ v, filled f color c = some (i, v) → v = color :=
        fun c _ v hv => (congrArg Prod.snd (Option.some.inj hv)).symm
      obtain ⟨v, hv⟩ := Option.isSome_iff_exists.mp ((filled_iff_rect i).mp hcovered)
      have hvcolor : v = color := by
        rw [rect] at hv
        split at hv
        next => exact (Option.some.inj hv).symm
        next => exact absurd hv.symm (Option.some_ne_none v)
      refine (foldl_store_induction (P := fun u => u = color) (fun _ _ => rfl) hcolor
        (.inr hcovered)).trans ?_
      show color = (f.rect x y w h color i).getD (buffer i)
      rw [hv, hvcolor, Option.getD_some]
    · have hnone : f.rect x y w h color i = none := by
        rw [← Option.not_isSome_iff_eq_none, ← filled_iff_rect]
        exact hcovered
      refine (foldl_store_of_ne (fun _ _ => rfl)
        (fun c hc v hv => hcovered ⟨c, hc, v, hv⟩) buffer).trans ?_
      show buffer i = (f.rect x y w h color i).getD (buffer i)
      rw [hnone, Option.getD_none]
  show (bufFillRect f _ _ _ _ color buffer).map _ = _
  rw [hfill, hdrawn]
  rfl

end Frame

/-! ## The layers of a frame -/

namespace Frame

variable (f : Frame) (p : Player)

/-- The layers of `draw_weapon`. -/
def weaponLayers : List (Layer Int UInt32) :=
  let baseY := f.drawH.toInt - 92
  let cx := f.drawW.toInt.tdiv 2
  [f.rect (cx - 36) (baseY + 28) 72 64 0x2d2d2d, f.rect (cx - 22) (baseY + 4) 44 52 0x555555,
    f.rect (cx - 12) baseY 24 62 0x888888, f.rect (cx - 5) (baseY - 10) 10 40 0xb8b8b8,
    f.rect (cx - 34) (baseY + 34) 68 8 0x111111]

/-- The layers of `draw_status_bar`. -/
def statusLayers : List (Layer Int UInt32) :=
  [f.rect 0 f.gameH f.drawW.toInt 34 0x3c3c3c, f.rect 0 f.gameH f.drawW.toInt 2 0xb30000]

/-- The layers of `draw_minimap` at its place on the screen. -/
def minimapLayers : List (Layer Int UInt32) :=
  ((List.range 16).flatMap fun y : Nat => (List.range 16).flatMap fun x : Nat =>
    [f.rect (8 + x * 4) (24 + y * 4) 3 3 (cellColor x y)]) ++
  [f.rect (8 + fpShift p.x * 4 - 1) (24 + fpShift p.y * 4 - 1) 3 3 0xff2020]

/-- The layers of a column. -/
def columnLayers (col : Int) : List (Layer Int UInt32) :=
  let w := f.wallAt p col
  [f.rect col w.top 2 w.wallH (wallColor w)] ++
    ((if w.top > 0 then [f.rect col w.top 2 1 (f.ceilColor w)] else []) ++
      if w.top + w.wallH < f.gameH then [f.rect col (w.top + w.wallH) 2 1 (f.floorColor w)] else [])

/-- The layers of `render_scene`. -/
def sceneLayers : List (Layer Int UInt32) :=
  [f.rect 0 0 f.drawW.toInt (f.gameH.tdiv 2) 0x303850] ++
    ([f.rect 0 (f.gameH.tdiv 2) f.drawW.toInt (f.gameH.tdiv 2) 0x2b241d] ++
      (f.columns.flatMap (f.columnLayers p) ++
        (f.weaponLayers ++ (f.statusLayers ++ f.minimapLayers p))))

/-- The colour of a pixel for where the player is. -/
def scene (x y : Int) : UInt32 := (flatten (f.sceneLayers p) (f.index x y)).getD 0

/-- The sides of the screen are small enough for the products in `render_scene`. -/
structure Moderate : Prop where
  width : f.drawW.toInt * 60 < 2 ^ 31
  height : f.drawH.toInt * 72 < 2 ^ 31

variable {f p}

theorem paints_drawWeapon (hf : f.Moderate) : Paints f.drawWeapon f.weaponLayers := by
  obtain ⟨hwidth, hheight⟩ := hf
  have hw := f.drawW_nonneg
  have hh := f.drawH_nonneg
  have hcx : f.drawW.toInt.tdiv 2 = f.drawW.toInt / 2 := Int.tdiv_eq_ediv_of_nonneg hw
  rw [drawWeapon, weaponLayers, hcx]
  refine (paints_fillRect ?_ ?_ ?_ ?_).andThen ((paints_fillRect ?_ ?_ ?_ ?_).andThen
    ((paints_fillRect ?_ ?_ ?_ ?_).andThen ((paints_fillRect ?_ ?_ ?_ ?_).andThen
      (paints_fillRect ?_ ?_ ?_ ?_)))) <;> omega

theorem paints_drawStatusBar (hf : f.Moderate) : Paints f.drawStatusBar f.statusLayers := by
  obtain ⟨hwidth, hheight⟩ := hf
  have hw := f.drawW_nonneg
  have hh := f.drawH_nonneg
  rw [drawStatusBar, statusLayers, gameH]
  refine (paints_fillRect ?_ ?_ ?_ ?_).andThen (paints_fillRect ?_ ?_ ?_ ?_) <;> omega

theorem paints_drawMinimap (hp : p.OffWalls) :
    Paints (f.drawMinimap p 8 24) (f.minimapLayers p) := by
  obtain ⟨⟨hx, hx'⟩, hy, hy'⟩ := inside_of_free hp.free
  have hcells : Paints ((List.range 16).forM fun y : Nat => (List.range 16).forM fun x : Nat =>
      f.fillRect (8 + x * 4) (24 + y * 4) (4 - 1) (4 - 1) (cellColor x y))
      ((List.range 16).flatMap fun y : Nat => (List.range 16).flatMap fun x : Nat =>
        [f.rect (8 + x * 4) (24 + y * 4) 3 3 (cellColor x y)]) := by
    refine paints_forM fun y hy => paints_forM fun x hx => ?_
    rw [List.mem_range] at hx hy
    exact paints_fillRect (by omega) (by omega) (by omega) (by omega)
  refine hcells.andThen (paints_fillRect ?_ ?_ (by omega) (by omega))
  · rw [fpShift_eq]
    omega
  · rw [fpShift_eq]
    omega

/-- What is known of the place of a wall. -/
theorem wallAt_bounds (hf : f.Moderate) (p : Player) (col : Int) :
    (-2448 ≤ (f.wallAt p col).wallH ∧ (f.wallAt p col).wallH < 2 ^ 27) ∧
      0 ≤ (f.wallAt p col).top ∧ (f.wallAt p col).top < 2 ^ 27 := by
  have hheight := hf.height
  have hh := f.drawH_nonneg
  have hgame : f.gameH = f.drawH.toInt - 34 := rfl
  have hplace : ∀ {wallH corrected : Int}, 1 ≤ corrected →
      wallH = (f.gameH * 72).tdiv corrected → ∀ {shown : Int},
      shown = (if wallH > f.gameH then f.gameH else wallH) →
      (-2448 ≤ shown ∧ shown < 2 ^ 27) ∧ 0 ≤ (f.gameH - shown).tdiv 2 ∧
        (f.gameH - shown).tdiv 2 < 2 ^ 27 := by
    intro wallH corrected hcorrected hwall shown hshown
    have hnonneg : 0 ≤ f.gameH → 0 ≤ wallH := fun h => by
      rw [hwall]
      exact Int.tdiv_nonneg (by omega) (by omega)
    have hlow : f.gameH < 0 → -2448 ≤ wallH := fun h => by
      have habs : wallH.natAbs ≤ (f.gameH * 72).natAbs := by
        rw [hwall]
        exact Int.natAbs_tdiv_le_natAbs _ _
      omega
    have hle : 0 ≤ f.gameH - shown := by
      rw [hshown]
      split <;> omega
    rw [Int.tdiv_eq_ediv_of_nonneg hle]
    rw [hshown] at hle ⊢
    split <;> omega
  refine hplace ?_ rfl rfl
  split <;> omega

theorem paints_drawColumn (hf : f.Moderate) (p : Player) {col : Int} (hcol : col ∈ f.columns) :
    Paints (f.drawColumn p col) (f.columnLayers p col) := by
  obtain ⟨⟨hlow, hhigh⟩, htop, htop'⟩ := wallAt_bounds hf p col
  have hwidth := hf.width
  have hw := f.drawW_nonneg
  obtain ⟨i, hi, rfl⟩ := List.mem_map.mp hcol
  rw [List.mem_range] at hi
  refine (paints_fillRect ?_ ?_ ?_ ?_).andThen
    ((paints_if fun _ => paints_fillRect ?_ ?_ ?_ ?_).andThen
      (paints_if fun _ => paints_fillRect ?_ ?_ ?_ ?_)) <;> omega

/-- `render_scene` paints the layers, without a store outside the frame. -/
theorem paints_drawScene (hf : f.Moderate) (hp : p.OffWalls) :
    Paints (f.drawScene p) (f.sceneLayers p) := by
  have hwidth := hf.width
  have hheight := hf.height
  have hw := f.drawW_nonneg
  have hh := f.drawH_nonneg
  have hhalf : Small (f.gameH.tdiv 2) := by
    have habs := Int.natAbs_tdiv_le_natAbs f.gameH 2
    rw [gameH] at habs ⊢
    omega
  exact (paints_fillRect (by omega) (by omega) (by omega) hhalf).andThen
    ((paints_fillRect (by omega) hhalf (by omega) hhalf).andThen
      ((paints_forM fun col hcol => paints_drawColumn hf p hcol).andThen
        ((paints_drawWeapon hf).andThen
          ((paints_drawStatusBar hf).andThen (paints_drawMinimap hp)))))

/-- Each pixel is under a layer, but for one row when the part of the screen above the status
bar has an odd height. -/
theorem covered {x y : Int} (hvisible : f.Visible x y)
    (hrow : f.gameH % 2 = 0 ∨ y ≠ f.gameH - 1) :
    ∃ l ∈ f.sceneLayers p, (l (f.index x y)).isSome := by
  obtain ⟨hx, hxw, hy, hyh⟩ := hvisible
  have hgame : f.gameH = f.drawH.toInt - 34 := rfl
  have hrect : ∀ {ry rh : Int} (color : UInt32), ry ≤ y → y < ry + rh →
      (f.rect 0 ry f.drawW.toInt rh color (f.index x y)).isSome := by
    intro ry rh color hlow hhigh
    rw [rect_index ⟨hx, hxw, hy, hyh⟩, if_pos ⟨⟨hx, by omega⟩, hlow, hhigh⟩, Option.isSome_some]
  by_cases hbar : f.gameH ≤ y
  · refine ⟨f.rect 0 f.gameH f.drawW.toInt 34 0x3c3c3c, ?_, hrect _ hbar (by omega)⟩
    simp [sceneLayers, statusLayers]
  · have hhalf : f.gameH.tdiv 2 = f.gameH / 2 := Int.tdiv_eq_ediv_of_nonneg (by omega)
    by_cases hceiling : y < f.gameH / 2
    · refine ⟨f.rect 0 0 f.drawW.toInt (f.gameH.tdiv 2) 0x303850, ?_, hrect _ hy (by omega)⟩
      simp [sceneLayers]
    · refine ⟨f.rect 0 (f.gameH.tdiv 2) f.drawW.toInt (f.gameH.tdiv 2) 0x2b241d, ?_,
        hrect _ (by omega) (by omega)⟩
      simp [sceneLayers]

/-! ## What the screen shows -/

/-- The pixels of the frame are those of the scene. -/
def Shows (f : Frame) (p : Player) (fb : DrawBuffer) : Prop :=
  ∀ x y, f.Visible x y → (f.gameH % 2 = 0 ∨ y ≠ f.gameH - 1) → fb (f.index x y) = f.scene p x y

/-- Painted over anything, the layers show the scene. -/
theorem shows_paint (buffer : DrawBuffer) : f.Shows p (paint (f.sceneLayers p) buffer) := by
  intro x y hvisible hrow
  have hsame : paint (f.sceneLayers p) buffer (f.index x y) =
      paint (f.sceneLayers p) (fun _ => 0) (f.index x y) :=
    paint_congr (.inl (covered hvisible hrow))
  exact hsame.trans (paint_eq_flatten _ _ _)

/-- Whichever buffer it is drawn in, the screen shows the scene. -/
theorem renderIn_shows (hf : f.Moderate) (hp : p.OffWalls) (backbuffer : Bool) (v : DoomVideo) :
    ∃ v', f.renderIn backbuffer p v = .ok v' ∧ f.Shows p v'.fb := by
  have hpaints := paints_drawScene hf hp
  cases backbuffer with
  | false =>
      refine ⟨{ v with fb := paint (f.sceneLayers p) v.fb }, ?_, shows_paint v.fb⟩
      rw [renderIn, if_neg Bool.false_ne_true, hpaints v.fb]
      rfl
  | true =>
      refine ⟨⟨f.framePresent (paint (f.sceneLayers p) v.frameBuffer) v.fb,
        paint (f.sceneLayers p) v.frameBuffer⟩, ?_, fun x y hvisible hrow => ?_⟩
      · rw [renderIn, if_pos rfl, hpaints v.frameBuffer]
        rfl
      · refine (if_pos ⟨index_nonneg hvisible, index_lt_words hvisible⟩).trans ?_
        exact shows_paint v.frameBuffer x y hvisible hrow

end Frame

namespace DoomGame

variable {f : Frame} {backbuffer : Bool}

/-- Only Escape ends the loop, and it does not move the player. -/
theorem handleKey_fst (p : Player) (key : Int) : (p.handleKey key).1 = 0 ↔ key = 27 := by
  rw [Player.handleKey]
  by_cases hescape : key = 27
  · rw [if_pos hescape]
    exact ⟨fun _ => hescape, fun _ => rfl⟩
  · rw [if_neg hescape]
    have hone : (1 : Int) ≠ 0 := by decide
    split_ifs <;> exact ⟨fun h => absurd h hone, fun h => absurd h hescape⟩

/-- Where the keys lead that are handled before an Escape. -/
def playerAfter (p : Player) : List Int → Player
  | [] => p
  | key :: rest => if key = 27 then p else playerAfter (p.handleKey key).2 rest

/-- What holds between two rounds of the loop. -/
structure Sound (f : Frame) (s : DoomGame) : Prop where
  offWalls : s.player.OffWalls
  shows : f.Shows s.player s.video.fb

variable {s : DoomGame}

theorem step_stopped (h : s.running = false) (key : Int) : s.step f backbuffer key = .ok s := by
  rw [step, h, if_neg Bool.false_ne_true]

theorem step_escape (h : s.running = true) :
    s.step f backbuffer 27 = .ok { s with running := false } := by
  rw [step, h]
  rfl

/-- Any other key is handled, and the scene is drawn again. -/
theorem Sound.step_key (hf : f.Moderate) (hs : Sound f s) (h : s.running = true) {key : Int}
    (hkey : key ≠ 27) : ∃ v, s.step f backbuffer key = .ok ⟨(s.player.handleKey key).2, v, true⟩ ∧
      Sound f ⟨(s.player.handleKey key).2, v, true⟩ := by
  have hoff : (s.player.handleKey key).2.OffWalls := (Player.handleKey_spec hs.offWalls key).1
  obtain ⟨v, hrender, hshows⟩ := Frame.renderIn_shows hf hoff backbuffer s.video
  refine ⟨v, ?_, hoff, hshows⟩
  have hgo := mt (handleKey_fst s.player key).mp hkey
  rw [step, if_pos h]
  generalize s.player.handleKey key = r at hgo hrender
  obtain ⟨go, player⟩ := r
  show (if go = 0 then _ else _) = _
  rw [if_neg hgo, hrender, ok_bind, h]
  rfl

theorem Sound.run (hf : f.Moderate) (keys : List Int) : ∀ {s : DoomGame}, Sound f s →
    ∃ s', Foundation.run (step f backbuffer) s keys = .ok s' ∧ Sound f s' ∧
      s'.player = if s.running then playerAfter s.player keys else s.player := by
  induction keys with
  | nil => exact fun {s} hs => ⟨s, rfl, hs, (ite_self _).symm⟩
  | cons key rest ih =>
      intro s hs
      have hgo : ∀ {next : DoomGame}, s.step f backbuffer key = .ok next → Sound f next →
          ∃ s', Foundation.run (step f backbuffer) s (key :: rest) = .ok s' ∧ Sound f s' ∧
            s'.player = if next.running then playerAfter next.player rest else next.player := by
        intro next hstep hnext
        obtain ⟨s', hrun, hs', hplayer⟩ := ih hnext
        refine ⟨s', ?_, hs', hplayer⟩
        rw [Foundation.run, hstep]
        exact hrun
      cases hrunning : s.running with
      | false =>
          have hstay := hgo (step_stopped hrunning key) hs
          rwa [hrunning] at hstay
      | true =>
          rw [if_pos rfl, playerAfter]
          by_cases hescape : key = 27
          · rw [if_pos hescape]
            rw [hescape] at hgo ⊢
            exact hgo (step_escape hrunning) ⟨hs.offWalls, hs.shows⟩
          · rw [if_neg hescape]
            obtain ⟨v, hstep, hnext⟩ := hs.step_key hf hrunning hescape
            exact hgo hstep hnext

end DoomGame

end FalastinOS.Doom
