/-
  Gui/Icons.lean --- the program manager: what is drawn and what a click starts.

  `draw_progman` draws four icons and writes down where; `find_icon_click` looks a click up
  in what was written down, perhaps much later.  Each icon is a square that nothing drawn for
  it leaves (`Geometry.Inks`), and no pixel of it has the colour of the background.

  `icons_seen` says that in every run of the desktop a click in the program manager starts a
  program exactly where an icon is to be seen: dragging the window, other programs started in
  it and windows closed and opened in its slot leave the two in step.
-/
import FalastinOS.Gui.Pixels
import FalastinOS.Gui.Stacking

set_option autoImplicit false

namespace FalastinOS.Gui

open FalastinOS.Foundation

/-! ## Drawing -/

/-- `icons[k].name`. -/
def iconName : Fin 4 → List UInt8
  | 0 => text "Terminal"
  | 1 => text "Files"
  | 2 => text "Editor"
  | 3 => text "DOOM"

/-- `icons[k].x` and `icons[k].y` when the client area is at `(x, y)`. -/
def iconPlace (x y : Int) (k : Fin 4) : Int × Int :=
  (x + 20 + (k.val % 5 : Nat) * 80 + 10, y + 20 + (k.val / 5 : Nat) * 80 + 10)

section Code

variable (g : Geometry) (f : Font)

/-- `draw_terminal_icon(x, y)`. -/
def drawTerminalIcon (fb : Framebuffer) (x y : Int) : Framebuffer :=
  let fb := g.fillRect fb (x + 17) (y + 12) 46 34 0x050505
  let fb := g.drawRectOutline fb (x + 17) (y + 12) 46 34 0x66DD88
  g.fontDrawString f (x + 24) 0x66DD88 0x050505 fb (x + 24) (y + 22) (text ">_")

/-- `draw_files_icon(x, y)`. -/
def drawFilesIcon (fb : Framebuffer) (x y : Int) : Framebuffer :=
  let fb := g.fillRect fb (x + 16) (y + 18) 48 32 0xD6A84A
  let fb := g.fillRect fb (x + 16) (y + 12) 24 10 0xF0C46B
  g.drawRectOutline fb (x + 16) (y + 18) 48 32 0x7A5420

/-- `draw_editor_icon(x, y)`. -/
def drawEditorIcon (fb : Framebuffer) (x y : Int) : Framebuffer :=
  let fb := g.fillRect fb (x + 21) (y + 10) 34 44 0xEEEEEE
  let fb := g.drawRectOutline fb (x + 21) (y + 10) 34 44 0x333333
  let fb := g.fillRect fb (x + 27) (y + 20) 22 2 0x333333
  let fb := g.fillRect fb (x + 27) (y + 28) 22 2 0x333333
  let fb := g.fillRect fb (x + 27) (y + 36) 16 2 0x333333
  let fb := g.fillRect fb (x + 51) (y + 38) 14 5 0xF0C000
  g.fillRect fb (x + 62) (y + 36) 4 9 0x333333

/-- `draw_doom_icon(x, y)`. -/
def drawDoomIcon (fb : Framebuffer) (x y : Int) : Framebuffer :=
  let fb := g.fillRect fb (x + 16) (y + 14) 48 34 0x601010
  let fb := g.drawRectOutline fb (x + 16) (y + 14) 48 34 0xD05030
  let fb := g.fillRect fb (x + 25) (y + 24) 30 12 0x202020
  let fb := g.fillRect fb (x + 36) (y + 18) 8 24 0xC0C0C0
  g.fillRect fb (x + 31) (y + 37) 18 8 0x505050

/-- `draw_icon_graphic(idx, x, y)`. -/
def drawIconGraphic (k : Fin 4) (fb : Framebuffer) (x y : Int) : Framebuffer :=
  match k with
  | 0 => drawTerminalIcon g f fb x y
  | 1 => drawFilesIcon g fb x y
  | 2 => drawEditorIcon g fb x y
  | 3 => drawDoomIcon g fb x y

/-- The column in which a name begins, below an icon in column `x`. -/
def labelX (x : Int) (name : List UInt8) : Int :=
  let label := x + (80 - name.length * 8 : Int).tdiv 2
  if label < x + 2 then x + 2 else label

/-- A round of the loop of `draw_progman`, for an icon at `(x, y)`. -/
def drawIcon (k : Fin 4) (fb : Framebuffer) (x y : Int) : Framebuffer :=
  let fb := g.fillRect fb x y 80 80 0x1B2A31
  let fb := g.drawRectOutline fb x y 80 80 0x8DB9C7
  let fb := drawIconGraphic g f k fb x y
  let label := labelX x (iconName k)
  g.fontDrawString f label 0xFFFFFF 0x1B2A31 fb label (y + 60) (iconName k)

/-- `draw_progman(x, y, w, h)`. -/
def drawProgman (fb : Framebuffer) (x y w h : Int) : Framebuffer :=
  (List.finRange 4).foldl
    (fun fb k => drawIcon g f k fb (iconPlace x y k).1 (iconPlace x y k).2)
    (g.fillRect fb x y w h 0x114455)

end Code

/-! ## Squares -/

/-- The background of the program manager. -/
def progmanColor : UInt32 := 0x114455

section Squares

variable {g : Geometry} {f : Font}

/-- The square of an icon. -/
def InIcon (x y : Int) (k : Fin 4) (p : g.Pixel) : Prop :=
  Geometry.InBlock (iconPlace x y k).1 (iconPlace x y k).2 80 80 p

/-- The part of an icon's square that a drawing uses, and its colour. -/
abbrev Fits (dx dy w h : Int) (color : UInt32) : Prop :=
  (0 ≤ dx ∧ dx + w ≤ 80 ∧ 0 < w) ∧ (0 ≤ dy ∧ dy + h ≤ 80 ∧ 0 < h) ∧ color ≠ progmanColor

/-- A drawing that stays in the square of an icon and leaves no background there. -/
abbrev InksIcon (g : Geometry) (x y : Int) (op : Framebuffer → Framebuffer) : Prop :=
  g.Inks (Geometry.InBlock x y 80 80) (· ≠ progmanColor) op

theorem inksIcon_fillRect (hg : g.Contiguous) {x y : Int}
    (hnear : Geometry.Near x 80 ∧ Geometry.Near y 80) (dx dy w h : Int) (color : UInt32)
    (hfits : Fits dx dy w h color) :
    InksIcon g x y fun fb => g.fillRect fb (x + dx) (y + dy) w h color :=
  Geometry.inks_fillRect hg hnear (by omega) (by omega) hfits.2.2

theorem inksIcon_outline (hg : g.Contiguous) {x y : Int}
    (hnear : Geometry.Near x 80 ∧ Geometry.Near y 80) (dx dy w h : Int) (color : UInt32)
    (hfits : Fits dx dy w h color) :
    InksIcon g x y fun fb => g.drawRectOutline fb (x + dx) (y + dy) w h color :=
  Geometry.inks_drawRectOutline hg hnear (by omega) (by omega) hfits.2.2

theorem inks_drawIconGraphic (hg : g.Contiguous) (hf : f.charH ≤ 20) {x y : Int}
    (hnear : Geometry.Near x 80 ∧ Geometry.Near y 80) (k : Fin 4) :
    InksIcon g x y fun fb => drawIconGraphic g f k fb x y := by
  have hfill := inksIcon_fillRect hg hnear
  have houtline := inksIcon_outline hg hnear
  match k with
  | 0 =>
      have htext : (text ">_").length = 2 := by decide
      have hlabel : InksIcon g x y fun fb =>
          g.fontDrawString f (x + 24) 0x66DD88 0x050505 fb (x + 24) (y + 22) (text ">_") :=
        Geometry.inks_fontDrawString hg hnear (by omega) (by decide) (by decide) _ (by decide)
          (by rw [htext]; omega)
      have hframe := (hfill 17 12 46 34 0x050505 (by decide)).andThen
        (houtline 17 12 46 34 0x66DD88 (by decide))
      exact hframe.andThen hlabel
  | 1 =>
      have hfolder := (hfill 16 18 48 32 0xD6A84A (by decide)).andThen
        (hfill 16 12 24 10 0xF0C46B (by decide))
      have hwhole := hfolder.andThen (houtline 16 18 48 32 0x7A5420 (by decide))
      exact hwhole
  | 2 =>
      have hsheet := (hfill 21 10 34 44 0xEEEEEE (by decide)).andThen
        (houtline 21 10 34 44 0x333333 (by decide))
      have hlines := ((hsheet.andThen (hfill 27 20 22 2 0x333333 (by decide))).andThen
        (hfill 27 28 22 2 0x333333 (by decide))).andThen (hfill 27 36 16 2 0x333333 (by decide))
      have hwhole := (hlines.andThen (hfill 51 38 14 5 0xF0C000 (by decide))).andThen
        (hfill 62 36 4 9 0x333333 (by decide))
      exact hwhole
  | 3 =>
      have hframe := (hfill 16 14 48 34 0x601010 (by decide)).andThen
        (houtline 16 14 48 34 0xD05030 (by decide))
      have hbody := (hframe.andThen (hfill 25 24 30 12 0x202020 (by decide))).andThen
        (hfill 36 18 8 24 0xC0C0C0 (by decide))
      have hwhole := hbody.andThen (hfill 31 37 18 8 0x505050 (by decide))
      exact hwhole

/-- The names are short enough for the square. -/
theorem labelX_bounds (x : Int) (k : Fin 4) :
    x ≤ labelX x (iconName k) ∧ labelX x (iconName k) + 8 * (iconName k).length ≤ x + 80 ∧
      (10 : UInt8) ∉ iconName k := by
  have hlengths : (iconName 0).length = 8 ∧ (iconName 1).length = 5 ∧ (iconName 2).length = 6 ∧
      (iconName 3).length = 4 := by decide
  have hlabel : ∀ name : List UInt8, name.length ≤ 8 →
      x ≤ labelX x name ∧ labelX x name + 8 * name.length ≤ x + 80 := by
    intro name hlen
    rw [labelX, Int.tdiv_eq_ediv_of_nonneg (by omega)]
    split <;> omega
  have hnewline : ∀ k, (10 : UInt8) ∉ iconName k := by decide
  refine ⟨?_, ?_, hnewline k⟩
  · match k with
    | 0 => exact (hlabel _ (by omega)).1
    | 1 => exact (hlabel _ (by omega)).1
    | 2 => exact (hlabel _ (by omega)).1
    | 3 => exact (hlabel _ (by omega)).1
  · match k with
    | 0 => exact (hlabel _ (by omega)).2
    | 1 => exact (hlabel _ (by omega)).2
    | 2 => exact (hlabel _ (by omega)).2
    | 3 => exact (hlabel _ (by omega)).2

/-- An icon covers its square and changes nothing else. -/
theorem view_drawIcon (hg : g.Contiguous) (hf : f.charH ≤ 20) {x y : Int}
    (hnear : Geometry.Near x 80 ∧ Geometry.Near y 80) (k : Fin 4) (fb : Framebuffer)
    (p : g.Pixel) :
    (Geometry.InBlock x y 80 80 p → g.view (drawIcon g f k fb x y) p ≠ progmanColor) ∧
      (¬ Geometry.InBlock x y 80 80 p → g.view (drawIcon g f k fb x y) p = g.view fb p) := by
  obtain ⟨hleft, hright, hnewline⟩ := labelX_bounds x k
  have hlater : InksIcon g x y fun fb =>
      g.fontDrawString f (labelX x (iconName k)) 0xFFFFFF 0x1B2A31
        (drawIconGraphic g f k (g.drawRectOutline fb x y 80 80 0x8DB9C7) x y)
        (labelX x (iconName k)) (y + 60) (iconName k) :=
    ((Geometry.inks_drawRectOutline hg hnear (by omega) (by omega) (by decide)).andThen
      (inks_drawIconGraphic hg hf hnear k)).andThen
      (Geometry.inks_fontDrawString hg hnear (by omega) (by decide) (by decide) _ hnewline
        ⟨hleft, hright⟩)
  have hfill := Geometry.view_fillRect hg fb 0x1B2A31 hnear.1 hnear.2
  have hview := congrFun hfill p
  rw [Layer.over, region] at hview
  rw [drawIcon]
  constructor
  · intro hin
    rw [if_pos hin, Option.getD_some] at hview
    rcases hlater (g.fillRect fb x y 80 80 0x1B2A31) p with hsame | ⟨_, hcolor⟩
    · rw [hsame, hview]
      decide
    · exact hcolor
  · intro hout
    rw [if_neg hout, Option.getD_none] at hview
    rcases hlater (g.fillRect fb x y 80 80 0x1B2A31) p with hsame | ⟨hin, _⟩
    · rw [hsame, hview]
    · exact absurd hin hout

/-- In the client area the background is seen where no icon is. -/
theorem view_drawProgman (hg : g.Contiguous) (hf : f.charH ≤ 20) {x y : Int}
    {p : g.Pixel} (hin : Geometry.InBlock x y 500 400 p) (fb : Framebuffer) :
    g.view (drawProgman g f fb x y 500 400) p = progmanColor ↔ ∀ k, ¬ InIcon x y k p := by
  have hwlt := hg.width_lt
  have hhlt := hg.height_lt
  have hp := p.1.isLt
  have hp' := p.2.isLt
  obtain ⟨⟨hx, hx'⟩, hy, hy'⟩ := hin
  have hnear : ∀ k, Geometry.Near (iconPlace x y k).1 80 ∧
      Geometry.Near (iconPlace x y k).2 80 := by
    intro k
    have hk := k.isLt
    rw [iconPlace]
    dsimp only
    omega
  have hall : ∀ (items : List (Fin 4)) (fb : Framebuffer),
      g.view (items.foldl (fun fb k => drawIcon g f k fb (iconPlace x y k).1 (iconPlace x y k).2)
        fb) p = progmanColor ↔ g.view fb p = progmanColor ∧ ∀ k ∈ items, ¬ InIcon x y k p := by
    intro items
    induction items with
    | nil => exact fun fb => by simp
    | cons k rest ih =>
        intro fb
        obtain ⟨hinside, houtside⟩ := view_drawIcon hg hf (hnear k) k fb p
        rw [List.foldl_cons, ih, List.forall_mem_cons]
        by_cases hicon : InIcon x y k p
        · simp only [hinside hicon, hicon, false_and, not_true, and_false]
        · rw [houtside hicon]
          simp only [hicon, not_false_eq_true, true_and]
  have hfill := congrFun (Geometry.view_fillRect hg fb progmanColor
    (x := x) (y := y) (w := 500) (h := 400) (by omega) (by omega)) p
  rw [Layer.over, region, if_pos ⟨⟨hx, hx'⟩, hy, hy'⟩, Option.getD_some] at hfill
  rw [drawProgman, hall]
  simp only [List.mem_finRange, true_implies]
  exact and_iff_right hfill

end Squares

namespace Desktop

/-! ## The window of the program manager -/

/-- Only the window of `progman_run` draws icons or has the title that clicks are routed by. -/
def OwnSlot (i : WindowSlot) (w : Window) : Prop :=
  w.useCount ≠ 0 → w.draw = .progman ∨ w.title.toCStr = text "Program Manager" →
    i = 0 ∧ w.draw = .progman ∧ w.w = 500 ∧ w.h = 400

/-- The same of every slot. -/
def Owned (s : Desktop) : Prop := ∀ i, OwnSlot i (s.windows i)

/-- The places written down are those of the window where it is. -/
def Placed (s : Desktop) : Prop :=
  (s.windows 0).useCount ≠ 0 → (s.windows 0).draw = .progman →
    ∀ k, s.icons k = iconPlace (s.windows 0).x ((s.windows 0).y + titlebarH) k

/-- `draw_window` writes the places down as `draw_progman` computes them. -/
theorem icons_drawWindow {s : Desktop} {i : WindowSlot} (hopen : (s.windows i).useCount ≠ 0)
    (hdraw : (s.windows i).draw = .progman) (k : Fin 4) :
    (s.drawWindow i).icons k = iconPlace (s.windows i).x ((s.windows i).y + titlebarH) k := by
  have hk := k.isLt
  have hcol : k.val % 5 = k.val := Nat.mod_eq_of_lt (by omega)
  have hrow : k.val / 5 = 0 := Nat.div_eq_of_lt (by omega)
  rw [drawWindow, if_pos ⟨hopen, hdraw⟩, iconPlace, hcol, hrow]
  ext <;> simp

theorem windows_drawWindow (s : Desktop) (i : WindowSlot) :
    (s.drawWindow i).windows = s.windows := by
  obtain ⟨icons, h⟩ := s.drawWindow_eq i
  rw [h]

/-- Windows that are the same belong to the same program. -/
theorem Owned.congr {s s' : Desktop} (h : s.Owned) (hwindows : s'.windows = s.windows) :
    s'.Owned := by
  rw [Owned, hwindows]
  exact h

theorem Placed.congr {s s' : Desktop} (h : s.Placed) (hwindows : s'.windows = s.windows)
    (hicons : s'.icons = s.icons) : s'.Placed := by
  rw [Placed, hwindows, hicons]
  exact h

theorem placed_drawWindow {s : Desktop} (hown : s.Owned) (i : WindowSlot)
    (h : i = 0 ∨ s.Placed) : (s.drawWindow i).Placed := by
  by_cases hdraws : (s.windows i).useCount ≠ 0 ∧ (s.windows i).draw = .progman
  · obtain ⟨rfl, _⟩ := hown i hdraws.1 (.inl hdraws.2)
    intro _ _ k
    rw [windows_drawWindow]
    exact icons_drawWindow hdraws.1 hdraws.2 k
  · have hsame : s.drawWindow i = s := if_neg hdraws
    rw [hsame]
    rcases h with rfl | hplaced
    · exact fun hopen hdraw => absurd ⟨hopen, hdraw⟩ hdraws
    · exact hplaced

/-- A full repaint writes the places down, wherever the window is now. -/
theorem placed_drawAll {s : Desktop} (hown : s.Owned) : s.drawAll.Placed := by
  have hrest : ∀ (slots : List WindowSlot) (s : Desktop), s.Owned → s.Placed →
      (slots.foldl drawWindow s).Placed := by
    intro slots
    induction slots with
    | nil => exact fun s _ h => h
    | cons i rest ih =>
        exact fun s hown h => ih _ (hown.congr (windows_drawWindow s i))
          (placed_drawWindow hown i (.inr h))
  rw [drawAll, List.finRange_succ, List.foldl_cons]
  exact hrest _ _ (hown.congr (windows_drawWindow s 0)) (placed_drawWindow hown 0 (.inl rfl))

/-- What holds whenever the loop looks at its events. -/
structure Tracked (s : Desktop) : Prop where
  owned : s.Owned
  placed : s.Placed

theorem tracked_drawAll {s : Desktop} (h : s.Owned) : s.drawAll.Tracked :=
  ⟨h.congr (windows_drawAll s), placed_drawAll h⟩

/-! ## What the program manager starts -/

/-- A title with another first character is not the one that clicks are routed by, whatever
an earlier title left behind it. -/
theorem toCStr_copyTitle_ne (old : CharArray 32) {title : CStr} (hpos : 0 < title.length)
    (hfirst : title.byte 0 ≠ 80) : (copyTitle old title).toCStr ≠ text "Program Manager" := by
  intro heq
  obtain ⟨_, hbytes⟩ := (CharArray.toCStr_eq_iff _ Painted.noNul_programManager).mp heq
  have hbyte : copyTitle old title 0 = 80 := (hbytes 0).1 (by decide)
  have hcopy : copyTitle old title 0 = title.byte 0 := if_pos hpos
  exact hfirst (hcopy.symm.trans hbyte)

variable {s : Desktop}

/-- A window of another program. -/
theorem owned_createWindow (h : s.Owned) (n : NewWindow) (hdraw : n.draw ≠ .progman)
    (hpos : 0 < n.title.length) (hfirst : n.title.byte 0 ≠ 80) : (s.createWindow n).1.Owned := by
  unfold createWindow
  cases s.firstFree with
  | none => exact h
  | some i =>
      intro j
      by_cases hji : j = i
      · simp only [withWindow, if_pos hji]
        rintro - (hprogman | htitle)
        · exact absurd hprogman hdraw
        · exact absurd htitle (toCStr_copyTitle_ne _ hpos hfirst)
      · simp only [withWindow, if_neg hji]
        exact h j

theorem owned_progmanHandleClick (h : s.Owned) (mx my : Int) :
    (s.progmanHandleClick mx my).Owned := by
  unfold progmanHandleClick
  split
  · exact owned_createWindow (s := { s with term := ⟨[], true, none⟩ }) h _ nofun (by decide)
      (by decide)
  · exact owned_createWindow h _ nofun (by decide) (by decide)
  · exact h

/-! ## Runs -/

/-- A window that is changed as follows belongs to the same program. -/
theorem OwnSlot.congr {i : WindowSlot} {v w : Window} (h : OwnSlot i v)
    (hopen : w.useCount ≠ 0 → v.useCount ≠ 0) (hdraw : w.draw = v.draw) (htitle : w.title = v.title)
    (hw : w.w = v.w) (hh : w.h = v.h) : OwnSlot i w := by
  intro huse
  rw [hdraw, htitle, hw, hh]
  exact h (hopen huse)

theorem owned_update (h : s.Owned) {i : WindowSlot} {w : Window} (hw : OwnSlot i w)
    {s' : Desktop} (hwindows : s'.windows = Function.update s.windows i w) : s'.Owned := by
  intro j
  rw [hwindows]
  by_cases hji : j = i
  · rw [hji, Function.update_self]
    exact hw
  · rw [Function.update_of_ne hji]
    exact h j

theorem tracked_raise (h : s.Tracked) (clicked : WindowSlot) : (s.raise clicked).Tracked :=
  ⟨h.owned, h.placed⟩

theorem owned_dropWindow (h : s.Owned) (i : WindowSlot) : (s.dropWindow i).Owned :=
  owned_update h (fun hopen => absurd rfl hopen) rfl

theorem tracked_closeWindow (h : s.Tracked) (i : WindowSlot) : (s.closeWindow i).Tracked := by
  have hdrop := owned_dropWindow h.owned i
  unfold closeWindow
  split
  · exact h
  · split
    · rename_i top _
      have hactive : OwnSlot top { (s.dropWindow i).windows top with active := true } :=
        (hdrop top).congr (fun hopen => hopen) rfl rfl rfl rfl
      exact tracked_drawAll (owned_update hdrop hactive rfl)
    · exact tracked_drawAll hdrop

theorem tracked_click (h : s.Tracked) (mx my : Int) : (s.click mx my).Tracked := by
  unfold click
  cases s.findWindowAt mx my with
  | none => exact h
  | some clicked =>
      have hraise := tracked_raise h clicked
      dsimp only
      split
      · exact tracked_closeWindow hraise clicked
      · split
        · exact tracked_drawAll (hraise.owned.congr rfl)
        · split
          · split
            · exact tracked_drawAll (owned_progmanHandleClick hraise.owned mx my)
            · exact tracked_drawAll hraise.owned
          · exact hraise

/-- The window that is held takes its icons along. -/
theorem tracked_follow (h : s.Tracked) (m : Mouse) : (s.follow m).Tracked := by
  unfold follow
  split
  · split
    · rename_i i _ _
      have hmoved : OwnSlot i
          { s.windows i with x := m.mx - s.dragOffX, y := m.my - s.dragOffY } :=
        (h.owned i).congr (fun hopen => hopen) rfl rfl rfl rfl
      exact tracked_drawAll (owned_update h.owned hmoved rfl)
    · exact h
  · exact h

theorem tracked_letGo (h : s.Tracked) (m : Mouse) : (s.letGo m).Tracked := by
  unfold letGo
  split
  · exact ⟨h.owned.congr rfl, h.placed.congr rfl rfl⟩
  · exact h

theorem tracked_mouse (h : s.Tracked) (m : Mouse) : (s.mouse m).Tracked := by
  have hbefore := tracked_letGo (tracked_follow h m) m
  unfold mouse
  dsimp only
  split
  · exact tracked_click hbefore _ _
  · exact hbefore

theorem tracked_termHandleKey (h : s.Tracked) (c : UInt8) (returns : Bool) :
    (s.termHandleKey c returns).Tracked := by
  by_cases hexit : s.TellsExit c
  · obtain ⟨hactive, hc, hline⟩ := hexit
    rw [termHandleKey, if_neg (by simp [hactive]), if_pos hc, if_pos hline]
    have hquiet : ∀ t : Terminal, Tracked { s with term := t } := fun t =>
      ⟨h.owned.congr rfl, h.placed.congr rfl rfl⟩
    dsimp only
    split
    · exact tracked_closeWindow (hquiet _) _
    · exact hquiet _
  · obtain ⟨term, hterm⟩ := termHandleKey_stays returns hexit
    rw [hterm]
    exact ⟨h.owned.congr rfl, h.placed.congr rfl rfl⟩

theorem tracked_drawWindow (h : s.Tracked) (i : WindowSlot) : (s.drawWindow i).Tracked :=
  ⟨h.owned.congr (windows_drawWindow s i), placed_drawWindow h.owned i (.inr h.placed)⟩

theorem tracked_key (h : s.Tracked) (c : UInt8) (returns : Bool) : (s.key c returns).Tracked := by
  unfold key
  split
  · exact h
  · split
    · exact tracked_drawWindow (tracked_termHandleKey h c returns) _
    · exact tracked_drawWindow h _

/-- One part of a turn of the loop of `brickwm_run`, or another call of it. -/
def turn (s : Desktop) (t : Painted.Turn) : Except Empty Desktop := s.step t.event

theorem tracked_turn {s' : Desktop} (h : s.Tracked) {t : Painted.Turn} (hstep : s.turn t = .ok s') :
    s'.Tracked := by
  cases t with
  | mouse m =>
      obtain rfl := Except.ok.inj hstep
      split
      · exact tracked_mouse h m
      · exact h
  | key c returns =>
      obtain rfl := Except.ok.inj hstep
      split
      · exact tracked_key h c returns
      · exact h
  | run =>
      obtain rfl := Except.ok.inj hstep
      exact tracked_drawAll h.owned

/-! ## Clicks -/

variable (g : Geometry) (f : Font)

/-- What a click in a window with the program manager's title does, against the picture that
window draws there: it starts the program whose square the pixel is in, and none exactly where
the background is to be seen. -/
def ClicksSeen (s : Desktop) : Prop :=
  ∀ i, (s.windows i).useCount ≠ 0 → (s.windows i).title.toCStr = text "Program Manager" →
    ∀ (fb : Framebuffer) (p : g.Pixel), checkClientClick (s.windows i) p.1 p.2 = true →
      (∀ k, s.findIconClick p.1 p.2 = some k ↔
        InIcon (s.windows i).x ((s.windows i).y + titlebarH) k p) ∧
      (s.findIconClick p.1 p.2 = none ↔
        g.view (drawProgman g f fb (s.windows i).x ((s.windows i).y + titlebarH) (s.windows i).w
          (s.windows i).h) p = progmanColor)

variable {g f}

/-- A point is in one square at most. -/
theorem inIcon_unique {x y : Int} {j k : Fin 4} {p : g.Pixel} (hj : InIcon x y j p)
    (hk : InIcon x y k p) : j = k := by
  have hjlt := j.isLt
  have hklt := k.isLt
  simp only [InIcon, Geometry.InBlock, iconPlace] at hj hk
  omega

/-- The icon a click finds, when the places are those of the window. -/
theorem findIconClick_eq_some_iff {x y : Int} (hicons : ∀ k, s.icons k = iconPlace x y k)
    (p : g.Pixel) (k : Fin 4) :
    s.findIconClick p.1 p.2 = some k ↔ InIcon x y k p := by
  have htest : ∀ j, inside p.1 p.2 (s.icons j).1 (s.icons j).2 80 80 = true ↔ InIcon x y j p := by
    intro j
    rw [hicons, inside, decide_eq_true_eq, InIcon, Geometry.InBlock, and_assoc]
  constructor
  · intro hfind
    exact (htest k).mp (@List.find?_some _ _ k _ hfind)
  · intro hin
    cases hfind : s.findIconClick p.1 p.2 with
    | none =>
        exact absurd ((htest k).mpr hin) (List.find?_eq_none.mp hfind k (List.mem_finRange k))
    | some j => rw [inIcon_unique ((htest j).mp (@List.find?_some _ _ j _ hfind)) hin]

theorem clicksSeen_of_tracked (hg : g.Contiguous) (hf : f.charH ≤ 20) (h : s.Tracked) :
    s.ClicksSeen g f := by
  intro i hopen htitle fb p hclient
  obtain ⟨rfl, hdraw, hw, hh⟩ := h.owned i hopen (.inr htitle)
  rw [hw, hh]
  have hfind := findIconClick_eq_some_iff (g := g) (h.placed hopen hdraw) p
  have hin : Geometry.InBlock (s.windows 0).x ((s.windows 0).y + titlebarH) 500 400 p := by
    rw [checkClientClick, inside, decide_eq_true_eq, hw, hh] at hclient
    rw [Geometry.InBlock, and_assoc]
    exact hclient
  refine ⟨hfind, ?_⟩
  rw [view_drawProgman hg hf hin, Option.eq_none_iff_forall_ne_some]
  exact forall_congr' fun k => not_congr (hfind k)

theorem tracked_programManager : Painted.programManager.drawAll.Tracked := by
  have hclosed : ∀ i, i ≠ 0 → (Painted.programManager.windows i).useCount = 0 := by decide +kernel
  refine tracked_drawAll fun i hopen hprogman => ?_
  by_cases hi : i = 0
  · subst hi
    exact ⟨rfl, rfl, rfl, rfl⟩
  · exact absurd (hclosed i hi) hopen

/-- In every run of the desktop, whenever a turn of the loop comes to its click: if the click
is in the program manager's client area, it starts a program exactly where an icon is seen, and
that icon's. -/
theorem icons_seen (hg : g.Contiguous) (hf : f.charH ≤ 20) (turns : List Painted.Turn) :
    Along turn (fun s => ∀ m, ((s.follow m).letGo m).ClicksSeen g f)
      Painted.programManager.drawAll turns :=
  (along_of_invariant (fun _ _ _ hs => tracked_turn hs) tracked_programManager turns).mono
    fun _ hs m => clicksSeen_of_tracked hg hf (tracked_letGo (tracked_follow hs m) m)

/-- The terminal is started, the program manager is dragged, and its second icon is where it
then is. -/
theorem icons_seen_dragged :
    let g := graphicsInit 2560 640 480
    let f : Font := ⟨16, fun _ => 0⟩
    let turns := Painted.clickFrom 0 0 140 110 ++
      [.mouse ⟨110, 60, true, 110, 60, false⟩, .mouse ⟨60, 40, true, 110, 60, true⟩]
    Along turn (fun s => ∀ m, ((s.follow m).letGo m).ClicksSeen g f)
        Painted.programManager.drawAll turns ∧
      (run turn Painted.programManager.drawAll turns).toOption.map
        (fun s => s.findIconClick 165 95) = some (some 1) := by
  refine ⟨icons_seen ⟨by decide, by decide, by decide, by decide⟩ (by decide) _, ?_⟩
  decide +kernel

end Desktop

end FalastinOS.Gui
