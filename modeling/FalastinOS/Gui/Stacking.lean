/-
  Gui/Stacking.lean --- which window is seen, and which one a click goes to.

  `draw_all` paints the open windows from slot 0 to slot 7, and `find_window_at` looks
  for the pixel from slot 7 to slot 0, so after a full repaint the two agree.  But a
  key only repaints the window that gets it, and a click changes the focus without
  changing the order of the slots.

  A canvas says for each pixel whose title bar or client area was painted there last.
  The functions of `brickwm.c` are those of `Gui/Windows` with what they paint;
  `desktop_step` says that they do to the windows what those do.

  `seen_iff_clear` says exactly when the two orders agree: as long as no key goes to a
  window that another one with a higher number overlaps.
-/
import FalastinOS.Gui.Windows

set_option autoImplicit false

namespace FalastinOS.Gui

open FalastinOS.Foundation

namespace Desktop

/-! ## Painting -/

/-- Whose body was painted at a pixel last; none for the background. -/
abbrev Canvas : Type := Int → Int → Option WindowSlot

/-- The body of a window: the title bar and the client area. -/
def onBody (w : Window) (x y : Int) : Bool :=
  inside x y w.x w.y w.w titlebarH || inside x y w.x (w.y + titlebarH) w.w w.h

/-- The windows and what is on the screen. -/
structure Painted where
  desktop : Desktop
  canvas : Canvas

namespace Painted

/-- `draw_window(idx)`. -/
def drawWindow (s : Painted) (i : WindowSlot) : Painted where
  desktop := s.desktop.drawWindow i
  canvas := fun x y =>
    if (s.desktop.windows i).useCount ≠ 0 ∧ onBody (s.desktop.windows i) x y then some i
    else s.canvas x y

/-- `draw_all()`. -/
def drawAll (s : Painted) : Painted :=
  (List.finRange 8).foldl drawWindow { s with canvas := fun _ _ => none }

/-- `brickwm_close_window(handle)`, for a handle in range. -/
def closeWindow (s : Painted) (i : WindowSlot) : Painted :=
  if (s.desktop.windows i).useCount = 0 then s
  else
    match (s.desktop.dropWindow i).highestOpen with
    | some top => drawAll { s with desktop := (s.desktop.dropWindow i).activate top }
    | none => drawAll { s with desktop := s.desktop.dropWindow i }

/-- The branch for `left_down`. -/
def click (s : Painted) (mx my : Int) : Painted :=
  match s.desktop.findWindowAt mx my with
  | none => s
  | some clicked =>
      let s := { s with desktop := s.desktop.raise clicked }
      let w := s.desktop.windows clicked
      if checkCloseClick w mx my then s.closeWindow clicked
      else if checkTitlebarClick w mx my then
        drawAll { s with desktop := s.desktop.grab clicked mx my }
      else if checkClientClick w mx my then
        if w.title.toCStr = text "Program Manager" then
          drawAll { s with desktop := s.desktop.progmanHandleClick mx my }
        else s.drawAll
      else s

/-- The window that is held follows the mouse when it has moved. -/
def follow (s : Painted) (m : Mouse) : Painted :=
  match s.desktop.dragWin with
  | some i =>
      if s.desktop.dragging && m.left && (m.mx ≠ m.lastMx || m.my ≠ m.lastMy) then
        drawAll { s with desktop := s.desktop.drag i m.mx m.my }
      else s
  | none => s

/-- The part of a turn that looks at the mouse. -/
def mouse (s : Painted) (m : Mouse) : Painted :=
  let s := s.follow m
  let s := { s with desktop := s.desktop.letGo m }
  if m.left && !m.lastLeft then s.click m.mx m.my else s

/-- Is the key the Enter behind a command that does not return at once?  Such a command is
`gui`, whose loop starts with a full repaint, the next `run`. -/
def entersLoop (d : Desktop) (c : UInt8) (returns : Bool) : Bool :=
  d.term.termActive && decide (c = 10) && decide (d.term.cmdline ≠ text "exit") &&
    decide (d.term.cmdline ≠ []) && !returns

/-- `term_handle_key(c)`, which can close the terminal's window. -/
def termHandleKey (s : Painted) (c : UInt8) (returns : Bool) : Painted :=
  if s.desktop.term.termActive ∧ c = 10 ∧ s.desktop.term.cmdline = text "exit" then
    let d := { s.desktop with term := { s.desktop.term with termActive := false } }
    match d.term.termHandle with
    | some handle => closeWindow { s with desktop := d } handle
    | none => { s with desktop := d }
  else { s with desktop := s.desktop.termHandleKey c returns }

/-- The part of a turn that handles a key. -/
def key (s : Painted) (c : UInt8) (returns : Bool) : Painted :=
  match s.desktop.focusedWindow with
  | none => s
  | some fw =>
      match (s.desktop.windows fw).keypress with
      | .terminal =>
          if entersLoop s.desktop c returns then { s with desktop := s.desktop.key c returns }
          else (s.termHandleKey c returns).drawWindow fw
      | _ => s.drawWindow fw

/-- A part of a turn of the loop of `brickwm_run`. -/
inductive Turn where
  | mouse (m : Mouse)
  | key (c : UInt8) (returns : Bool)
  /-- `brickwm_run` is called again, by the command `gui` -/
  | run

/-- The event of `Gui/Windows`. -/
def Turn.event : Turn → Event
  | .mouse m => .mouse m
  | .key c returns => .key c returns
  | .run => .run

/-- One part of a turn; the loop makes none when no window is left. -/
def step (s : Painted) : Turn → Except Empty Painted
  | .mouse m => .ok (if s.desktop.windowCount > 0 then s.mouse m else s)
  | .key c returns => .ok (if s.desktop.windowCount > 0 then s.key c returns else s)
  | .run => .ok s.drawAll

/-- `brickwm_run` is called with these windows, and redraws. -/
def start (d : Desktop) : Painted := drawAll ⟨d, fun _ _ => none⟩

/-! ## The windows are those of `Gui/Windows` -/

theorem desktop_drawAll (s : Painted) : s.drawAll.desktop = s.desktop.drawAll := by
  unfold drawAll Desktop.drawAll
  generalize hcanvas : (fun (_ _ : Int) => (none : Option WindowSlot)) = canvas
  clear hcanvas
  induction List.finRange 8 generalizing s canvas with
  | nil => rfl
  | cons i rest ih =>
      rw [List.foldl_cons, List.foldl_cons]
      exact ih (drawWindow ⟨s.desktop, canvas⟩ i) _

theorem desktop_closeWindow (s : Painted) (i : WindowSlot) :
    (s.closeWindow i).desktop = s.desktop.closeWindow i := by
  unfold closeWindow Desktop.closeWindow
  split
  · rfl
  · cases (s.desktop.dropWindow i).highestOpen with
    | none => exact desktop_drawAll _
    | some top => exact desktop_drawAll _

theorem desktop_click (s : Painted) (mx my : Int) :
    (s.click mx my).desktop = s.desktop.click mx my := by
  unfold click Desktop.click
  cases s.desktop.findWindowAt mx my with
  | none => rfl
  | some clicked =>
      dsimp only
      split
      · exact desktop_closeWindow _ clicked
      · split
        · exact desktop_drawAll _
        · split
          · split
            · exact desktop_drawAll _
            · exact desktop_drawAll _
          · rfl

theorem desktop_mouse (s : Painted) (m : Mouse) : (s.mouse m).desktop = s.desktop.mouse m := by
  have hfollow : (s.follow m).desktop = s.desktop.follow m := by
    unfold follow Desktop.follow
    cases s.desktop.dragWin with
    | none => rfl
    | some i =>
        dsimp only
        split
        · exact desktop_drawAll _
        · rfl
  unfold mouse Desktop.mouse
  simp only [hfollow]
  split
  · exact desktop_click _ _ _
  · rfl

theorem desktop_termHandleKey (s : Painted) (c : UInt8) (returns : Bool) :
    (s.termHandleKey c returns).desktop = s.desktop.termHandleKey c returns := by
  unfold termHandleKey
  split
  · rename_i hexit
    obtain ⟨hactive, hc, hline⟩ := hexit
    rw [Desktop.termHandleKey, if_neg (by simp [hactive]), if_pos hc, if_pos hline]
    dsimp only
    cases s.desktop.term.termHandle with
    | none => rfl
    | some handle => exact desktop_closeWindow _ handle
  · rfl

theorem desktop_key (s : Painted) (c : UInt8) (returns : Bool) :
    (s.key c returns).desktop = s.desktop.key c returns := by
  unfold key
  cases hfocus : s.desktop.focusedWindow with
  | none => rw [Desktop.key, hfocus]
  | some fw =>
      dsimp only
      split
      · rename_i hhandler
        split
        · rfl
        · rw [Desktop.key, hfocus]
          dsimp only
          rw [hhandler]
          exact congrArg (fun d => d.drawWindow fw) (desktop_termHandleKey s c returns)
      · rename_i hhandler
        rw [Desktop.key, hfocus]
        dsimp only
        split
        · rename_i hterminal
          exact absurd hterminal hhandler
        · rfl

/-- A part of a turn does to the windows what the event does. -/
theorem desktop_step {s s' : Painted} {t : Turn} (h : s.step t = .ok s') :
    s.desktop.step t.event = .ok s'.desktop := by
  cases t with
  | mouse m =>
      obtain rfl := Except.ok.inj h
      simp only [Turn.event, Desktop.step]
      split
      · rw [desktop_mouse]
      · rfl
  | key c returns =>
      obtain rfl := Except.ok.inj h
      simp only [Turn.event, Desktop.step]
      split
      · rw [desktop_key]
      · rfl
  | run =>
      obtain rfl := Except.ok.inj h
      exact congrArg Except.ok (desktop_drawAll s).symm

end Painted

/-! ## Where the windows are -/

/-- The place of a window on the screen. -/
def frame (w : Window) : Int × Int × Int × Int := (w.x, w.y, w.w, w.h)

/-- Is the pixel on the body of the open window in the slot? -/
def covers (d : Desktop) (x y : Int) (i : WindowSlot) : Bool :=
  decide ((d.windows i).useCount ≠ 0) && onBody (d.windows i) x y

/-- Every open window has a height that is not negative. -/
def Sized (d : Desktop) : Prop := ∀ i, (d.windows i).useCount ≠ 0 → 0 ≤ (d.windows i).h

theorem onBody_eq_inside {w : Window} (h : 0 ≤ w.h) (x y : Int) :
    onBody w x y = inside x y w.x w.y w.w (w.h + titlebarH) := by
  have hbar : titlebarH = 20 := rfl
  rw [Bool.eq_iff_iff]
  simp only [onBody, inside, Bool.or_eq_true, decide_eq_true_eq]
  omega

/-- Bodies are where the frames are. -/
theorem onBody_congr {v w : Window} (h : frame v = frame w) (x y : Int) :
    onBody v x y = onBody w x y := by
  obtain ⟨hx, hy, hw, hh⟩ : v.x = w.x ∧ v.y = w.y ∧ v.w = w.w ∧ v.h = w.h := by
    simpa [frame] using h
  simp only [onBody, hx, hy, hw, hh]

/-- `find_window_at` finds the highest window whose body the pixel is on. -/
theorem findWindowAt_eq {d : Desktop} (h : d.Sized) (x y : Int) :
    d.findWindowAt x y = (List.finRange 8).reverse.find? (d.covers x y) := by
  unfold findWindowAt
  congr 1
  funext i
  by_cases hopen : (d.windows i).useCount ≠ 0
  · rw [covers, onBody_eq_inside (h i hopen)]
  · simp [covers, hopen]

/-- What is open and where: all that painting and searching look at. -/
structure SameFrames (d d' : Desktop) : Prop where
  isOpen : ∀ i, (d'.windows i).useCount = (d.windows i).useCount
  frames : ∀ i, frame (d'.windows i) = frame (d.windows i)

variable {d d' : Desktop}

theorem SameFrames.covers (h : SameFrames d d') (x y : Int) : d'.covers x y = d.covers x y := by
  funext i
  rw [Desktop.covers, Desktop.covers, h.isOpen, onBody_congr (h.frames i)]

theorem SameFrames.sized (h : SameFrames d d') (hd : d.Sized) : d'.Sized := by
  intro i hi
  have hheight : (d'.windows i).h = (d.windows i).h := congrArg (fun f => f.2.2.2) (h.frames i)
  rw [hheight]
  exact hd i (by rwa [← h.isOpen])

theorem SameFrames.findWindowAt (h : SameFrames d d') (hd : d.Sized) (x y : Int) :
    d'.findWindowAt x y = d.findWindowAt x y := by
  rw [findWindowAt_eq hd, findWindowAt_eq (h.sized hd), h.covers]

/-- Windows that are the same are in the same places. -/
theorem sameFrames_of_windows (h : d'.windows = d.windows) : SameFrames d d' :=
  ⟨fun i => by rw [h], fun i => by rw [h]⟩

theorem sameFrames_drawWindow (d : Desktop) (i : WindowSlot) : SameFrames d (d.drawWindow i) := by
  unfold drawWindow
  split
  · exact sameFrames_of_windows rfl
  · exact sameFrames_of_windows rfl

theorem SameFrames.trans {d'' : Desktop} (h : SameFrames d d') (h' : SameFrames d' d'') :
    SameFrames d d'' :=
  ⟨fun i => (h'.isOpen i).trans (h.isOpen i), fun i => (h'.frames i).trans (h.frames i)⟩

theorem sameFrames_drawAll (d : Desktop) : SameFrames d d.drawAll :=
  sameFrames_of_windows (windows_drawAll d)

/-! ## Heights -/

/-- A window that is open now was open before, with the same height. -/
theorem sized_of_fewer (h : d.Sized)
    (hfewer : ∀ i, (d'.windows i).useCount ≠ 0 →
      (d.windows i).useCount ≠ 0 ∧ (d'.windows i).h = (d.windows i).h) : d'.Sized := by
  intro i hi
  obtain ⟨hopen, hheight⟩ := hfewer i hi
  rw [hheight]
  exact h i hopen

theorem sized_createWindow (h : d.Sized) (n : NewWindow) (hn : 0 ≤ n.h) :
    (d.createWindow n).1.Sized := by
  unfold createWindow
  cases d.firstFree with
  | none => exact h
  | some i =>
      intro j hj
      by_cases hji : j = i
      · simpa [withWindow, hji] using hn
      · simp only [withWindow, if_neg hji] at hj ⊢
        exact h j hj

theorem sized_progmanHandleClick (h : d.Sized) (mx my : Int) :
    (d.progmanHandleClick mx my).Sized := by
  unfold progmanHandleClick
  split
  · exact sized_createWindow (d := { d with term := ⟨[], true, none⟩ }) h _ (by decide)
  · exact sized_createWindow h _ (by decide)
  · exact h

theorem sized_dropWindow (h : d.Sized) (i : WindowSlot) : (d.dropWindow i).Sized := by
  refine sized_of_fewer h fun j hj => ?_
  by_cases hji : j = i
  · exact absurd (by simp [dropWindow, hji]) hj
  · simp only [dropWindow, Function.update_of_ne hji] at hj ⊢
    exact ⟨hj, trivial⟩

theorem sized_drag (h : d.Sized) (i : WindowSlot) (mx my : Int) : (d.drag i mx my).Sized := by
  refine sized_of_fewer h fun j hj => ?_
  by_cases hji : j = i
  · rw [hji] at hj ⊢
    simp only [drag, Function.update_self] at hj ⊢
    exact ⟨hj, trivial⟩
  · simp only [drag, Function.update_of_ne hji] at hj ⊢
    exact ⟨hj, trivial⟩

theorem sameFrames_raise (d : Desktop) (i : WindowSlot) : SameFrames d (d.raise i) :=
  ⟨fun _ => rfl, fun _ => rfl⟩

theorem sameFrames_activate (d : Desktop) (i : WindowSlot) : SameFrames d (d.activate i) := by
  constructor
  · intro j
    by_cases hji : j = i
    · simp [activate, hji]
    · simp [activate, hji]
  · intro j
    by_cases hji : j = i
    · simp [activate, frame, hji]
    · simp [activate, hji]

/-! ## Which windows are left -/

theorem covers_dropWindow (d : Desktop) (i : WindowSlot) (x y : Int) (j : WindowSlot) :
    (d.dropWindow i).covers x y j = true ↔ d.covers x y j = true ∧ j ≠ i := by
  by_cases hji : j = i
  · simp [covers, dropWindow, hji]
  · simp [covers, dropWindow, hji]

theorem covers_closeWindow (d : Desktop) (i : WindowSlot) (x y : Int) (j : WindowSlot) :
    (d.closeWindow i).covers x y j = true ↔ d.covers x y j = true ∧ j ≠ i := by
  by_cases hfree : (d.windows i).useCount = 0
  · rw [closeWindow, if_pos hfree]
    refine ⟨fun hj => ⟨hj, fun hji => ?_⟩, fun hj => hj.1⟩
    simp [covers, hji, hfree] at hj
  · have hsame : SameFrames (d.dropWindow i) (d.closeWindow i) := by
      rw [closeWindow, if_neg hfree]
      cases (d.dropWindow i).highestOpen with
      | none => exact sameFrames_drawAll _
      | some top => exact (sameFrames_activate _ top).trans (sameFrames_drawAll _)
    rw [hsame.covers, covers_dropWindow]

/-- Does the terminal exit when it gets the key? -/
def TellsExit (d : Desktop) (c : UInt8) : Prop :=
  d.term.termActive = true ∧ c = 10 ∧ d.term.cmdline = text "exit"

theorem sameFrames_termHandleKey {c : UInt8} (h : ¬ d.TellsExit c) (returns : Bool) :
    SameFrames d (d.termHandleKey c returns) := by
  obtain ⟨term, hterm⟩ := termHandleKey_stays returns h
  rw [hterm]
  exact sameFrames_of_windows rfl

theorem key_of_terminal {fw : WindowSlot} (hfocus : d.focusedWindow = some fw)
    (hhandler : (d.windows fw).keypress = .terminal) (c : UInt8) (returns : Bool) :
    d.key c returns = (d.termHandleKey c returns).drawWindow fw := by
  rw [key, hfocus]
  dsimp only
  rw [hhandler]

/-- The terminal closes the window it has a handle for. -/
theorem covers_termHandleKey (d : Desktop) (c : UInt8) (returns : Bool) (x y : Int)
    (i : WindowSlot) :
    (d.termHandleKey c returns).covers x y i = true ↔
      d.covers x y i = true ∧ ¬ (d.TellsExit c ∧ d.term.termHandle = some i) := by
  by_cases hexit : d.TellsExit c
  · obtain ⟨hactive, hc, hline⟩ := id hexit
    rw [termHandleKey, if_neg (by simp [hactive]), if_pos hc, if_pos hline]
    dsimp only
    cases hhandle : d.term.termHandle with
    | none =>
        simp only [reduceCtorEq, and_false, not_false_iff, and_true]
        exact Iff.rfl
    | some handle =>
        dsimp only
        rw [covers_closeWindow]
        simp only [hexit, true_and, Option.some.injEq, ne_comm (a := i)]
        exact Iff.rfl
  · rw [(sameFrames_termHandleKey hexit returns).covers]
    simp [hexit]

theorem exits_iff_tellsExit {fw : WindowSlot} (hcount : d.windowCount > 0)
    (hfocus : d.focusedWindow = some fw) (hhandler : (d.windows fw).keypress = .terminal)
    (c : UInt8) : d.Exits c ↔ d.TellsExit c :=
  ⟨fun h => h.2.2, fun h => ⟨hcount, ⟨fw, hfocus, hhandler⟩, h⟩⟩

/-! ## What a full repaint shows -/

namespace Painted

theorem canvas_drawWindow (s : Painted) (i : WindowSlot) (x y : Int) :
    (s.drawWindow i).canvas x y =
      if s.desktop.covers x y i = true then some i else s.canvas x y := by
  simp only [drawWindow, Desktop.covers, Bool.and_eq_true, decide_eq_true_eq]

/-- Of the windows painted one after the other, the last one that covers a pixel is seen. -/
theorem canvas_foldl (l : List WindowSlot) (s : Painted) (x y : Int) :
    (l.foldl drawWindow s).canvas x y =
      (l.reverse.find? (s.desktop.covers x y)).or (s.canvas x y) := by
  induction l generalizing s with
  | nil => rfl
  | cons i rest ih =>
      have hframes : (s.drawWindow i).desktop.covers x y = s.desktop.covers x y :=
        (sameFrames_drawWindow s.desktop i).covers x y
      rw [List.foldl_cons, ih, hframes, List.reverse_cons, List.find?_append, Option.or_assoc]
      congr 1
      rw [canvas_drawWindow]
      split
      · rename_i hcovers
        rw [List.find?_cons_of_pos hcovers, Option.some_or]
      · rename_i hcovers
        rw [List.find?_cons_of_neg hcovers, List.find?_nil, Option.none_or]

section

variable (width height : Int)

/-- Is there a pixel? -/
def OnScreen (x y : Int) : Prop := 0 ≤ x ∧ x < width ∧ 0 ≤ y ∧ y < height

instance (x y : Int) : Decidable (OnScreen width height x y) :=
  inferInstanceAs (Decidable (_ ∧ _ ∧ _ ∧ _))

/-- At every pixel on the body of an open window, `find_window_at` returns the window whose
body was painted there last. -/
def Seen (s : Painted) : Prop :=
  ∀ x y, OnScreen width height x y → (∃ i, s.desktop.covers x y i = true) →
    s.desktop.findWindowAt x y = s.canvas x y

/-- The same at every pixel. -/
structure Stacked (s : Painted) : Prop where
  sized : s.desktop.Sized
  top : ∀ x y, OnScreen width height x y → s.canvas x y = s.desktop.findWindowAt x y

variable {width height}

theorem Stacked.seen {s : Painted} (h : Stacked width height s) : Seen width height s :=
  fun x y hpixel _ => (h.top x y hpixel).symm

theorem stacked_drawAll {s : Painted} (h : s.desktop.Sized) : Stacked width height s.drawAll := by
  have hsame : SameFrames s.desktop s.drawAll.desktop := by
    rw [desktop_drawAll]
    exact sameFrames_drawAll s.desktop
  refine ⟨hsame.sized h, fun x y _ => ?_⟩
  rw [hsame.findWindowAt h, findWindowAt_eq h]
  exact (canvas_foldl _ _ x y).trans (Option.or_none ..)

/-- What changes neither the canvas nor where the windows are. -/
theorem Stacked.congr {s s' : Painted} (h : Stacked width height s)
    (hcanvas : s'.canvas = s.canvas) (hsame : SameFrames s.desktop s'.desktop) :
    Stacked width height s' := by
  refine ⟨hsame.sized h.sized, fun x y hpixel => ?_⟩
  rw [hcanvas, hsame.findWindowAt h.sized]
  exact h.top x y hpixel

theorem stacked_closeWindow {s : Painted} (h : Stacked width height s) (i : WindowSlot) :
    Stacked width height (s.closeWindow i) := by
  have hdrop := sized_dropWindow h.sized i
  unfold closeWindow
  split
  · exact h
  · split
    · rename_i top _
      exact stacked_drawAll ((sameFrames_activate _ top).sized hdrop)
    · exact stacked_drawAll hdrop

theorem stacked_click {s : Painted} (h : Stacked width height s) (mx my : Int) :
    Stacked width height (s.click mx my) := by
  unfold click
  cases s.desktop.findWindowAt mx my with
  | none => exact h
  | some clicked =>
      have hraise : Stacked width height { s with desktop := s.desktop.raise clicked } :=
        h.congr rfl (sameFrames_raise s.desktop clicked)
      dsimp only
      split
      · exact stacked_closeWindow hraise clicked
      · split
        · exact stacked_drawAll hraise.sized
        · split
          · split
            · exact stacked_drawAll (sized_progmanHandleClick hraise.sized mx my)
            · exact stacked_drawAll hraise.sized
          · exact hraise

theorem stacked_mouse {s : Painted} (h : Stacked width height s) (m : Mouse) :
    Stacked width height (s.mouse m) := by
  have hfollow : Stacked width height (s.follow m) := by
    unfold follow
    split
    · split
      · exact stacked_drawAll (sized_drag h.sized _ _ _)
      · exact h
    · exact h
  have hletGo : Stacked width height
      { s.follow m with desktop := (s.follow m).desktop.letGo m } := by
    refine hfollow.congr rfl ?_
    show SameFrames (s.follow m).desktop ((s.follow m).desktop.letGo m)
    unfold letGo
    split
    · exact sameFrames_of_windows rfl
    · exact sameFrames_of_windows rfl
  unfold mouse
  dsimp only
  split
  · exact stacked_click hletGo _ _
  · exact hletGo

/-! ## What a key shows -/

/-- A window that is painted again is seen where it should be, exactly if no window with a
higher number shares a pixel with it. -/
theorem seen_drawWindow_iff {s : Painted} (h : Stacked width height s) (fw : WindowSlot) :
    Seen width height (s.drawWindow fw) ↔
      ∀ x y, OnScreen width height x y → s.desktop.covers x y fw = true →
        ∀ j, s.desktop.covers x y j = true → j ≤ fw := by
  have hsame := sameFrames_drawWindow s.desktop fw
  constructor
  · intro hseen x y hpixel hfw
    have htop := hseen x y hpixel ⟨fw, (congrFun (hsame.covers x y) fw).trans hfw⟩
    rw [canvas_drawWindow, if_pos hfw] at htop
    have hfind : s.desktop.findWindowAt x y = some fw :=
      (hsame.findWindowAt h.sized x y).symm.trans htop
    rw [findWindowAt_eq h.sized] at hfind
    exact (Panel.find?_down_eq_some_iff.mp hfind).2
  · intro hfree x y hpixel _
    have hfind : (s.drawWindow fw).desktop.findWindowAt x y = s.desktop.findWindowAt x y :=
      hsame.findWindowAt h.sized x y
    rw [hfind, canvas_drawWindow]
    split
    · rename_i hfw
      rw [findWindowAt_eq h.sized]
      exact Panel.find?_down_eq_some_iff.mpr ⟨hfw, hfree x y hpixel hfw⟩
    · exact (h.top x y hpixel).symm

/-- Where no window's body is, nothing is painted. -/
theorem stacked_drawWindow {s : Painted} (h : Stacked width height s) {fw : WindowSlot}
    (hseen : Seen width height (s.drawWindow fw)) : Stacked width height (s.drawWindow fw) := by
  have hsame := sameFrames_drawWindow s.desktop fw
  refine ⟨hsame.sized h.sized, fun x y hpixel => ?_⟩
  by_cases hcovered : ∃ i, (s.drawWindow fw).desktop.covers x y i = true
  · exact (hseen x y hpixel hcovered).symm
  · have hfw : ¬ s.desktop.covers x y fw = true := fun hfw =>
      hcovered ⟨fw, (congrFun (hsame.covers x y) fw).trans hfw⟩
    rw [canvas_drawWindow, if_neg hfw, h.top x y hpixel]
    exact (hsame.findWindowAt h.sized x y).symm

/-- The window that a key repaints. -/
def repaints (d : Desktop) (c : UInt8) (returns : Bool) : Option WindowSlot :=
  match d.focusedWindow with
  | none => none
  | some fw =>
      if (d.windows fw).keypress = .terminal ∧ entersLoop d c returns = true then none else some fw

theorem not_tellsExit_of_entersLoop {d : Desktop} {c : UInt8} {returns : Bool}
    (h : entersLoop d c returns = true) : ¬ d.TellsExit c := by
  intro hexit
  simp [entersLoop, hexit.2.2] at h

/-- The body of an open window that the key does not close. -/
def Remains (s : Painted) (c : UInt8) (returns : Bool) (x y : Int) (i : WindowSlot) : Prop :=
  s.desktop.covers x y i = true ∧ ¬ s.desktop.Closes i (.key c returns)

/-- A key that repaints nothing moves no window and closes none. -/
theorem stacked_key_of_none {s : Painted} (h : Stacked width height s) {c : UInt8} {returns : Bool}
    (hnone : repaints s.desktop c returns = none) : Stacked width height (s.key c returns) := by
  unfold repaints at hnone
  unfold key
  cases hfocus : s.desktop.focusedWindow with
  | none => exact h
  | some fw =>
      rw [hfocus] at hnone
      dsimp only at hnone ⊢
      split at hnone
      · rename_i hloop
        rw [hloop.1, if_pos hloop.2]
        refine h.congr rfl ?_
        rw [key_of_terminal hfocus hloop.1]
        exact (sameFrames_termHandleKey (not_tellsExit_of_entersLoop hloop.2) returns).trans
          (sameFrames_drawWindow _ fw)
      · exact nomatch hnone

theorem stacked_termHandleKey {s : Painted} (h : Stacked width height s) (c : UInt8)
    (returns : Bool) : Stacked width height (s.termHandleKey c returns) := by
  unfold termHandleKey
  split
  · have hquiet : ∀ t : Terminal, Stacked width height
        { s with desktop := { s.desktop with term := t } } := fun t =>
      h.congr rfl (sameFrames_of_windows rfl)
    dsimp only
    split
    · exact stacked_closeWindow (hquiet _) _
    · exact hquiet _
  · rename_i hexit
    exact h.congr rfl (sameFrames_termHandleKey hexit returns)

/-- Any other key repaints a window after it has closed the one that it closes. -/
theorem key_of_some {s : Painted} (h : Stacked width height s) {c : UInt8} {returns : Bool}
    (hcount : s.desktop.windowCount > 0) {fw : WindowSlot}
    (hsome : repaints s.desktop c returns = some fw) :
    ∃ s₁, Stacked width height s₁ ∧ s.key c returns = s₁.drawWindow fw ∧
      ∀ x y i, s₁.desktop.covers x y i = true ↔ s.Remains c returns x y i := by
  unfold repaints at hsome
  unfold key
  cases hfocus : s.desktop.focusedWindow with
  | none =>
      rw [hfocus] at hsome
      exact nomatch hsome
  | some fw' =>
      rw [hfocus] at hsome
      dsimp only at hsome ⊢
      split at hsome
      · exact nomatch hsome
      · rename_i hloop
        obtain rfl := Option.some.inj hsome
        split
        · rename_i hhandler
          rw [if_neg fun henters => hloop ⟨hhandler, henters⟩]
          refine ⟨s.termHandleKey c returns, stacked_termHandleKey h c returns, rfl, ?_⟩
          intro x y i
          rw [desktop_termHandleKey, covers_termHandleKey,
            ← exits_iff_tellsExit hcount hfocus hhandler]
          exact Iff.rfl
        · rename_i hhandler
          refine ⟨s, h, rfl, fun x y i => ⟨fun hi => ⟨hi, ?_⟩, fun hi => hi.1⟩⟩
          rintro ⟨⟨_, ⟨w, hw, hterminal⟩, _⟩, _⟩
          obtain rfl := Option.some.inj (hfocus.symm.trans hw)
          exact hhandler hterminal

variable (width height)

/-- A key repaints no window that shares a pixel with one of a higher number.  A window that
the key closes does not count. -/
def Clear (s : Painted) : Turn → Prop
  | .key c returns =>
      s.desktop.windowCount > 0 → ∀ fw, repaints s.desktop c returns = some fw →
        ∀ x y, OnScreen width height x y → s.Remains c returns x y fw →
          ∀ j, s.Remains c returns x y j → j ≤ fw
  | _ => True

variable {width height}

/-- One part of a turn keeps the windows as they are seen exactly if it is clear. -/
theorem seen_step_iff {s s' : Painted} {t : Turn} (h : Stacked width height s)
    (hstep : s.step t = .ok s') :
    (Seen width height s' ↔ Clear width height s t) ∧
      (Clear width height s t → Stacked width height s') := by
  have hstacked : ∀ {s' : Painted} {P : Prop}, Stacked width height s' → P →
      (Seen width height s' ↔ P) ∧ (P → Stacked width height s') := fun hs hP =>
    ⟨⟨fun _ => hP, fun _ => hs.seen⟩, fun _ => hs⟩
  cases t with
  | mouse m =>
      obtain rfl := Except.ok.inj hstep
      refine hstacked ?_ trivial
      split
      · exact stacked_mouse h m
      · exact h
  | run =>
      obtain rfl := Except.ok.inj hstep
      exact hstacked (stacked_drawAll h.sized) trivial
  | key c returns =>
      obtain rfl := Except.ok.inj hstep
      split
      · rename_i hcount
        cases hpaints : repaints s.desktop c returns with
        | none =>
            refine hstacked (stacked_key_of_none h hpaints) fun _ fw hfw => ?_
            exact nomatch hpaints.symm.trans hfw
        | some fw =>
            obtain ⟨s₁, hs₁, hkey, hcovers⟩ := key_of_some h hcount hpaints
            rw [hkey]
            have hiff : Seen width height (s₁.drawWindow fw) ↔
                Clear width height s (.key c returns) := by
              rw [seen_drawWindow_iff hs₁]
              simp only [hcovers]
              constructor
              · intro hfree _ fw' hfw'
                obtain rfl := Option.some.inj (hpaints.symm.trans hfw')
                exact hfree
              · exact fun hclear => hclear hcount fw hpaints
            exact ⟨hiff, fun hclear => stacked_drawWindow hs₁ (hiff.mpr hclear)⟩
      · rename_i hcount
        exact hstacked h fun hpos => absurd hpos hcount

/-- `brickwm_run` is called, with whatever windows, and events follow: a click goes to the
window that is seen, at every pixel and throughout, exactly if every key was clear. -/
theorem seen_iff_clear (width height : Int) (d : Desktop) (h : d.Sized) (turns : List Turn) :
    Along step (Seen width height) (start d) turns ↔
      Guarded step (Clear width height) (start d) turns := by
  refine along_iff_of_invariant (I := Stacked width height) (fun _ hs => hs.seen) ?_ ?_
    (stacked_drawAll h)
  · exact fun s t s' hs hclear hstep => (seen_step_iff hs hstep).2 hclear
  · exact fun s t s' hs hstep hseen => (seen_step_iff hs hstep).1.mp hseen

end

theorem noNul_programManager : (0 : UInt8) ∉ text "Program Manager" := by decide

/-- The windows when `progman_run` calls `brickwm_run`. -/
def programManager : Desktop :=
  (boot.init.createWindow
    ⟨⟨text "Program Manager", noNul_programManager⟩, 100, 50, 500, 400, .progman, .null⟩).1

theorem sized_programManager : programManager.Sized :=
  sized_createWindow (fun i hi => absurd rfl hi) _ (by decide)

/-- The mouse is moved from one place to another, and the button is pressed and released. -/
def clickFrom (x y mx my : Int) : List Turn :=
  [.mouse ⟨mx, my, false, x, y, false⟩, .mouse ⟨mx, my, true, mx, my, false⟩,
    .mouse ⟨mx, my, false, mx, my, true⟩]

theorem seen_iff_clear_fileManager :
    programManager.Sized ∧
      Along step (Seen 1024 768) (start programManager)
        (clickFrom 0 0 220 110 ++ [.key 106 true]) := by
  refine ⟨sized_programManager,
    (seen_iff_clear 1024 768 programManager sized_programManager _).mpr ?_⟩
  intro s₁ h₁
  refine ⟨trivial, fun s₂ h₂ => ⟨trivial, fun s₃ h₃ => ⟨trivial, fun s₄ h₄ => ⟨?_, trivial⟩⟩⟩⟩
  obtain rfl := Except.ok.inj h₁
  obtain rfl := Except.ok.inj h₂
  obtain rfl := Except.ok.inj h₃
  intro _ fw hfw x y _ _ j hj
  have hfocus : some 1 = some fw := Eq.trans (by decide +kernel) hfw
  have hopen := (Bool.and_eq_true_iff.mp hj.1).1
  rw [decide_eq_true_eq] at hopen
  obtain rfl := Option.some.inj hfocus
  clear hj
  revert j
  decide +kernel

/-- The file manager and then the terminal are started, the file manager is clicked where it
sticks out behind the terminal, and a key is pressed. -/
def keyBehind : List Turn :=
  clickFrom 0 0 220 110 ++ clickFrom 220 110 140 110 ++ clickFrom 140 110 690 300 ++
    [.key 106 true]

theorem run_keyBehind :
    ((run step (start programManager) keyBehind).toOption.map fun s =>
      (s.desktop.covers 300 300 2, s.desktop.findWindowAt 300 300, s.canvas 300 300)) =
        some (true, some 2, some 1) := by
  decide +kernel

theorem not_seen_after_key :
    ¬ Along step (Seen 1024 768) (start programManager) keyBehind := by
  intro halong
  obtain ⟨s, hrun, hend⟩ := exists_run_of_map run_keyBehind
  obtain ⟨hcovers, hfind⟩ := Prod.mk.inj hend
  obtain ⟨hfind, hcanvas⟩ := Prod.mk.inj hfind
  have hseen := halong.last hrun 300 300 (by decide) ⟨2, hcovers⟩
  rw [hfind, hcanvas] at hseen
  exact absurd hseen (by decide)

end Painted

end Desktop

end FalastinOS.Gui
