/-
  Gui/Windows.lean --- `brickwm.c`: windows, focus, and the loop of the window manager.

  Eight slots hold the windows.  A slot is open while its `use_count` is not 0, and one
  of the open windows should have the focus, `active`.  It is set in three places: by
  `brickwm_create_window`, by a click, and by `brickwm_close_window`, which gives it to
  the open window with the highest number without taking it from any other.

  One turn of the loop of `brickwm_run` is a `mouse` event and, when a key is waiting, a
  `key` event.  A click in the program manager can start the terminal or the file
  manager, and the terminal closes its own window when it is told to exit.  It gets the
  keys also while another window, one without a key handler, has the focus.

  `focused_iff_tidy` says which closings keep the focus in one place.
-/
import FalastinOS.Foundation.CString
import FalastinOS.Foundation.Execution
import FalastinOS.Gui.Panel

set_option autoImplicit false

namespace FalastinOS.Gui

open FalastinOS.Foundation

/-! ## Windows -/

/-- What a `draw` pointer can be; only the program manager's keeps something. -/
inductive Drawer where
  | null
  | progman
  | other
  deriving DecidableEq

/-- What a `keypress` pointer can be. -/
inductive Handler where
  | null
  | terminal
  | fileManager
  deriving DecidableEq

/-- `Window`. -/
structure Window where
  x : Int
  y : Int
  w : Int
  h : Int
  title : CharArray 32
  active : Bool
  draw : Drawer
  keypress : Handler
  useCount : Nat

/-- The variables of `term.c`.  The command line is its first `cmdlen` characters. -/
structure Terminal where
  cmdline : List UInt8
  termActive : Bool
  /-- `term_handle`; none for -1. -/
  termHandle : Option WindowSlot

/-- The variables of `brickwm.c`, with the places of the icons in `progman.c` and the
terminal. -/
structure Desktop where
  windows : WindowSlot → Window
  windowCount : Int
  dragging : Bool
  dragWin : Option WindowSlot
  dragOffX : Int
  dragOffY : Int
  icons : Fin 4 → Int × Int
  term : Terminal

namespace Desktop

/-- The variables before `brickwm_init`. -/
def boot : Desktop where
  windows := fun _ => ⟨0, 0, 0, 0, fun _ => 0, false, .null, .null, 0⟩
  windowCount := 0
  dragging := false
  dragWin := none
  dragOffX := 0
  dragOffY := 0
  icons := fun _ => (0, 0)
  term := ⟨[], true, none⟩

/-- `TITLEBAR_H`. -/
def titlebarH : Int := 20

/-- `brickwm_init()`. -/
def init (s : Desktop) : Desktop :=
  { s with
    windows := fun i => { s.windows i with useCount := 0, draw := .null, keypress := .null }
    windowCount := 0 }

/-- The arguments of `brickwm_create_window`. -/
structure NewWindow where
  title : CStr
  x : Int
  y : Int
  w : Int
  h : Int
  draw : Drawer
  keypress : Handler

/-- The loop over the title copies no NUL; only the last byte is always one. -/
def copyTitle (old : CharArray 32) (title : CStr) : CharArray 32 := fun k =>
  if k.val = 31 then 0 else if k.val < title.length then title.byte k.val else old k

/-- The first slot that is not in use. -/
def firstFree (s : Desktop) : Option WindowSlot :=
  (List.finRange 8).find? fun i => decide ((s.windows i).useCount = 0)

/-- The windows after `brickwm_create_window` took slot `i`. -/
def withWindow (s : Desktop) (n : NewWindow) (i : WindowSlot) : WindowSlot → Window := fun j =>
  if j = i then
    ⟨n.x, n.y, n.w, n.h, copyTitle (s.windows i).title n.title, true, n.draw, n.keypress, 1⟩
  else { s.windows j with active := false }

/-- `brickwm_create_window(title, x, y, w, h, draw, keypress)`; no handle stands for -1. -/
def createWindow (s : Desktop) (n : NewWindow) : Desktop × Option WindowSlot :=
  match s.firstFree with
  | none => (s, none)
  | some i => ({ s with windows := s.withWindow n i, windowCount := s.windowCount + 1 }, some i)

/-- `draw_window(idx)`: the program manager notes where its icons are. -/
def drawWindow (s : Desktop) (i : WindowSlot) : Desktop :=
  if (s.windows i).useCount ≠ 0 ∧ (s.windows i).draw = .progman then
    { s with
      icons := fun k => ((s.windows i).x + 20 + k.val * 80 + 10,
        (s.windows i).y + titlebarH + 20 + 10) }
  else s

/-- `draw_all()`. -/
def drawAll (s : Desktop) : Desktop := (List.finRange 8).foldl drawWindow s

/-- The highest-numbered slot in use. -/
def highestOpen (s : Desktop) : Option WindowSlot :=
  (List.finRange 8).reverse.find? fun i => decide ((s.windows i).useCount ≠ 0)

/-- The slot is taken out of use. -/
def dropWindow (s : Desktop) (i : WindowSlot) : Desktop :=
  { s with
    windows := Function.update s.windows i
      { s.windows i with useCount := 0, draw := .null, keypress := .null }
    windowCount := s.windowCount - 1 }

/-- Mark a window as active, whatever the others are. -/
def activate (s : Desktop) (i : WindowSlot) : Desktop :=
  { s with windows := Function.update s.windows i { s.windows i with active := true } }

/-- `brickwm_close_window(handle)`, for a handle in range. -/
def closeWindow (s : Desktop) (i : WindowSlot) : Desktop :=
  if (s.windows i).useCount = 0 then s
  else
    match (s.dropWindow i).highestOpen with
    | some top => ((s.dropWindow i).activate top).drawAll
    | none => (s.dropWindow i).drawAll

/-- `focused_window()`. -/
def focusedWindow (s : Desktop) : Option WindowSlot :=
  let hasHandler := fun i => decide ((s.windows i).useCount ≠ 0) &&
    decide ((s.windows i).keypress ≠ .null)
  match (List.finRange 8).reverse.find? fun i => hasHandler i && (s.windows i).active with
  | some i => some i
  | none => (List.finRange 8).reverse.find? hasHandler

/-- Is the point in the rectangle? -/
def inside (mx my x y w h : Int) : Bool := x ≤ mx ∧ mx < x + w ∧ y ≤ my ∧ my < y + h

/-- `find_window_at(mx, my)`. -/
def findWindowAt (s : Desktop) (mx my : Int) : Option WindowSlot :=
  (List.finRange 8).reverse.find? fun i => decide ((s.windows i).useCount ≠ 0) &&
    inside mx my (s.windows i).x (s.windows i).y (s.windows i).w ((s.windows i).h + titlebarH)

/-- `check_close_click(mx, my, idx)`. -/
def checkCloseClick (w : Window) (mx my : Int) : Bool :=
  inside mx my (w.x + w.w - 18) (w.y + 2) 14 14

/-- `check_titlebar_click(mx, my, idx)`. -/
def checkTitlebarClick (w : Window) (mx my : Int) : Bool :=
  inside mx my w.x w.y (w.w - 18) titlebarH

/-- `check_client_click(mx, my, idx)`. -/
def checkClientClick (w : Window) (mx my : Int) : Bool :=
  inside mx my w.x (w.y + titlebarH) w.w w.h

/-! ## The programs -/

/-- `terminal_run()`. -/
def terminalRun (s : Desktop) : Desktop :=
  let (s', handle) := createWindow { s with term := ⟨[], true, none⟩ }
    ⟨⟨text "Terminal", by decide⟩, 150, 100, 500, 350, .other, .terminal⟩
  { s' with term := { s'.term with termHandle := handle } }

/-- `fileman_run(200, 100, 500, 380)`, as far as the windows are concerned. -/
def filemanRun (s : Desktop) : Desktop :=
  (s.createWindow
    ⟨⟨text "File Manager", by decide⟩, 200, 100, 500, 380, .other, .fileManager⟩).1

/-- `find_icon_click(mx, my)`. -/
def findIconClick (s : Desktop) (mx my : Int) : Option (Fin 4) :=
  (List.finRange 4).find? fun k => inside mx my (s.icons k).1 (s.icons k).2 80 80

/-- `progman_handle_click(mx, my)`.  The editor and DOOM take the whole screen, and when they
return the windows are as they were. -/
def progmanHandleClick (s : Desktop) (mx my : Int) : Desktop :=
  match s.findIconClick mx my with
  | some 0 => s.terminalRun
  | some 1 => s.filemanRun
  | _ => s

/-- `term_handle_key(c)`.  A command does nothing to the windows itself; `gui` runs another
loop over them, and then the line is only cleared after that loop has ended, when no window
is left.  `returns` says whether the command returns at once. -/
def termHandleKey (s : Desktop) (c : UInt8) (returns : Bool) : Desktop :=
  if !s.term.termActive then s
  else if c = 10 then
    if s.term.cmdline = text "exit" then
      let s := { s with term := { s.term with termActive := false } }
      match s.term.termHandle with
      | some handle => s.closeWindow handle
      | none => s
    else if returns then { s with term := { s.term with cmdline := [] } }
    else s
  else if c = 8 then { s with term := { s.term with cmdline := s.term.cmdline.dropLast } }
  else if 32 ≤ c ∧ c ≤ 126 ∧ s.term.cmdline.length < 255 then
    { s with term := { s.term with cmdline := s.term.cmdline ++ [c] } }
  else s

/-! ## The loop -/

/-- The mouse in one turn of the loop, and in the turn before it; the latter are variables of
the call of `brickwm_run` that makes the turn. -/
structure Mouse where
  mx : Int
  my : Int
  left : Bool
  lastMx : Int
  lastMy : Int
  lastLeft : Bool

/-- `windows[i].active = (i == clicked)` for all windows. -/
def raise (s : Desktop) (clicked : WindowSlot) : Desktop :=
  { s with windows := fun i => { s.windows i with active := decide (i = clicked) } }

/-- The mouse takes hold of a title bar. -/
def grab (s : Desktop) (i : WindowSlot) (mx my : Int) : Desktop :=
  { s with
    dragging := true
    dragWin := some i
    dragOffX := mx - (s.windows i).x
    dragOffY := my - (s.windows i).y }

/-- The branch for `left_down`. -/
def click (s : Desktop) (mx my : Int) : Desktop :=
  match s.findWindowAt mx my with
  | none => s
  | some clicked =>
      let s := s.raise clicked
      let w := s.windows clicked
      if checkCloseClick w mx my then s.closeWindow clicked
      else if checkTitlebarClick w mx my then
        (s.grab clicked mx my).drawAll
      else if checkClientClick w mx my then
        if w.title.toCStr = text "Program Manager" then (s.progmanHandleClick mx my).drawAll
        else s.drawAll
      else s

/-- `windows[drag_win]` follows the mouse. -/
def drag (s : Desktop) (i : WindowSlot) (mx my : Int) : Desktop :=
  { s with
    windows := Function.update s.windows i
      { s.windows i with x := mx - s.dragOffX, y := my - s.dragOffY } }

/-- The window that is held follows the mouse when it has moved. -/
def follow (s : Desktop) (m : Mouse) : Desktop :=
  match s.dragWin with
  | some i =>
      if s.dragging && m.left && (m.mx ≠ m.lastMx || m.my ≠ m.lastMy) then
        (s.drag i m.mx m.my).drawAll
      else s
  | none => s

/-- The branch for `left_up`. -/
def letGo (s : Desktop) (m : Mouse) : Desktop :=
  if !m.left && m.lastLeft && s.dragging then { s with dragging := false, dragWin := none } else s

/-- The part of a turn that looks at the mouse. -/
def mouse (s : Desktop) (m : Mouse) : Desktop :=
  let s := (s.follow m).letGo m
  if m.left && !m.lastLeft then s.click m.mx m.my else s

/-- The part of a turn that handles a key. -/
def key (s : Desktop) (c : UInt8) (returns : Bool) : Desktop :=
  match s.focusedWindow with
  | none => s
  | some fw =>
      match (s.windows fw).keypress with
      | .terminal => (s.termHandleKey c returns).drawWindow fw
      | _ => s.drawWindow fw

/-- What happens to the windows. -/
inductive Event where
  | init
  | create (n : NewWindow)
  | close (handle : Int)
  /-- `brickwm_run` is called and redraws -/
  | run
  /-- a turn of its loop -/
  | mouse (m : Mouse)
  /-- the rest of the turn when a key is waiting -/
  | key (c : UInt8) (returns : Bool)

/-- The slot a handle names, if it is in range. -/
def slotOf (handle : Int) : Option WindowSlot :=
  if h : 0 ≤ handle ∧ handle < 8 then some ⟨handle.toNat, by omega⟩ else none

/-- One event.  None can fail; the loop makes no turn when no window is left. -/
def step (s : Desktop) : Event → Except Empty Desktop
  | .init => .ok s.init
  | .create n => .ok (s.createWindow n).1
  | .close handle => .ok (match slotOf handle with | some i => s.closeWindow i | none => s)
  | .run => .ok s.drawAll
  | .mouse m => .ok (if s.windowCount > 0 then s.mouse m else s)
  | .key c returns => .ok (if s.windowCount > 0 then s.key c returns else s)

/-- The focus invariant: the count is the number of slots in use, and one window in use is
active whenever there is one. -/
structure FocusInvariant (s : Desktop) : Prop where
  count : s.windowCount = (Finset.univ.filter fun i => (s.windows i).useCount ≠ 0).card
  focus : s.windowCount > 0 →
    ∃! i, (s.windows i).useCount ≠ 0 ∧ (s.windows i).active = true

/-- Does the key make the terminal exit? -/
def Exits (s : Desktop) (c : UInt8) : Prop :=
  s.windowCount > 0 ∧ (∃ fw, s.focusedWindow = some fw ∧ (s.windows fw).keypress = .terminal) ∧
    s.term.termActive = true ∧ c = 10 ∧ s.term.cmdline = text "exit"

/-- The slot the event closes, apart from the close button, which closes the window that the
same click made active. -/
def Closes (s : Desktop) (i : WindowSlot) : Event → Prop
  | .close handle => slotOf handle = some i
  | .key c _ => s.Exits c ∧ s.term.termHandle = some i
  | _ => False

/-- A window in use is closed only if it is active, or if the active one is the
highest-numbered of the others in use. -/
def Tidy (s : Desktop) (e : Event) : Prop :=
  ∀ i, s.Closes i e → (s.windows i).useCount ≠ 0 →
    (s.windows i).active = true ∨
      ∀ a, (s.windows a).useCount ≠ 0 → (s.windows a).active = true →
        ∀ b, b ≠ i → (s.windows b).useCount ≠ 0 → b ≤ a

/-! ## The windows as a panel -/

/-- The windows as far as the focus is concerned. -/
def panel (s : Desktop) : Panel :=
  ⟨fun i => decide ((s.windows i).useCount ≠ 0), fun i => (s.windows i).active, s.windowCount⟩

theorem panel_isOpen (s : Desktop) (i : WindowSlot) :
    s.panel.isOpen i = true ↔ (s.windows i).useCount ≠ 0 := decide_eq_true_iff

theorem focusInvariant_iff (s : Desktop) : s.FocusInvariant ↔ s.panel.Focused := by
  constructor
  · rintro ⟨hcount, hfocus⟩
    refine ⟨?_, fun hpos => ?_⟩
    · rw [Panel.Counted]
      simp only [panel_isOpen]
      exact hcount
    · simp only [panel_isOpen]
      exact hfocus hpos
  · rintro ⟨hcount, hfocus⟩
    rw [Panel.Counted] at hcount
    simp only [panel_isOpen] at hcount hfocus
    exact ⟨hcount, hfocus⟩

/-- The panel when one window is replaced. -/
theorem panel_update (s : Desktop) (i : WindowSlot) (w : Window) (count : Int) :
    panel { s with windows := Function.update s.windows i w, windowCount := count } =
      ⟨Function.update s.panel.isOpen i (decide (w.useCount ≠ 0)),
        Function.update s.panel.active i w.active, count⟩ := by
  simp only [panel, Panel.mk.injEq, and_true]
  constructor
  · funext j
    exact Function.apply_update (fun _ (w : Window) => decide (w.useCount ≠ 0)) s.windows i w j
  · funext j
    exact Function.apply_update (fun _ => Window.active) s.windows i w j

/-- Drawing a window changes the places of the icons at most. -/
theorem drawWindow_eq (s : Desktop) (i : WindowSlot) :
    ∃ icons, s.drawWindow i = { s with icons := icons } := by
  unfold drawWindow
  split
  · exact ⟨_, rfl⟩
  · exact ⟨s.icons, rfl⟩

theorem drawAll_eq (s : Desktop) : ∃ icons, s.drawAll = { s with icons := icons } := by
  unfold drawAll
  induction List.finRange 8 generalizing s with
  | nil => exact ⟨s.icons, rfl⟩
  | cons i rest ih =>
      obtain ⟨drawn, hdrawn⟩ := s.drawWindow_eq i
      obtain ⟨icons, hrest⟩ := ih (s.drawWindow i)
      refine ⟨icons, ?_⟩
      rw [List.foldl_cons, hrest, hdrawn]

theorem windows_drawAll (s : Desktop) : s.drawAll.windows = s.windows := by
  obtain ⟨icons, h⟩ := s.drawAll_eq
  rw [h]

@[simp] theorem panel_drawWindow (s : Desktop) (i : WindowSlot) :
    (s.drawWindow i).panel = s.panel := by
  obtain ⟨icons, h⟩ := s.drawWindow_eq i
  rw [h]
  rfl

@[simp] theorem panel_drawAll (s : Desktop) : s.drawAll.panel = s.panel := by
  obtain ⟨icons, h⟩ := s.drawAll_eq
  rw [h]
  rfl

theorem panel_createWindow (s : Desktop) (n : NewWindow) :
    (s.createWindow n).1.panel = s.panel ∨
      ∃ i, s.panel.isOpen i = false ∧ (s.createWindow n).1.panel = s.panel.opened i := by
  unfold createWindow
  cases hfree : s.firstFree with
  | none => exact .inl rfl
  | some i =>
      have huse : (s.windows i).useCount = 0 := by simpa using List.find?_some hfree
      refine .inr ⟨i, by simp [panel, huse], ?_⟩
      simp only [panel, Panel.opened, withWindow, Panel.mk.injEq, and_true]
      constructor
      · funext j
        by_cases hj : j = i
        · simp [hj]
        · simp [hj]
      · funext j
        by_cases hj : j = i
        · simp [hj]
        · simp [hj]

theorem panel_dropWindow (s : Desktop) (i : WindowSlot) :
    (s.dropWindow i).panel = s.panel.without i := by
  rw [dropWindow, panel_update, Panel.without]
  congr 1
  exact Function.update_eq_self i s.panel.active

theorem panel_activate (s : Desktop) (i : WindowSlot) :
    (s.activate i).panel = { s.panel with active := Function.update s.panel.active i true } := by
  rw [activate, panel_update]
  congr 1
  exact Function.update_eq_self_iff.mpr rfl

theorem highestOpen_eq (s : Desktop) : s.highestOpen = s.panel.highest := rfl

theorem panel_closeWindow (s : Desktop) {i : WindowSlot} (hopen : (s.windows i).useCount ≠ 0) :
    (s.closeWindow i).panel = s.panel.closed i := by
  unfold closeWindow Panel.closed
  rw [if_neg hopen, highestOpen_eq, panel_dropWindow]
  cases (s.panel.without i).highest with
  | none => rw [panel_drawAll, panel_dropWindow]
  | some top =>
      dsimp only
      rw [panel_drawAll, panel_activate, panel_dropWindow]
      rfl

theorem panel_closeWindow_eq (s : Desktop) (i : WindowSlot) :
    (s.closeWindow i).panel =
      if (s.windows i).useCount = 0 then s.panel else s.panel.closed i := by
  by_cases hfree : (s.windows i).useCount = 0
  · rw [if_pos hfree, closeWindow, if_pos hfree]
  · rw [if_neg hfree, panel_closeWindow s hfree]

/-! ## One event -/

variable {s : Desktop}

theorem panel_progmanHandleClick (s : Desktop) (mx my : Int) :
    (s.progmanHandleClick mx my).panel = s.panel ∨
      ∃ i, s.panel.isOpen i = false ∧ (s.progmanHandleClick mx my).panel = s.panel.opened i := by
  unfold progmanHandleClick
  split
  · exact panel_createWindow { s with term := ⟨[], true, none⟩ } _
  · exact panel_createWindow s _
  · exact .inl rfl

/-- A click changes nothing, or it leaves the focus in one place. -/
theorem focused_click (h : s.panel.Counted) (mx my : Int) :
    (s.click mx my).panel = s.panel ∨ (s.click mx my).panel.Focused := by
  unfold click
  cases hfind : s.findWindowAt mx my with
  | none => exact .inl rfl
  | some clicked =>
      have hopen : s.panel.isOpen clicked = true := by
        have hfound := List.find?_some hfind
        rw [Bool.and_eq_true] at hfound
        exact hfound.1
      have hraised : (s.raise clicked).panel.Focused := Panel.focused_focus h hopen
      refine .inr ?_
      dsimp only
      split
      · have huse : ((s.raise clicked).windows clicked).useCount ≠ 0 := (panel_isOpen s _).mp hopen
        rw [panel_closeWindow _ huse]
        exact (Panel.focused_closed_iff hraised hopen).mpr (Panel.tidy_focus s.panel clicked)
      · split
        · rw [panel_drawAll]
          exact hraised
        · split
          · split
            · rw [panel_drawAll]
              obtain hsame | ⟨i, hfree, hnew⟩ := panel_progmanHandleClick (s.raise clicked) mx my
              · rw [hsame]
                exact hraised
              · rw [hnew]
                exact Panel.focused_opened hraised.counted hfree
            · rw [panel_drawAll]
              exact hraised
          · exact hraised

theorem panel_drag (s : Desktop) (i : WindowSlot) (mx my : Int) :
    (s.drag i mx my).panel = s.panel := by
  rw [drag, panel_update]
  exact congrArg₂ (fun isOpen active => (⟨isOpen, active, s.windowCount⟩ : Panel))
    (Function.update_eq_self i s.panel.isOpen) (Function.update_eq_self i s.panel.active)

theorem panel_follow (s : Desktop) (m : Mouse) : (s.follow m).panel = s.panel := by
  unfold follow
  split
  · split
    · rw [panel_drawAll, panel_drag]
    · rfl
  · rfl

theorem panel_letGo (s : Desktop) (m : Mouse) : (s.letGo m).panel = s.panel := by
  unfold letGo
  split <;> rfl

theorem focused_mouse (h : s.panel.Counted) (m : Mouse) :
    (s.mouse m).panel = s.panel ∨ (s.mouse m).panel.Focused := by
  have hbefore : ((s.follow m).letGo m).panel = s.panel :=
    (panel_letGo _ m).trans (panel_follow s m)
  unfold mouse
  dsimp only
  split
  · rw [← hbefore] at h ⊢
    exact focused_click h _ _
  · exact .inl hbefore

/-- A terminal that is not told to exit changes nothing but its own variables. -/
theorem termHandleKey_stays {c : UInt8} (returns : Bool)
    (h : ¬ (s.term.termActive = true ∧ c = 10 ∧ s.term.cmdline = text "exit")) :
    ∃ term, s.termHandleKey c returns = { s with term := term } := by
  unfold termHandleKey
  split
  · exact ⟨s.term, rfl⟩
  · rename_i hactive
    split
    · rename_i hc
      split
      · rename_i hexit
        exact absurd ⟨by simpa using hactive, hc, hexit⟩ h
      · split
        · exact ⟨_, rfl⟩
        · exact ⟨s.term, rfl⟩
    · split
      · exact ⟨_, rfl⟩
      · split
        · exact ⟨_, rfl⟩
        · exact ⟨s.term, rfl⟩

/-- A key that does not make the terminal exit does nothing to the windows. -/
theorem panel_key_of_not_exits {c : UInt8} (returns : Bool) (hcount : s.windowCount > 0)
    (h : ¬ s.Exits c) : (s.key c returns).panel = s.panel := by
  unfold key
  cases hfocus : s.focusedWindow with
  | none => rfl
  | some fw =>
      dsimp only
      split
      · rename_i hhandler
        obtain ⟨term, hterm⟩ := termHandleKey_stays returns fun hexit =>
          h ⟨hcount, ⟨fw, hfocus, hhandler⟩, hexit⟩
        rw [panel_drawWindow, hterm]
        rfl
      · rw [panel_drawWindow]

/-- A key that makes the terminal exit closes the window it has a handle for. -/
theorem panel_key_of_exits {c : UInt8} (returns : Bool) (h : s.Exits c) :
    (s.key c returns).panel =
      match s.term.termHandle with
      | some i => if (s.windows i).useCount = 0 then s.panel else s.panel.closed i
      | none => s.panel := by
  obtain ⟨_, ⟨fw, hfocus, hhandler⟩, hactive, hc, hexit⟩ := h
  unfold key
  rw [hfocus]
  dsimp only
  rw [hhandler]
  dsimp only
  rw [panel_drawWindow, termHandleKey, hactive, hc, hexit]
  simp only [Bool.not_true, Bool.false_eq_true, if_false, if_true]
  cases hhandle : s.term.termHandle with
  | none => rfl
  | some i => exact panel_closeWindow_eq _ i

/-- An event that names one window to be closed closes it, if it is open. -/
theorem panel_of_closes {s' : Desktop} {e : Event} {i : WindowSlot} (hi : s.Closes i e)
    (hone : ∀ j, s.Closes j e → j = i)
    (hpanel : s'.panel = if (s.windows i).useCount = 0 then s.panel else s.panel.closed i) :
    (s'.panel = s.panel ∧ ∀ i, s.Closes i e → (s.windows i).useCount = 0) ∨
      ∃ i, s.Closes i e ∧ (∀ j, s.Closes j e → j = i) ∧ (s.windows i).useCount ≠ 0 ∧
        s'.panel = s.panel.closed i := by
  by_cases hfree : (s.windows i).useCount = 0
  · rw [if_pos hfree] at hpanel
    exact .inl ⟨hpanel, fun j hj => by rwa [hone j hj]⟩
  · rw [if_neg hfree] at hpanel
    exact .inr ⟨i, hi, hone, hfree, hpanel⟩

/-- What an event does to the panel: nothing, or the closing it names, or something after
which the focus is in one place. -/
theorem panel_step {s' : Desktop} {e : Event} (h : s.panel.Counted) (hstep : s.step e = .ok s') :
    (s'.panel = s.panel ∧ ∀ i, s.Closes i e → (s.windows i).useCount = 0) ∨
      (∃ i, s.Closes i e ∧ (∀ j, s.Closes j e → j = i) ∧ (s.windows i).useCount ≠ 0 ∧
        s'.panel = s.panel.closed i) ∨
      (s'.panel.Focused ∧ ∀ i, ¬ s.Closes i e) := by
  cases e with
  | init =>
      obtain rfl := Except.ok.inj hstep
      refine .inr (.inr ⟨⟨?_, fun hpos => absurd hpos (Int.lt_irrefl 0)⟩, fun i hi => hi⟩)
      rw [Panel.Counted]
      simp [panel, init]
  | create n =>
      obtain rfl := Except.ok.inj hstep
      obtain hsame | ⟨i, hfree, hnew⟩ := panel_createWindow s n
      · exact .inl ⟨hsame, fun i hi => False.elim hi⟩
      · rw [hnew]
        exact .inr (.inr ⟨Panel.focused_opened h hfree, fun i hi => hi⟩)
  | close handle =>
      obtain rfl := Except.ok.inj hstep
      cases hslot : slotOf handle with
      | none => exact .inl ⟨rfl, fun i hi => absurd (hi.symm.trans hslot) (Option.some_ne_none i)⟩
      | some i =>
          have hone : ∀ j, s.Closes j (.close handle) → j = i := fun j hj =>
            Option.some.inj (hj.symm.trans hslot)
          have hcloses : s.Closes i (.close handle) := hslot
          exact (panel_of_closes hcloses hone (panel_closeWindow_eq s i)).imp_right .inl
  | run =>
      obtain rfl := Except.ok.inj hstep
      exact .inl ⟨panel_drawAll s, fun i hi => False.elim hi⟩
  | mouse m =>
      obtain rfl := Except.ok.inj hstep
      split
      · obtain hsame | hfocused := focused_mouse h m
        · exact .inl ⟨hsame, fun i hi => False.elim hi⟩
        · exact .inr (.inr ⟨hfocused, fun i hi => hi⟩)
      · exact .inl ⟨rfl, fun i hi => False.elim hi⟩
  | key c returns =>
      obtain rfl := Except.ok.inj hstep
      by_cases hexits : s.Exits c
      · have hkey := panel_key_of_exits returns hexits
        rw [if_pos hexits.1]
        cases hhandle : s.term.termHandle with
        | none =>
            rw [hhandle] at hkey
            refine .inl ⟨hkey, fun i hi => ?_⟩
            exact absurd (hi.2.symm.trans hhandle) (Option.some_ne_none i)
        | some i =>
            have hone : ∀ j, s.Closes j (.key c returns) → j = i := fun j hj =>
              Option.some.inj (hj.2.symm.trans hhandle)
            rw [hhandle] at hkey
            have hcloses : s.Closes i (.key c returns) := ⟨hexits, hhandle⟩
            exact (panel_of_closes hcloses hone hkey).imp_right .inl
      · refine .inl ⟨?_, fun i hi => absurd hi.1 hexits⟩
        split
        · rename_i hcount
          exact panel_key_of_not_exits returns hcount hexits
        · rfl

theorem counted_step {s' : Desktop} {e : Event} (h : s.panel.Counted)
    (hstep : s.step e = .ok s') : s'.panel.Counted := by
  obtain ⟨hsame, _⟩ | ⟨i, _, _, hopen, hclosed⟩ | ⟨hfocused, _⟩ := panel_step h hstep
  · rw [hsame]
    exact h
  · rw [hclosed]
    exact Panel.counted_closed h ((panel_isOpen s i).mpr hopen)
  · exact hfocused.counted

/-- One event keeps the focus in one place exactly if it is tidy. -/
theorem focused_step_iff {s' : Desktop} {e : Event} (h : s.panel.Focused)
    (hstep : s.step e = .ok s') : s'.panel.Focused ↔ s.Tidy e := by
  obtain ⟨hsame, hnone⟩ | ⟨i, hcloses, hone, hopen, hclosed⟩ | ⟨hfocused, hnone⟩ :=
    panel_step h.counted hstep
  · rw [hsame]
    exact ⟨fun _ i hi huse => absurd (hnone i hi) huse, fun _ => h⟩
  · have hisOpen := (panel_isOpen s i).mpr hopen
    rw [hclosed, Panel.focused_closed_iff h hisOpen, Panel.tidy_iff h hisOpen]
    simp only [panel_isOpen]
    constructor
    · intro htidy j hj _
      rw [hone j hj]
      exact htidy
    · exact fun htidy => htidy i hcloses hopen
  · exact ⟨fun _ i hi => absurd hi (hnone i), fun _ => hfocused⟩

/-- In every sequence of events, the count is right and the focus is in one place throughout,
exactly if every closing of a window was tidy. -/
theorem focused_iff_tidy (events : List Event) :
    Along step FocusInvariant boot events ↔ Guarded step Tidy boot events := by
  have hboot : boot.panel.Focused := by
    refine ⟨?_, fun hpos => absurd hpos (Int.lt_irrefl 0)⟩
    rw [Panel.Counted]
    simp [panel, boot]
  refine along_iff_guarded (J := fun s => s.panel.Counted) (fun _ _ _ => counted_step) ?_
    hboot.counted ((focusInvariant_iff boot).mpr hboot)
  intro s e s' _ hP hstep
  rw [focusInvariant_iff] at hP ⊢
  exact focused_step_iff hP hstep

/-- A click with the button up before. -/
def clickAt (mx my : Int) : Event := .mouse ⟨mx, my, true, mx, my, false⟩

/-- The program manager starts the file manager and the terminal and is clicked on its title
bar; it has no key handler, so "exit" goes to the terminal.  Closing it makes the file manager
active, and the program manager still is. -/
def twoActive : List Event :=
  [.init, .create ⟨⟨text "Program Manager", by decide⟩, 100, 50, 500, 400, .progman, .null⟩, .run,
    clickAt 220 110, clickAt 140 110, clickAt 110 60, .key 101 true, .key 120 true, .key 105 true,
    .key 116 true, .key 10 true]

theorem run_twoActive :
    ((run step boot twoActive).toOption.map fun s =>
      (s.windowCount, (List.finRange 8).filter fun i =>
        decide ((s.windows i).useCount ≠ 0) && (s.windows i).active)) = some (2, [0, 1]) := by
  decide +kernel

theorem not_focused_after_exit : ¬ Along step FocusInvariant boot twoActive := by
  intro halong
  obtain ⟨s, hrun, hend⟩ := exists_run_of_map run_twoActive
  obtain ⟨hcount, hopen⟩ := Prod.mk.inj hend
  have hpos : s.windowCount > 0 := by
    rw [hcount]
    decide
  obtain ⟨a, _, hone⟩ := (halong.last hrun).focus hpos
  have hactive : ∀ i, i ∈ ([0, 1] : List WindowSlot) → i = a := by
    intro i hi
    rw [← hopen, List.mem_filter, Bool.and_eq_true, decide_eq_true_eq] at hi
    exact hone i hi.2
  exact absurd ((hactive 0 (by decide)).trans (hactive 1 (by decide)).symm) (by decide)

end Desktop

end FalastinOS.Gui
