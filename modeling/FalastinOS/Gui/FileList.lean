/-
  Gui/FileList.lean --- what the window of `fileman.c` shows.

  Beside the variables of `Gui/FileManager.lean` the drawing uses the sizes of the entries
  and `scroll_off`, which the arrow keys move so that the selected row stays in the window.

  The code does not keep `source`: what `diskfs_get_entries` gave when the list was read last,
  so that the rows can be compared with it.

  `list_shown` follows any session: each row shows an entry of the directory as it was read
  last, none left out in between, the selected one is among them, and the prompt and the
  status line show the name that the next key acts on.
-/
import FalastinOS.Foundation.Ring
import FalastinOS.Gui.FileManager
import FalastinOS.Gui.Pixels
import FalastinOS.Libc.Itoa

set_option autoImplicit false

namespace FalastinOS.Gui

open FalastinOS.Foundation FalastinOS.Drivers FalastinOS.DiskFs

/-! ## The list -/

/-- The sizes that `diskfs_get_entries` copies. -/
def listedSizes (m : Machine) (max : Nat) : List Int32 :=
  (listedSlots m max).map fun i => (m.files i).size

/-- The variables of `fileman.c`, with the programs beside it. -/
structure FileWindow where
  screen : Screen
  /-- `entries[k].size` -/
  sizes : Nat → Int32
  /-- `scroll_off` -/
  scrollOff : Int
  /-- `win_h` -/
  winH : Int
  source : List (Entry × Int32)

namespace FileWindow

/-- The variables of `Gui/FileManager.lean`. -/
def manager (s : FileWindow) : FileManager := s.screen.manager

/-- What happens: an event of `Gui/FileManager.lean`, or the window is drawn. -/
inductive Event where
  | on (event : Screen.Event)
  | draw

/-- Does the key read the list again? -/
def rereads (f : FileManager) (c : UInt8) : Bool :=
  if f.inputMode ≠ .normal then c = 10
  else if c = Keyboard.keyUp then false
  else if c = Keyboard.keyDown then false
  else if c = 10 then f.entryCount > 0 ∧ f.entry.isDir ≠ 0
  else if c = 117 then true
  else if c = 110 then false
  else if c = 100 then false
  else if c = 114 then false
  else if c = Keyboard.keyDelete then f.entryCount > 0
  else false

/-- Has the window manager the keyboard? -/
def hasKeys (s : FileWindow) : Bool :=
  match s.screen.session.modes with
  | .gui :: _ => true
  | _ => false

/-- Does the event read the list again? -/
def readsList (s : FileWindow) : Screen.Event → Bool
  | .elsewhere _ => false
  | .icon => s.hasKeys
  | .key c => s.hasKeys && rereads s.manager c

/-- `visible` in a window of height `h`. -/
def visible (h : Int) : Int := (h - 44).tdiv 18

/-- `scroll_off` after a key, unless the list is read again. -/
def scrolled (s : FileWindow) (c : UInt8) : Int :=
  if s.manager.inputMode ≠ .normal then s.scrollOff
  else if c = Keyboard.keyUp then
    if s.manager.selected > 0 ∧ (s.manager.selected : Int) - 1 < s.scrollOff then s.scrollOff - 1
    else s.scrollOff
  else if c = Keyboard.keyDown then
    if s.manager.selected + 1 < s.manager.entryCount ∧
        (s.manager.selected : Int) + 1 ≥ s.scrollOff + visible s.winH then s.scrollOff + 1
    else s.scrollOff
  else s.scrollOff

/-- `scroll_off` after an event, unless the list is read again. -/
def scrolledBy (s : FileWindow) : Screen.Event → Int
  | .key c => if s.hasKeys then s.scrolled c else s.scrollOff
  | _ => s.scrollOff

/-- The list is read from the directory that is then the current one. -/
def reread (s : FileWindow) (screen : Screen) : FileWindow :=
  let m := screen.session.machine
  let sizes := listedSizes m FileManager.maxEntries
  { s with
    screen := screen
    sizes := fun k => sizes.getD k (s.sizes k)
    scrollOff := 0
    source := (diskfsGetEntries m FileManager.maxEntries).zip sizes }

/-- One event, in a window of height `h`. -/
def step (h : Int) (s : FileWindow) : Event → Except Shell.Fault FileWindow
  | .draw => .ok { s with winH := h }
  | .on event =>
      match Screen.step s.screen event with
      | .error e => .error e
      | .ok screen =>
          .ok (if s.readsList event then s.reread screen
            else { s with screen := screen, scrollOff := s.scrolledBy event })

/-- The variables before the file manager is started. -/
def start (b : Machine) : FileWindow := ⟨Screen.start b, fun _ => 0, 0, 0, []⟩

/-! ## Drawing -/

/-- `itoa(val, buf, 10)`, as `font_draw_string` reads it. -/
def itoaText (val : Int32) : List UInt8 :=
  ((Libc.itoa val (fun _ => 0) 10).slice 0 16).takeWhile (· ≠ 0)

/-- The background of row `i`. -/
def rowColor (s : FileWindow) (i : Nat) : UInt32 :=
  if i + s.scrollOff = s.manager.selected then 0x0F3460
  else if i % 2 = 0 then 0x1A1A2E
  else 0x151528

section Code

variable (g : Geometry) (f : Font)

/-- `draw_toolbar(x, y, w)`. -/
def drawToolbar (fb : Framebuffer) (x y w : Int) : Framebuffer :=
  let buttons : List (List UInt8 × Int) :=
    [(text "[New File]", 4), (text "[New Dir]", 84), (text "[Delete]", 164), (text "[Rename]", 234)]
  buttons.foldl
    (fun fb b => g.fontDrawString f (x + b.2) 0xAACCFF 0x111122 fb (x + b.2) (y + 6) b.1)
    (g.fillRect fb x y w 24 0x111122)

/-- `status` of `draw_status`. -/
def statusText (s : FileWindow) : List UInt8 :=
  text "  " ++ itoaText (Int32.ofNat s.manager.entryCount) ++ text " items   Selected: " ++
    if s.manager.entryCount > 0 then s.manager.name.bytes else text "(none)"

/-- `draw_status(x, y, w, h)`. -/
def drawStatus (s : FileWindow) (fb : Framebuffer) (x y w h : Int) : Framebuffer :=
  let fb := g.fillRect fb x (y + h - 18) w 18 0x111122
  g.fontDrawString f (x + 4) 0x778899 0x111122 fb (x + 4) (y + h - 14) s.statusText

/-- Row `i` of the list, at `(x, ey)`. -/
def drawEntry (s : FileWindow) (fb : Framebuffer) (x ey w : Int) (i : Nat) : Framebuffer :=
  let idx := (i + s.scrollOff).toNat
  let e := s.manager.entries idx
  let bg := s.rowColor i
  let col : UInt32 := if e.isDir ≠ 0 then 0x4488FF else 0xCCCCCC
  let icon := if e.isDir ≠ 0 then text "[D] " else text "[F] "
  let fb := g.fillRect fb (x + 1) ey (w - 2) 18 bg
  let fb := g.fontDrawString f (x + 8) col bg fb (x + 8) (ey + 3) icon
  let fb := g.fontDrawString f (x + 40) col bg fb (x + 40) (ey + 3) (nameOf e.name).bytes
  if e.isDir ≠ 0 then fb
  else
    g.fontDrawString f (x + w - 70) 0x556677 bg fb (x + w - 70) (ey + 3)
      (itoaText (s.sizes idx) ++ text " B")

/-- `for (int i = 0; i < visible && i + scroll_off < entry_count; i++)`, with `n` rounds left. -/
def drawRows (s : FileWindow) (x listY w : Int) : Nat → Nat → Framebuffer → Framebuffer
  | 0, _, fb => fb
  | n + 1, i, fb =>
      if i + s.scrollOff < s.manager.entryCount then
        drawRows s x listY w n (i + 1) (drawEntry g f s fb x (listY + i * 18) w i)
      else fb

/-- `prompt` of `fileman_draw`. -/
def promptText (s : FileWindow) : List UInt8 :=
  match s.manager.inputMode with
  | .newFile => text "New file name: "
  | .newDir => text "New dir name:  "
  | _ => text "Rename to:     "

/-- The prompt, at `(x, py)`. -/
def drawPrompt (s : FileWindow) (fb : Framebuffer) (x py w : Int) : Framebuffer :=
  let input := s.manager.input.bytes
  let fb := g.fillRect fb x py w 20 0x223344
  let fb := g.fontDrawString f (x + 4) 0xFFCC00 0x223344 fb (x + 4) (py + 4) s.promptText
  let fb := g.fontDrawString f (x + 130) 0xFFFFFF 0x223344 fb (x + 130) (py + 4) input
  let cx := x + 130 + input.length * 8
  g.fontDrawString f cx 0xFFCC00 0x223344 fb cx (py + 4) (text "_")

/-- `fileman_draw(x, y, w, h)`. -/
def filemanDraw (s : FileWindow) (fb : Framebuffer) (x y w h : Int) : Framebuffer :=
  let fb := g.fillRect fb x y w h 0x1A1A2E
  let fb := drawToolbar g f fb x y w
  let listY := y + 26
  let listH := h - 44
  let fb := g.drawRectOutline fb x listY w listH 0x334466
  let fb := drawRows g f s x listY w (visible h).toNat 0 fb
  let fb := if s.manager.inputMode ≠ .normal then drawPrompt g f s fb x (listY + listH - 20) w
    else fb
  drawStatus g f s fb x y w h

end Code

/-! ## What is drawn last is seen -/

section Layers

variable (g : Geometry) (f : Font)

/-- An entry in a row at `(x, ey)`. -/
def entryLayers (x ey w : Int) (e : Entry) (size : Int32) (bg : UInt32) :
    List (Layer g.Pixel UInt32) :=
  let col : UInt32 := if e.isDir ≠ 0 then 0x4488FF else 0xCCCCCC
  let icon := if e.isDir ≠ 0 then text "[D] " else text "[F] "
  region (Geometry.InBlock (x + 1) ey (w - 2) 18) bg ::
    (g.stringLayers f (x + 8) col bg (x + 8) (ey + 3) icon ++
      (g.stringLayers f (x + 40) col bg (x + 40) (ey + 3) (nameOf e.name).bytes ++
        if e.isDir ≠ 0 then []
        else g.stringLayers f (x + w - 70) 0x556677 bg (x + w - 70) (ey + 3)
          (itoaText size ++ text " B")))

/-- The prompt, with its top left corner at `(x, py)`. -/
def promptLayers (x py w : Int) (label input : List UInt8) : List (Layer g.Pixel UInt32) :=
  let cx := x + 130 + input.length * 8
  region (Geometry.InBlock x py w 20) 0x223344 ::
    (g.stringLayers f (x + 4) 0xFFCC00 0x223344 (x + 4) (py + 4) label ++
      (g.stringLayers f (x + 130) 0xFFFFFF 0x223344 (x + 130) (py + 4) input ++
        g.stringLayers f cx 0xFFCC00 0x223344 cx (py + 4) (text "_")))

/-- The status line, with its top left corner at `(x, sy)`. -/
def statusLayers (x sy w : Int) (status : List UInt8) : List (Layer g.Pixel UInt32) :=
  region (Geometry.InBlock x sy w 18) 0x111122 ::
    g.stringLayers f (x + 4) 0x778899 0x111122 (x + 4) (sy + 4) status

end Layers

/-- A coordinate of a window of which a part is on the screen. -/
abbrev Around (v : Int) : Prop := -2 ^ 30 ≤ v ∧ v ≤ 2 ^ 31 + 2 ^ 30

section Drawn

variable {g : Geometry} {f : Font} {s : FileWindow} {x y w h : Int} {p : g.Pixel}

theorem length_itoaText (val : Int32) : (itoaText val).length ≤ 16 := by
  refine (List.takeWhile_sublist _).length_le.trans ?_
  rw [Mem.slice, List.length_map, List.length_range]

theorem length_nameOf (a : CharArray maxFilename) : (nameOf a).bytes.length ≤ 32 := by
  refine (List.takeWhile_sublist _).length_le.trans ?_
  rw [List.length_ofFn]
  exact Nat.le_refl _

/-- A line of text somewhere in the window. -/
theorem view_line (hg : g.Contiguous) {cx cy : Int}
    (hcx : -2 ^ 31 ≤ cx ∧ cx ≤ 2 ^ 31 + 2 ^ 30 + 2 ^ 22)
    (hcy : -2 ^ 31 ≤ cy ∧ cy ≤ 2 ^ 31 + 2 ^ 30 + 2 ^ 22) {str : List UInt8}
    (hstr : str.length ≤ 100) (fg bg : UInt32) (fb : Framebuffer) :
    g.view (g.fontDrawString f cx fg bg fb cx cy str) =
      paint (g.stringLayers f cx fg bg cx cy str) (g.view fb) :=
  Geometry.view_fontDrawString hg f fg bg str (by omega) (by omega) (by omega)

theorem view_drawEntry (hg : g.Contiguous) (fb : Framebuffer) (i : Nat) {ey : Int}
    (hx : Around x) (hey : Around ey) (hw : 2 ≤ w ∧ w ≤ 2 ^ 20) :
    g.view (drawEntry g f s fb x ey w i) =
      paint (entryLayers g f x ey w (s.manager.entries (i + s.scrollOff).toNat)
        (s.sizes (i + s.scrollOff).toNat) (s.rowColor i)) (g.view fb) := by
  have hicon : ∀ dir : Prop, [Decidable dir] →
      (if dir then text "[D] " else text "[F] ").length = 4 := by
    intro dir _
    split <;> decide
  have hname := length_nameOf (s.manager.entries (i + s.scrollOff).toNat).name
  have hsize := length_itoaText (s.sizes (i + s.scrollOff).toNat)
  have hbytes : (text " B").length = 2 := by decide
  rw [drawEntry, entryLayers, paint, List.foldl_cons, ← paint, paint_append, paint_append,
    ← Geometry.view_fillRect hg fb _ (by omega) (by omega),
    ← view_line hg (by omega) (by omega) (by rw [hicon]; omega),
    ← view_line hg (by omega) (by omega) (by omega)]
  split
  · rfl
  · exact view_line hg (by omega) (by omega) (by rw [List.length_append]; omega) _ _ _

theorem view_drawPrompt (hg : g.Contiguous) (fb : Framebuffer) {py : Int} (hx : Around x)
    (hpy : Around py) (hw : 2 ≤ w ∧ w ≤ 2 ^ 20) (htyped : s.manager.inputBuf.length ≤ 31) :
    g.view (drawPrompt g f s fb x py w) =
      paint (promptLayers g f x py w s.promptText s.manager.input.bytes) (g.view fb) := by
  have hlabel : s.promptText.length ≤ 15 := by
    unfold promptText
    split <;> decide
  have hinput : s.manager.input.bytes.length ≤ 31 :=
    (List.takeWhile_sublist _).length_le.trans htyped
  rw [drawPrompt, promptLayers, paint, List.foldl_cons, ← paint, paint_append, paint_append,
    ← Geometry.view_fillRect hg fb _ (by omega) (by omega),
    ← view_line hg (by omega) (by omega) (by omega),
    ← view_line hg (by omega) (by omega) (by omega)]
  exact view_line hg (by omega) (by omega) (by decide) _ _ _

theorem length_statusText (s : FileWindow) : s.statusText.length ≤ 69 := by
  have hcount := length_itoaText (Int32.ofNat s.manager.entryCount)
  have hstart : (text "  ").length = 2 := by decide
  have hmid : (text " items   Selected: ").length = 19 := by decide
  have hname : (if s.manager.entryCount > 0 then s.manager.name.bytes
      else text "(none)").length ≤ 32 := by
    split
    · exact length_nameOf _
    · decide
  rw [statusText, List.length_append, List.length_append, List.length_append]
  omega

theorem view_drawStatus (hg : g.Contiguous) (fb : Framebuffer) (hx : Around x) (hy : Around y)
    (hw : 2 ≤ w ∧ w ≤ 2 ^ 20) (hh : 62 ≤ h ∧ h ≤ 2 ^ 20) :
    g.view (drawStatus g f s fb x y w h) =
      paint (statusLayers g f x (y + h - 18) w s.statusText) (g.view fb) := by
  have hlen := s.length_statusText
  have hline : y + h - 18 + 4 = y + h - 14 := by omega
  rw [drawStatus, statusLayers, paint, List.foldl_cons, ← paint, hline,
    ← Geometry.view_fillRect hg fb _ (by omega) (by omega)]
  exact view_line hg (by omega) (by omega) (by omega) _ _ _

/-! ### Nothing is drawn above -/

theorem below_entryLayers {ey : Int} (e : Entry) (size : Int32) (bg : UInt32) :
    g.Below ey (entryLayers g f x ey w e size bg) := by
  refine Geometry.below_block (le_refl _) ((Geometry.below_stringLayers _ (by omega)).append
    ((Geometry.below_stringLayers _ (by omega)).append ?_))
  split
  · exact fun _ _ l hl => absurd hl List.not_mem_nil
  · exact Geometry.below_stringLayers _ (by omega)

theorem below_promptLayers {py : Int} (label input : List UInt8) :
    g.Below py (promptLayers g f x py w label input) :=
  Geometry.below_block (le_refl _) ((Geometry.below_stringLayers _ (by omega)).append
    ((Geometry.below_stringLayers _ (by omega)).append (Geometry.below_stringLayers _ (by omega))))

theorem below_statusLayers {sy : Int} (status : List UInt8) :
    g.Below sy (statusLayers g f x sy w status) :=
  Geometry.below_block (le_refl _) (Geometry.below_stringLayers _ (by omega))

/-- A point of the block that the first layer fills sees only these layers. -/
theorem paint_block {y' w' h' : Int} {color : UInt32} {above : List (Layer g.Pixel UInt32)}
    {picture : g.Pixel → UInt32} (hin : Geometry.InBlock x y' w' h' p) :
    paint (region (Geometry.InBlock x y' w' h') color :: above) picture p =
      paint (region (Geometry.InBlock x y' w' h') color :: above) (fun _ => 0) p :=
  paint_congr (.inl ⟨_, List.mem_cons_self, by rw [region, if_pos hin]; rfl⟩)

/-! ### The rows -/

/-- The rows from row `i` on are below it. -/
theorem drawRows_above (hg : g.Contiguous) {listY : Int} (hx : Around x) (hw : 2 ≤ w ∧ w ≤ 2 ^ 20)
    (n : Nat) : ∀ {i : Nat} {fb : Framebuffer},
      -2 ^ 30 ≤ listY ∧ listY + (i + n) * 18 ≤ 2 ^ 31 + 2 ^ 30 → p.2.val < listY + i * 18 →
        g.view (drawRows g f s x listY w n i fb) p = g.view fb p := by
  induction n with
  | zero => exact fun _ _ => rfl
  | succ n ih =>
      intro i fb hrows hp
      rw [drawRows]
      split
      next =>
        rw [ih (by omega) (by omega), view_drawEntry hg fb i hx (by omega) hw]
        exact (below_entryLayers _ _ _).paint hp _
      next => rfl

/-- A row shows its entry. -/
theorem drawRows_row (hg : g.Contiguous) {listY : Int} (hx : Around x) (hw : 2 ≤ w ∧ w ≤ 2 ^ 20)
    {r : Nat} (hr : r + s.scrollOff < s.manager.entryCount)
    (hin : Geometry.InBlock (x + 1) (listY + r * 18) (w - 2) 18 p) (n : Nat) :
    ∀ {i : Nat} {fb : Framebuffer}, -2 ^ 30 ≤ listY ∧ listY + (i + n) * 18 ≤ 2 ^ 31 + 2 ^ 30 →
      i ≤ r → r < i + n →
      g.view (drawRows g f s x listY w n i fb) p =
        paint (entryLayers g f x (listY + r * 18) w (s.manager.entries (r + s.scrollOff).toNat)
          (s.sizes (r + s.scrollOff).toNat) (s.rowColor r)) (fun _ => 0) p := by
  induction n with
  | zero => exact fun _ hir hri => absurd hri (by omega)
  | succ n ih =>
      intro i fb hrows hir hri
      rw [drawRows, if_pos (by omega)]
      rcases Nat.eq_or_lt_of_le hir with rfl | hlt
      · have hrow := hin.2.2
        rw [drawRows_above hg hx hw n (by omega) (by omega),
          view_drawEntry hg fb i hx (by omega) hw]
        exact paint_block hin
      · exact ih (by omega) (by omega) (by omega)

/-! ### The window -/

theorem visible_bounds (hh : 62 ≤ h) : 1 ≤ visible h ∧ 18 * visible h ≤ h - 44 := by
  rw [visible, Int.tdiv_eq_ediv_of_nonneg (by omega)]
  omega

variable (s) in
/-- What is under the status line. -/
def beforeStatus (g : Geometry) (f : Font) (fb : Framebuffer) (x y w h : Int) : Framebuffer :=
  let fb := g.drawRectOutline (drawToolbar g f (g.fillRect fb x y w h 0x1A1A2E) x y w) x (y + 26) w
    (h - 44) 0x334466
  let fb := drawRows g f s x (y + 26) w (visible h).toNat 0 fb
  if s.manager.inputMode ≠ .normal then drawPrompt g f s fb x (y + 26 + (h - 44) - 20) w else fb

/-- The status line is the last thing that is drawn. -/
theorem view_filemanDraw (hg : g.Contiguous) (fb : Framebuffer) (hx : Around x) (hy : Around y)
    (hw : 2 ≤ w ∧ w ≤ 2 ^ 20) (hh : 62 ≤ h ∧ h ≤ 2 ^ 20) :
    g.view (filemanDraw g f s fb x y w h) =
      paint (statusLayers g f x (y + h - 18) w s.statusText)
        (g.view (s.beforeStatus g f fb x y w h)) :=
  view_drawStatus hg _ hx hy hw hh

/-- A block with a point on the screen is not far from it. -/
theorem corner_of_inBlock (hg : g.Contiguous) {y' w' h' : Int}
    (hin : Geometry.InBlock x y' w' h' p) (hw : w' ≤ 2 ^ 20) (hh : h' ≤ 2 ^ 20) :
    (-2 ^ 20 ≤ x ∧ x ≤ 2 ^ 31) ∧ -2 ^ 20 ≤ y' ∧ y' ≤ 2 ^ 31 := by
  have hwidth := hg.width_lt
  have hheight := hg.height_lt
  have hcol := p.1.isLt
  have hrow := p.2.isLt
  rw [Geometry.InBlock] at hin
  omega

/-- A row of the list, unless the prompt is over it. -/
theorem filemanDraw_row (hg : g.Contiguous) (fb : Framebuffer) (hw : 2 ≤ w ∧ w ≤ 2 ^ 20)
    (hh : 62 ≤ h ∧ h ≤ 2 ^ 20) (htyped : s.manager.inputBuf.length ≤ 31) {r : Nat}
    (hr : r + s.scrollOff < s.manager.entryCount) (hvisible : r < visible h)
    (hin : Geometry.InBlock (x + 1) (y + 26 + r * 18) (w - 2) 18 p)
    (hprompt : s.manager.inputMode = .normal ∨ p.2.val < y + h - 38) :
    g.view (filemanDraw g f s fb x y w h) p =
      paint (entryLayers g f x (y + 26 + r * 18) w (s.manager.entries (r + s.scrollOff).toNat)
        (s.sizes (r + s.scrollOff).toNat) (s.rowColor r)) (fun _ => 0) p := by
  obtain ⟨hone, hrows⟩ := visible_bounds hh.1
  obtain ⟨hx, hy⟩ := corner_of_inBlock hg hin (by omega) (by omega)
  have hrow := hin.2.2
  have hdrawn : ∀ fb, g.view (drawRows g f s x (y + 26) w (visible h).toNat 0 fb) p = _ :=
    fun fb => drawRows_row hg (by omega) hw hr hin _ (by omega) (Nat.zero_le r) (by omega)
  rw [view_filemanDraw hg fb (by omega) (by omega) hw hh, (below_statusLayers _).paint (by omega),
    beforeStatus]
  split
  next hmode =>
    have habove : p.2.val < y + h - 38 := hprompt.resolve_left hmode
    rw [view_drawPrompt hg _ (by omega) (by omega) hw htyped,
      (below_promptLayers _ _).paint (by omega)]
    exact hdrawn _
  next => exact hdrawn _

/-- The prompt. -/
theorem filemanDraw_prompt (hg : g.Contiguous) (fb : Framebuffer) (hw : 2 ≤ w ∧ w ≤ 2 ^ 20)
    (hh : 62 ≤ h ∧ h ≤ 2 ^ 20) (htyped : s.manager.inputBuf.length ≤ 31)
    (hmode : s.manager.inputMode ≠ .normal) (hin : Geometry.InBlock x (y + h - 38) w 20 p) :
    g.view (filemanDraw g f s fb x y w h) p =
      paint (promptLayers g f x (y + h - 38) w s.promptText s.manager.input.bytes)
        (fun _ => 0) p := by
  obtain ⟨hx, hy⟩ := corner_of_inBlock hg hin (by omega) (by omega)
  have hplace : y + 26 + (h - 44) - 20 = y + h - 38 := by omega
  have hrow := hin.2.2
  rw [view_filemanDraw hg fb (by omega) (by omega) hw hh, (below_statusLayers _).paint (by omega),
    beforeStatus, if_pos hmode, hplace, view_drawPrompt hg _ (by omega) (by omega) hw htyped]
  exact paint_block hin

/-- The status line. -/
theorem filemanDraw_status (hg : g.Contiguous) (fb : Framebuffer) (hw : 2 ≤ w ∧ w ≤ 2 ^ 20)
    (hh : 62 ≤ h ∧ h ≤ 2 ^ 20) (hin : Geometry.InBlock x (y + h - 18) w 18 p) :
    g.view (filemanDraw g f s fb x y w h) p =
      paint (statusLayers g f x (y + h - 18) w s.statusText) (fun _ => 0) p := by
  obtain ⟨hx, hy⟩ := corner_of_inBlock hg hin (by omega) (by omega)
  rw [view_filemanDraw hg fb (by omega) (by omega) hw hh]
  exact paint_block hin

end Drawn

/-! ## Keys -/

/-- `selected` after a key, unless the list is read again. -/
def moved (f : FileManager) (c : UInt8) : Nat :=
  if f.inputMode ≠ .normal then f.selected
  else if c = Keyboard.keyUp then f.selected - 1
  else if c = Keyboard.keyDown then
    if f.selected + 1 < f.entryCount then f.selected + 1 else f.selected
  else f.selected

/-- What is left of the variables after a key that does not read the list. -/
def turned (f : FileManager) (c : UInt8) (mode : InputMode) (buf : List UInt8) : FileManager :=
  { f with inputMode := mode, inputBuf := buf, selected := moved f c }

/-- What a key does to the variables: the list is read again, or only the selection, the mode and
the input change. -/
def Turns (f : FileManager) (c : UInt8) (m' : Machine) (f' : FileManager) : Prop :=
  ∃ mode buf, buf.length ≤ 31 ∧
    (rereads f c = true ∧ f' = (f.prompt mode buf).refreshEntries m' ∨
      rereads f c = false ∧ f' = turned f c mode buf)

section Keys

variable {f f' : FileManager} {m m' : Machine} {c : UInt8}

theorem promptKey_turns (hmode : f.inputMode ≠ .normal) (htyped : f.inputBuf.length ≤ 31)
    (h : f.promptKey m c = .ok (m', f')) : Turns f c m' f' := by
  have hreads : rereads f c = decide (c = 10) := if_pos hmode
  have hmoved : moved f c = f.selected := if_pos hmode
  rw [FileManager.promptKey] at h
  split at h
  next hc =>
    obtain ⟨_, rfl⟩ := FileManager.refreshed_ok.mp h
    exact ⟨.normal, [], Nat.zero_le _, .inl ⟨by rw [hreads, hc]; rfl, rfl⟩⟩
  next hc =>
    have hstays : rereads f c = false := hreads.trans (decide_eq_false hc)
    have hturned : ∀ buf, { f with inputBuf := buf } = turned f c f.inputMode buf := fun buf => by
      rw [turned, hmoved]
    split at h
    next =>
      obtain ⟨_, rfl⟩ := Prod.mk.inj (Except.ok.inj h)
      refine ⟨_, _, ?_, .inr ⟨hstays, hturned _⟩⟩
      rw [List.length_dropLast]
      omega
    next =>
      split at h
      next hprints =>
        obtain ⟨_, rfl⟩ := Prod.mk.inj (Except.ok.inj h)
        refine ⟨_, _, ?_, .inr ⟨hstays, hturned _⟩⟩
        rw [List.length_append, List.length_singleton]
        omega
      next =>
        obtain ⟨_, rfl⟩ := Prod.mk.inj (Except.ok.inj h)
        exact ⟨_, _, htyped, .inr ⟨hstays, hturned _⟩⟩

theorem listKey_turns (hmode : f.inputMode = .normal) (htyped : f.inputBuf.length ≤ 31)
    (h : f.listKey m c = .ok (m', f')) : Turns f c m' f' := by
  have hlist : ¬ f.inputMode ≠ .normal := not_not.mpr hmode
  have hreread : ∀ {r : Except DiskFs.Fault Machine}, rereads f c = true →
      f.refreshed r = .ok (m', f') → Turns f c m' f' := by
    intro r hreads hr
    obtain ⟨_, rfl⟩ := FileManager.refreshed_ok.mp hr
    exact ⟨f.inputMode, f.inputBuf, htyped, .inl ⟨hreads, rfl⟩⟩
  have hquiet : ∀ (mode : InputMode) (buf : List UInt8), rereads f c = false → buf.length ≤ 31 →
      .ok (m, turned f c mode buf) = (.ok (m', f') : Except DiskFs.Fault _) → Turns f c m' f' := by
    intro mode buf hreads hlen hturned
    exact ⟨mode, buf, hlen, .inr ⟨hreads, (Prod.mk.inj (Except.ok.inj hturned)).2.symm⟩⟩
  have hstays : c ≠ Keyboard.keyUp → c ≠ Keyboard.keyDown → ∀ (mode : InputMode) (buf : List UInt8),
      turned f c mode buf = f.prompt mode buf := by
    intro hup hdown mode buf
    rw [turned, moved, if_neg hlist, if_neg hup, if_neg hdown]
    rfl
  rw [FileManager.listKey] at h
  split at h
  next hup =>
    refine hquiet f.inputMode f.inputBuf (by rw [rereads, if_neg hlist, if_pos hup]) htyped ?_
    rw [← h, turned, moved, if_neg hlist, if_pos hup]
    split
    next => rfl
    next hzero =>
      have hsame : f.selected - 1 = f.selected := by omega
      rw [hsame]
  next hup =>
  split at h
  next hdown =>
    refine hquiet f.inputMode f.inputBuf
      (by rw [rereads, if_neg hlist, if_neg hup, if_pos hdown]) htyped ?_
    rw [← h, turned, moved, if_neg hlist, if_neg hup, if_pos hdown]
    split <;> rfl
  next hdown =>
  have hprompt := hstays hup hdown
  have hreads : rereads f c = (if c = 10 then decide (f.entryCount > 0 ∧ f.entry.isDir ≠ 0)
      else if c = 117 then true else if c = 110 then false else if c = 100 then false
      else if c = 114 then false else if c = Keyboard.keyDelete then decide (f.entryCount > 0)
      else false) := by
    rw [rereads, if_neg hlist, if_neg hup, if_neg hdown]
  split at h
  next hc =>
    rw [if_pos hc] at hreads
    split at h
    next hdir => exact hreread (by rw [hreads, decide_eq_true hdir]) h
    next hdir =>
      exact hquiet _ _ (by rw [hreads, decide_eq_false hdir]) htyped (by rw [hprompt]; exact h)
  next h10 =>
  rw [if_neg h10] at hreads
  split at h
  next hc => exact hreread (by rw [hreads, if_pos hc]) h
  next hu =>
  rw [if_neg hu] at hreads
  split at h
  next hc => exact hquiet _ _ (by rw [hreads, if_pos hc]) (Nat.zero_le _) (by rw [hprompt]; exact h)
  next hn =>
  rw [if_neg hn] at hreads
  split at h
  next hc => exact hquiet _ _ (by rw [hreads, if_pos hc]) (Nat.zero_le _) (by rw [hprompt]; exact h)
  next hd =>
  rw [if_neg hd] at hreads
  split at h
  next hc =>
    rw [if_pos hc] at hreads
    split at h
    next => exact hquiet _ _ hreads (List.length_take_le _ _) (by rw [hprompt]; exact h)
    next => exact hquiet _ _ hreads htyped (by rw [hprompt]; exact h)
  next hr =>
  rw [if_neg hr] at hreads
  split at h
  next hc =>
    rw [if_pos hc] at hreads
    split at h
    next hsome => exact hreread (by rw [hreads, decide_eq_true hsome]) h
    next hnone =>
      exact hquiet _ _ (by rw [hreads, decide_eq_false hnone]) htyped (by rw [hprompt]; exact h)
  next hdel =>
    exact hquiet _ _ (by rw [hreads, if_neg hdel]) htyped (by rw [hprompt]; exact h)

/-- A key of a session. -/
theorem keypress_turns (htyped : f.inputBuf.length ≤ 31) (h : f.keypress m c = .ok (m', f')) :
    Turns f c m' f' := by
  rw [FileManager.keypress] at h
  split at h
  next hmode => exact listKey_turns hmode htyped h
  next hmode => exact promptKey_turns hmode htyped h

end Keys

/-! ## Sessions -/

/-- The list is what was read last, and the selected row is in a window of height `h`. -/
structure Kept (h : Int) (s : FileWindow) : Prop where
  count : s.manager.entryCount = s.source.length
  listed : ∀ k e size, s.source[k]? = some (e, size) → s.manager.entries k = e ∧ s.sizes k = size
  selected : s.manager.selected = 0 ∨ s.manager.selected < s.manager.entryCount
  top : 0 ≤ s.scrollOff ∧ s.scrollOff ≤ s.manager.selected
  bottom : s.manager.selected < s.scrollOff + visible h
  height : s.winH = 0 ∨ s.winH = h
  typed : s.manager.inputBuf.length ≤ 31

variable {h : Int} {s s' : FileWindow}

/-- A list that was just read. -/
theorem kept_reread (hh : 62 ≤ h) (hs : s.Kept h) {screen : Screen} {f : FileManager}
    (hread : screen.manager = f.refreshEntries screen.session.machine)
    (htyped : f.inputBuf.length ≤ 31) : (s.reread screen).Kept h := by
  have hmanager : (s.reread screen).manager = f.refreshEntries screen.session.machine := hread
  have hrows := (visible_bounds hh).1
  refine ⟨?_, fun k e size hk => ?_, .inl ?_, ⟨le_refl _, ?_⟩, ?_, hs.height, ?_⟩
  · rw [hmanager]
    show (diskfsGetEntries _ _).length = ((diskfsGetEntries _ _).zip (listedSizes _ _)).length
    rw [List.length_zip, diskfsGetEntries, listedSizes, List.length_map, List.length_map,
      Nat.min_self]
  · obtain ⟨hentry, hsize⟩ := List.getElem?_zip_eq_some.mp hk
    rw [hmanager]
    refine ⟨?_, ?_⟩
    · show (diskfsGetEntries _ _).getD k _ = e
      rw [List.getD_eq_getElem?_getD, hentry, Option.getD_some]
    · show (listedSizes _ _).getD k _ = size
      rw [List.getD_eq_getElem?_getD, hsize, Option.getD_some]
  · rw [hmanager]
    rfl
  · exact Int.natCast_nonneg _
  · rw [hmanager]
    show ((0 : Nat) : Int) < 0 + visible h
    omega
  · rw [hmanager]
    exact htyped

/-- The arrow keys take `scroll_off` along. -/
theorem moved_scrolled (hh : 62 ≤ h) (hs : s.Kept h) (c : UInt8) :
    (moved s.manager c = 0 ∨ moved s.manager c < s.manager.entryCount) ∧
      (0 ≤ s.scrolled c ∧ s.scrolled c ≤ moved s.manager c) ∧
      moved s.manager c < s.scrolled c + visible h := by
  obtain ⟨_, _, hselected, htop, hbottom, hheight, _⟩ := hs
  have hrows := (visible_bounds hh).1
  rw [moved, scrolled]
  by_cases hmode : s.manager.inputMode ≠ .normal
  · simp only [if_pos hmode]
    exact ⟨hselected, htop, hbottom⟩
  by_cases hup : c = Keyboard.keyUp
  · simp only [if_neg hmode, if_pos hup]
    split <;> omega
  by_cases hdown : c = Keyboard.keyDown
  · simp only [if_neg hmode, if_neg hup, if_pos hdown]
    by_cases hlast : s.manager.selected + 1 < s.manager.entryCount
    · rw [if_pos hlast]
      -- before the window is drawn every step down scrolls
      have hvisible : s.scrollOff + visible s.winH ≤ s.manager.selected + 1 ∨ s.winH = h :=
        hheight.imp_left fun hzero => by
          have hundrawn : visible 0 = -2 := by decide
          rw [hzero, hundrawn]
          omega
      split
      next => omega
      next hstays =>
        rcases hvisible with hscrolls | hdrawn
        · exact absurd ⟨hlast, hscrolls⟩ hstays
        · rw [hdrawn] at hstays
          omega
    · rw [if_neg hlast, if_neg fun hboth => hlast hboth.1]
      exact ⟨hselected, htop, hbottom⟩
  · simp only [if_neg hmode, if_neg hup, if_neg hdown]
    exact ⟨hselected, htop, hbottom⟩

theorem kept_turned (hh : 62 ≤ h) (hs : s.Kept h) {screen : Screen} {c : UInt8} {mode : InputMode}
    {buf : List UInt8} (hturned : screen.manager = turned s.manager c mode buf)
    (htyped : buf.length ≤ 31) :
    Kept h { s with screen := screen, scrollOff := s.scrolled c } := by
  have hmanager : ∀ off, manager { s with screen := screen, scrollOff := off } =
      turned s.manager c mode buf := fun _ => hturned
  obtain ⟨hselected, htop, hbottom⟩ := moved_scrolled hh hs c
  refine ⟨?_, ?_, ?_, ?_, ?_, hs.height, ?_⟩
  · rw [hmanager]
    exact hs.count
  · rw [hmanager]
    exact hs.listed
  · rw [hmanager]
    exact hselected
  · rw [hmanager]
    exact htop
  · rw [hmanager]
    exact hbottom
  · rw [hmanager]
    exact htyped

/-- An event that is not the file manager's. -/
theorem kept_elsewhere (hs : s.Kept h) {screen : Screen} (hsame : screen.manager = s.manager) :
    Kept h { s with screen := screen } := by
  have hmanager : manager { s with screen := screen } = s.manager := hsame
  obtain ⟨hcount, hlisted, hselected, htop, hbottom, hheight, htyped⟩ := hs
  rw [← hmanager] at hcount hlisted hselected htop hbottom htyped
  exact ⟨hcount, hlisted, hselected, htop, hbottom, hheight, htyped⟩

theorem manager_elsewhere {screen screen' : Screen} {event : Shell.Event}
    (hstep : screen.step (.elsewhere event) = .ok screen') : screen'.manager = screen.manager := by
  rw [Screen.step.eq_def] at hstep
  split at hstep
  next =>
    obtain rfl := Except.ok.inj hstep
    rfl
  next =>
    split at hstep
    next => exact nomatch hstep
    next =>
      obtain rfl := Except.ok.inj hstep
      rfl
  next heq => exact nomatch heq
  next heq => exact nomatch heq

theorem kept_on (hh : 62 ≤ h) (hs : s.Kept h) {event : Screen.Event}
    (hstep : s.step h (.on event) = .ok s') : s'.Kept h := by
  rw [step] at hstep
  split at hstep
  next => cases hstep
  next screen hscreen =>
  obtain rfl := Except.ok.inj hstep
  cases event with
  | elsewhere event => exact kept_elsewhere hs (manager_elsewhere hscreen)
  | icon =>
      rw [Screen.step] at hscreen
      split at hscreen
      next rest hgui =>
        have hkeys : s.readsList .icon = true := by rw [readsList, hasKeys, hgui]
        obtain rfl := Except.ok.inj hscreen
        rw [if_pos hkeys]
        exact kept_reread hh hs rfl hs.typed
      next hother =>
        have hkeys : s.readsList .icon = false := by
          rw [readsList, hasKeys]
          split
          next rest hgui => exact absurd hgui (hother rest)
          next => rfl
        obtain rfl := Except.ok.inj hscreen
        rw [hkeys, if_neg Bool.false_ne_true]
        exact hs
  | key c =>
      rw [Screen.step] at hscreen
      split at hscreen
      next rest hgui =>
        have hkeys : s.hasKeys = true := by rw [hasKeys, hgui]
        split at hscreen
        next => cases hscreen
        next machine manager hkey =>
          obtain rfl := Except.ok.inj hscreen
          obtain ⟨mode, buf, hlen, ⟨hreads, hfile⟩ | ⟨hreads, hfile⟩⟩ :=
            keypress_turns hs.typed hkey
          · rw [readsList, hkeys, Bool.true_and, show rereads s.manager c = true from hreads,
              if_pos rfl]
            exact kept_reread hh hs hfile hlen
          · rw [readsList, hkeys, Bool.true_and, show rereads s.manager c = false from hreads,
              if_neg Bool.false_ne_true, scrolledBy, if_pos hkeys]
            exact kept_turned hh hs hfile hlen
      next hother =>
        have hkeys : s.hasKeys = false := by
          rw [hasKeys]
          split
          next rest hgui => exact absurd hgui (hother rest)
          next => rfl
        obtain rfl := Except.ok.inj hscreen
        rw [readsList, hkeys, Bool.false_and, if_neg Bool.false_ne_true, scrolledBy, hkeys,
          if_neg Bool.false_ne_true]
        exact hs

/-- An event of a session. -/
theorem kept_step (hh : 62 ≤ h) (hs : s.Kept h) {event : Event}
    (hstep : s.step h event = .ok s') : s'.Kept h := by
  cases event with
  | draw =>
      obtain rfl := Except.ok.inj hstep
      exact ⟨hs.count, hs.listed, hs.selected, hs.top, hs.bottom, .inr rfl, hs.typed⟩
  | on event => exact kept_on hh hs hstep

theorem kept_start (hh : 62 ≤ h) (b : Machine) : (start b).Kept h := by
  have hrows := (visible_bounds hh).1
  refine ⟨rfl, fun k e size hk => (nomatch hk), .inl rfl, ⟨le_refl _, le_refl _⟩, ?_, .inl rfl,
    Nat.zero_le _⟩
  show ((0 : Nat) : Int) < 0 + visible h
  omega

/-- What the window shows wherever it is drawn, and what the next key acts on. -/
structure Shown (g : Geometry) (f : Font) (w h : Int) (s : FileWindow) : Prop where
  /-- the selected entry is in one of the rows, and its name is the one that is acted on -/
  selected : s.source ≠ [] → ∃ (r : Nat) (e : Entry) (size : Int32),
    r < visible h ∧ r + s.scrollOff = s.manager.selected ∧
      s.source[s.manager.selected]? = some (e, size) ∧ s.manager.name = nameOf e.name
  /-- each row shows an entry as it was read last, in the colour of the selected one or not -/
  row : ∀ (fb : Framebuffer) (x y : Int) (r : Nat) (p : g.Pixel), r < visible h →
    Geometry.InBlock (x + 1) (y + 26 + r * 18) (w - 2) 18 p →
    s.manager.inputMode = .normal ∨ p.2.val < y + h - 38 → ∀ (e : Entry) (size : Int32),
      s.source[(r + s.scrollOff).toNat]? = some (e, size) →
      g.view (filemanDraw g f s fb x y w h) p =
        paint (entryLayers g f x (y + 26 + r * 18) w e size (s.rowColor r)) (fun _ => 0) p
  prompt : ∀ (fb : Framebuffer) (x y : Int) (p : g.Pixel), s.manager.inputMode ≠ .normal →
    Geometry.InBlock x (y + h - 38) w 20 p →
      g.view (filemanDraw g f s fb x y w h) p =
        paint (promptLayers g f x (y + h - 38) w s.promptText s.manager.input.bytes)
          (fun _ => 0) p
  status : ∀ (fb : Framebuffer) (x y : Int) (p : g.Pixel),
    Geometry.InBlock x (y + h - 18) w 18 p →
      g.view (filemanDraw g f s fb x y w h) p =
        paint (statusLayers g f x (y + h - 18) w s.statusText) (fun _ => 0) p

theorem shown_of_kept {g : Geometry} (hg : g.Contiguous) (f : Font) {w : Int}
    (hw : 2 ≤ w ∧ w ≤ 2 ^ 20) (hh : 62 ≤ h ∧ h ≤ 2 ^ 20) (hs : s.Kept h) : s.Shown g f w h := by
  have htop := hs.top
  have hbottom := hs.bottom
  refine ⟨fun hsome => ?_, fun fb x y r p hr hin hprompt e size he => ?_,
    fun fb x y p hmode hin => filemanDraw_prompt hg fb hw hh hs.typed hmode hin,
    fun fb x y p hin => filemanDraw_status hg fb hw hh hin⟩
  · have hpos := List.length_pos_iff.mpr hsome
    have hlt : s.manager.selected < s.source.length := by
      have hselected := hs.selected
      have hcount := hs.count
      omega
    have hentry : s.source[s.manager.selected]? = some s.source[s.manager.selected] :=
      List.getElem?_eq_getElem hlt
    have hsame := (hs.listed _ _ _ hentry).1
    refine ⟨(s.manager.selected - s.scrollOff).toNat, _, _, by omega, by omega, hentry, ?_⟩
    rw [FileManager.name, FileManager.entry, hsame]
  · obtain ⟨hlt, _⟩ := List.getElem?_eq_some_iff.mp he
    obtain ⟨hentry, hsize⟩ := hs.listed _ _ _ he
    have hcount := hs.count
    rw [filemanDraw_row hg fb hw hh hs.typed (by omega) hr hin hprompt, hentry, hsize]

/-- In every session of the terminal, the editor and the file manager, wherever its window is
drawn: each row of the list shows an entry of the directory as it was read last, in its order
from `scroll_off` on; the row of the selected entry is one of them; and the prompt and the status
line show what was typed and what is selected. -/
theorem list_shown {g : Geometry} (hg : g.Contiguous) (f : Font) {w h : Int}
    (hw : 2 ≤ w ∧ w ≤ 2 ^ 20) (hh : 62 ≤ h ∧ h ≤ 2 ^ 20) (b : Machine) (events : List Event) :
    Along (step h) (Shown g f w h) (start b) events :=
  (along_of_invariant (fun _ _ _ hs => kept_step hh.1 hs) (kept_start hh.1 b) events).mono
    fun _ hs => shown_of_kept hg f hw hh hs

/-- The window of the program manager's second icon: three files are made in the terminal and
listed, and the second one is selected. -/
theorem list_shown_three :
    let events := [.on (Screen.command "touch a" (by decide)),
      .on (Screen.command "touch b" (by decide)), .on (Screen.command "touch c" (by decide)),
      .on .icon, .draw, .on (.key Keyboard.keyDown), .draw]
    Along (step 380) (Shown (graphicsInit 4096 1024 768) ⟨16, fun _ => 0⟩ 500 380)
      (start bareMachine) events :=
  list_shown ⟨by decide, by decide, by decide, by decide⟩ _ (by decide) (by decide) _ _

end FileWindow

end FalastinOS.Gui
