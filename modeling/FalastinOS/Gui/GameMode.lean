/-
  Gui/GameMode.lean --- `gamemode.c`: games that take the whole screen.

  `gamemode_enter` keeps the pixels in a buffer on the heap, runs the game, copies the
  pixels back and frees the buffer.  What a game does is a parameter: it may draw anything
  and use the heap, as long as it gives back what it took.

  `gamemode_restores` follows a screen through any output and any games, with anything else
  on the heap: as long as there was room for the buffers, the screen shows what was printed
  as if no game had been played.  Without room the last picture of the game stays, and in
  both cases the heap is as before.
-/
import FalastinOS.Gui.Screen
import FalastinOS.Heap.Borrow

set_option autoImplicit false

namespace FalastinOS.Gui

open FalastinOS.Foundation FalastinOS.Heap

/-! ## The code -/

/-- What a function of a game does to the framebuffer and the heap; none for NULL. -/
abbrev GameCall : Type := Option (Framebuffer × HeapState → Framebuffer × HeapState)

/-- `Game`. -/
structure Game where
  name : CStr
  init : GameCall
  run : GameCall
  cleanup : GameCall

/-- `if (fn) fn();`. -/
def GameCall.exec (fn : GameCall) (s : Framebuffer × HeapState) : Framebuffer × HeapState :=
  match fn with
  | some fn => fn s
  | none => s

/-- The three calls that `gamemode_enter` makes. -/
def Game.play (game : Game) (s : Framebuffer × HeapState) : Framebuffer × HeapState :=
  game.cleanup.exec (game.run.exec (game.init.exec s))

/-- The variables of `gamemode.c` that are read, with the screen and the heap. -/
structure GameMode where
  screen : TextScreen
  heap : HeapState
  gameActive : Bool
  /-- `saved_framebuffer`; 0 for NULL -/
  savedFramebuffer : Nat
  savedWidth : UInt32
  savedHeight : UInt32

namespace GameMode

/-- `saved_width * saved_height * 4`. -/
def savedSize (width height : UInt32) : Nat := (width * height * 4).toNat

/-- `memcpy(saved_framebuffer, fb_get(), size)`, for a size that is a multiple of 4. -/
def keepPixels (fb : Framebuffer) (ptr size : Nat) (m : Mem) : Mem :=
  (List.range (size / 4)).foldl
    (fun m k => m.writeLE 4 (ptr + 4 * k) (fb (UInt32.ofNat k)).toNat) m

/-- `memcpy(fb_get(), saved_framebuffer, size)`. -/
def bringBack (m : Mem) (ptr size : Nat) (fb : Framebuffer) : Framebuffer :=
  (List.range (size / 4)).foldl
    (fun fb k => Function.update fb (UInt32.ofNat k) (UInt32.ofNat (m.readLE 4 (ptr + 4 * k)))) fb

variable (g : Geometry) (f : Font)

/-- `save_video_state()`. -/
def saveVideoState (fuel : Nat) (s : GameMode) : Option GameMode :=
  let size := savedSize g.width g.height
  (malloc fuel s.heap size).map fun r =>
    { s with
      savedWidth := g.width
      savedHeight := g.height
      savedFramebuffer := r.ptr
      heap :=
        if r.ptr ≠ 0 then { r.heap with mem := keepPixels s.screen.fb r.ptr size r.heap.mem }
        else r.heap }

/-- `restore_video_state()`. -/
def restoreVideoState (fuel : Nat) (s : GameMode) : Option GameMode :=
  if s.savedFramebuffer ≠ 0 then
    let size := savedSize s.savedWidth s.savedHeight
    (free fuel s.heap s.savedFramebuffer).map fun r =>
      { s with
        screen :=
          { s.screen with fb := bringBack s.heap.mem s.savedFramebuffer size s.screen.fb }
        heap := r.heap
        savedFramebuffer := 0 }
  else some s

/-- What is printed before a game. -/
def entering (game : Game) : List ScreenCall :=
  [.print ⟨text "Entering game mode: ", by decide⟩, .print game.name, .print ⟨text "\n", by decide⟩,
    .print ⟨text "Press ESC to exit\n", by decide⟩]

/-- What is printed after it. -/
def exiting : ScreenCall := .print ⟨text "Exiting game mode\n", by decide⟩

/-- The calls of the game, between the two copies. -/
def played (game : Game) (s : GameMode) : GameMode :=
  let after := game.play (s.screen.fb, s.heap)
  { s with screen := { s.screen with fb := after.1 }, heap := after.2 }

/-- `gamemode_enter(game)`, for a game that is not NULL. -/
def gamemodeEnter (fuel : Nat) (game : Game) (s : GameMode) : Option GameMode := do
  let screen := (entering game).foldl (TextScreen.call g f) s.screen
  let s ← saveVideoState g fuel { s with gameActive := true, screen := screen }
  let s ← restoreVideoState fuel (s.played game)
  return { s with gameActive := false, screen := s.screen.call g f exiting }

/-- The call returns and leaves `s'`. -/
def Enters (game : Game) (s s' : GameMode) : Prop :=
  ∃ n, ∀ fuel, n < fuel → gamemodeEnter g f fuel game s = some s'

end GameMode

/-- The game gives back what it takes from the heap and stores nothing in what others hold. -/
def Game.Tidy (game : Game) : Prop :=
  ∀ (fb : Framebuffer) (t : Session), Reachable t → Restored t (game.play (fb, t.heap)).2

namespace GameMode

/-! ## The two copies -/

/-- A pixel in memory. -/
theorem readLE_keepPixels (fb : Framebuffer) (ptr : Nat) {size : Nat} (m : Mem) {k : Nat}
    (hk : k < size / 4) :
    (keepPixels fb ptr size m).readLE 4 (ptr + 4 * k) = (fb (UInt32.ofNat k)).toNat := by
  have hpart : ∀ n, k < n → Mem.readLE ((List.range n).foldl
      (fun m k => m.writeLE 4 (ptr + 4 * k) (fb (UInt32.ofNat k)).toNat) m) 4 (ptr + 4 * k) =
        (fb (UInt32.ofNat k)).toNat := by
    intro n
    induction n with
    | zero => exact fun h => absurd h (Nat.not_lt_zero k)
    | succ n ih =>
        intro hkn
        rw [List.range_succ, List.foldl_append, List.foldl_cons, List.foldl_nil]
        rcases Nat.lt_or_eq_of_le (Nat.le_of_lt_succ hkn) with hlt | rfl
        · rw [Mem.readLE_writeLE_of_disjoint _ (by omega), ih hlt]
        · exact Mem.readLE_writeLE_of_lt _ _ (UInt32.toNat_lt _)
  exact hpart _ hk

theorem keepPixels_outside (fb : Framebuffer) (ptr : Nat) {size : Nat} (m : Mem) {x : Nat}
    (hx : x < ptr ∨ ptr + size ≤ x) : keepPixels fb ptr size m x = m x := by
  have hpart : ∀ n, 4 * n ≤ size → (List.range n).foldl
      (fun m k => m.writeLE 4 (ptr + 4 * k) (fb (UInt32.ofNat k)).toNat) m x = m x := by
    intro n
    induction n with
    | zero => exact fun _ => rfl
    | succ n ih =>
        intro hn
        rw [List.range_succ, List.foldl_append, List.foldl_cons, List.foldl_nil,
          Mem.writeLE_of_outside _ (by omega), ih (by omega)]
  exact hpart _ (Nat.mul_div_le size 4)

/-- The pixels that were kept are as they were. -/
theorem bringBack_eq {m : Mem} {ptr size : Nat} {old : Framebuffer} (fb : Framebuffer)
    (hsize : size < 2 ^ 32)
    (hkept : ∀ k, k < size / 4 → m.readLE 4 (ptr + 4 * k) = (old (UInt32.ofNat k)).toNat)
    {i : UInt32} (hi : i.toNat < size / 4) : bringBack m ptr size fb i = old i := by
  have hpart : ∀ n ≤ size / 4, i.toNat < n → (List.range n).foldl
      (fun fb k => Function.update fb (UInt32.ofNat k) (UInt32.ofNat (m.readLE 4 (ptr + 4 * k))))
        fb i = old i := by
    intro n
    induction n with
    | zero => exact fun _ h => absurd h (Nat.not_lt_zero _)
    | succ n ih =>
        intro hn hin
        rw [List.range_succ, List.foldl_append, List.foldl_cons, List.foldl_nil]
        by_cases hlast : i.toNat = n
        · have hindex : UInt32.ofNat n = i := by rw [← hlast, UInt32.ofNat_toNat]
          rw [hindex, Function.update_self, hkept n (by omega), hindex, UInt32.ofNat_toNat]
        · have hne : i ≠ UInt32.ofNat n := by
            intro heq
            refine hlast ?_
            rw [heq, UInt32.toNat_ofNat', Nat.mod_eq_of_lt (by omega)]
          rw [Function.update_of_ne hne, ih (by omega) (by omega)]
  exact hpart _ (Nat.le_refl _) hi

theorem savedSize_eq {width height : UInt32} (h : width.toNat * height.toNat * 4 < 2 ^ 32) :
    savedSize width height = width.toNat * height.toNat * 4 := by
  have hfour : (4 : UInt32).toNat = 4 := rfl
  rw [savedSize, UInt32.toNat_mul, UInt32.toNat_mul, hfour, Nat.mod_eq_of_lt (a := _ * height.toNat)
    (by omega), Nat.mod_eq_of_lt h]

/-! ## One game -/

variable {g : Geometry} {f : Font}

/-- The screen when a game begins. -/
def begun (g : Geometry) (f : Font) (game : Game) (s : GameMode) : TextScreen :=
  (entering game).foldl (TextScreen.call g f) s.screen

/-- The state after a game that leaves the pixels `fb` and the heap `heap`. -/
def ended (g : Geometry) (f : Font) (game : Game) (s : GameMode) (fb : Framebuffer)
    (heap : HeapState) : GameMode where
  screen := TextScreen.call g f { begun g f game s with fb := fb } exiting
  heap := heap
  gameActive := false
  savedFramebuffer := 0
  savedWidth := g.width
  savedHeight := g.height

/-- Without room for the buffer the picture of the game stays. -/
theorem enters_without_room (game : Game) {s : GameMode} {r : Heap.Reply}
    (hmalloc : Returns s.heap (.malloc (savedSize g.width g.height)) r) (hnull : r.ptr = 0)
    (hheap : r.heap = s.heap) :
    Enters g f game s (ended g f game s (game.play ((begun g f game s).fb, s.heap)).1
      (game.play ((begun g f game s).fb, s.heap)).2) := by
  obtain ⟨n, hmalloc⟩ := hmalloc
  refine ⟨n, fun fuel hfuel => ?_⟩
  have hrun : malloc fuel s.heap (savedSize g.width g.height) = some r := hmalloc fuel hfuel
  rw [gamemodeEnter, saveVideoState, hrun]
  simp only [Option.map_some, Option.bind_eq_bind, Option.bind_some, restoreVideoState, played,
    hnull, hheap, ne_eq, not_true_eq_false, if_false]
  rfl

/-- With room, the pixels come back out of the buffer. -/
theorem enters_with_room (game : Game) {s : GameMode} {r d : Heap.Reply}
    (hmalloc : Returns s.heap (.malloc (savedSize g.width g.height)) r) (hptr : r.ptr ≠ 0)
    {after : Framebuffer × HeapState}
    (hplay : game.play ((begun g f game s).fb, { r.heap with
      mem := keepPixels (begun g f game s).fb r.ptr (savedSize g.width g.height) r.heap.mem }) =
        after)
    (hfree : Returns after.2 (.free r.ptr) d) :
    Enters g f game s (ended g f game s
      (bringBack after.2.mem r.ptr (savedSize g.width g.height) after.1) d.heap) := by
  obtain ⟨n, hmalloc⟩ := hmalloc
  obtain ⟨n', hfree⟩ := hfree
  refine ⟨max n n', fun fuel hfuel => ?_⟩
  have hrun : malloc fuel s.heap (savedSize g.width g.height) = some r :=
    hmalloc fuel (by omega)
  have hrun' : free fuel after.2 r.ptr = some d := hfree fuel (by omega)
  rw [begun] at hplay
  rw [gamemodeEnter, saveVideoState, hrun]
  simp only [Option.map_some, Option.bind_eq_bind, Option.bind_some, restoreVideoState, played,
    hptr, ne_eq, not_false_eq_true, if_true, hplay, hrun']
  rfl

/-- Any game that gives back what it takes: the heap is as before, and the pixels are those
before the game, or the ones the game left if there was no room. -/
theorem exists_enters (hsize : g.width.toNat * g.height.toNat * 4 ≤ 0xFFFFFFF8)
    (hpos : 0 < g.width.toNat * g.height.toNat) {game : Game} (htidy : game.Tidy) {s : GameMode}
    {live : Live} (hreach : Reachable ⟨s.heap, live⟩) :
    ∃ fb heap, Enters g f game s (ended g f game s fb heap) ∧ Restored ⟨s.heap, live⟩ heap ∧
      (NoRoom s.heap (roundUp (g.width.toNat * g.height.toNat * 4)) →
        fb = (game.play ((begun g f game s).fb, s.heap)).1) ∧
      (¬ NoRoom s.heap (roundUp (g.width.toNat * g.height.toNat * 4)) → ∀ i : UInt32,
        i.toNat < g.width.toNat * g.height.toNat → fb i = (begun g f game s).fb i) := by
  have hbytes : savedSize g.width g.height = g.width.toNat * g.height.toNat * 4 :=
    savedSize_eq (by omega)
  obtain ⟨r, hmalloc, hroom, hsame, hborrow⟩ :=
    hreach.borrow (n := g.width.toNat * g.height.toNat * 4) (by omega) hsize
  rw [← hbytes] at hmalloc
  by_cases hnull : r.ptr = 0
  · refine ⟨_, _, enters_without_room game hmalloc hnull (hsame hnull), htidy _ _ hreach,
      fun _ => rfl, fun hno => absurd (hroom.mp hnull) hno⟩
  · have hborrowed := hborrow hnull
    have houtside : ∀ x, x < r.ptr ∨ r.ptr + g.width.toNat * g.height.toNat * 4 ≤ x →
        keepPixels (begun g f game s).fb r.ptr (savedSize g.width g.height) r.heap.mem x =
          r.heap.mem x := by
      intro x hx
      rw [hbytes]
      exact keepPixels_outside _ _ _ hx
    obtain ⟨hlent, hfits⟩ := hborrowed.lend _ houtside
    have hplayed := htidy (begun g f game s).fb _ hlent
    obtain ⟨d, hfree, hrestored⟩ := hborrowed.giveBack _ _ houtside hplayed
    refine ⟨_, _, enters_with_room game hmalloc hnull rfl hfree, hrestored,
      fun hno => absurd (hroom.mpr hno) hnull, fun _ i hi => ?_⟩
    refine bringBack_eq _ (by omega) (fun k hk => ?_) (by omega)
    rw [← readLE_keepPixels (begun g f game s).fb r.ptr r.heap.mem hk]
    refine Mem.readLE_congr fun x hlow hhigh =>
      hplayed.regions r.ptr (Session.lent_held _ _ _ _) x ⟨by omega, ?_⟩
    exact Nat.lt_of_lt_of_le (by omega) (Nat.add_le_add_left hfits r.ptr)

/-! ## Output and games -/

/-- What is printed around a game. -/
def messages (game : Game) : List ScreenCall := entering game ++ [exiting]

/-- The screen and the heap after any output, any other calls of the allocator, and any games
for whose buffers there was room.  `o` is what was printed; `live` is what others hold. -/
inductive Reached (g : Geometry) (f : Font) : GameMode → Live → Output → Prop where
  | start (s : GameMode) (h : HeapState) :
      Reached g f { s with screen := s.screen.clearScreen g, heap := heapInit h } (fun _ => none)
        ⟨Layout.empty, s.screen.io, s.screen.terminalOutputMode⟩
  | output {s : GameMode} {live : Live} {o : Output} (c : ScreenCall) : Reached g f s live o →
      Reached g f { s with screen := s.screen.call g f c } live (o.call g.textCols c)
  | heap {s : GameMode} {live : Live} {o : Output} {h : HeapState} {live' : Live} :
      Reached g f s live o → Reachable ⟨h, live'⟩ → Reached g f { s with heap := h } live' o
  | enter {s s' : GameMode} {live : Live} {o : Output} {game : Game} : Reached g f s live o →
      game.Tidy → ¬ NoRoom s.heap (roundUp (g.width.toNat * g.height.toNat * 4)) →
      Enters g f game s s' →
      Reached g f s' live ((messages game).foldl (Output.call g.textCols) o)

variable {rows : Nat}

/-- A screen with the same pixels shows the same page. -/
theorem renders_congr (hg : g.Flat f rows) {s : TextScreen} {o : Output} (h : Renders g f rows s o)
    {fb : Framebuffer}
    (hfb : ∀ i : UInt32, i.toNat < g.width.toNat * g.height.toNat → fb i = s.fb i) :
    Renders g f rows { s with fb := fb } o := by
  obtain ⟨⟨top, hpictures⟩, hrow, hgrid, hmode⟩ := h
  refine ⟨⟨top, ⟨hpictures.col, hpictures.colLt, hpictures.row, hpictures.rowLe, hpictures.below,
    hpictures.anchored, fun x y hx hy => ?_⟩⟩, hrow, hgrid, hmode⟩
  rw [← hpictures.pixels x y hx hy]
  refine hfb _ ?_
  rw [Geometry.toNat_index hg.contiguous hx hy]
  exact Geometry.linear_lt hx hy

theorem Enters.unique {game : Game} {s s' t : GameMode} (h : Enters g f game s s')
    (ht : Enters g f game s t) : s' = t := by
  obtain ⟨n, hn⟩ := h
  obtain ⟨k, hk⟩ := ht
  have hs := hn (max n k + 1) (by omega)
  rw [hk (max n k + 1) (by omega)] at hs
  exact (Option.some.inj hs).symm

theorem Reached.kept (hg : g.Flat f rows)
    (hsize : g.width.toNat * g.height.toNat * 4 ≤ 0xFFFFFFF8) {s : GameMode} {live : Live}
    {o : Output} (h : Reached g f s live o) :
    Renders g f rows s.screen o ∧ Reachable ⟨s.heap, live⟩ := by
  induction h with
  | start s h =>
      exact ⟨⟨⟨0, TextScreen.pictures_clearScreen hg s.screen⟩, hg.rows_pos, rfl, rfl⟩, .init h⟩
  | output c _ ih => exact ⟨ih.1.call hg c, ih.2⟩
  | heap _ hreach ih => exact ⟨ih.1, hreach⟩
  | @enter s s' live o game _ htidy hroom henters ih =>
      have hpos := Nat.mul_pos hg.width_pos hg.contiguous.height_pos
      obtain ⟨fb, heap, henters', hrestored, -, hpixels⟩ :=
        exists_enters (f := f) hsize hpos htidy ih.2
      obtain rfl := henters.unique henters'
      refine ⟨?_, hrestored.reachable⟩
      rw [messages, List.foldl_append]
      exact (renders_congr hg (ih.1.calls hg (entering game)) (hpixels hroom)).call hg exiting

/-- Whatever was printed and played, with room for the buffers: every pixel is that of what was
printed, as if no game had been played.  Any further game returns and leaves the heap as it
was for everybody who holds a part of it; without room its picture stays, under what is
printed after it. -/
theorem gamemode_restores (hg : g.Flat f rows)
    (hsize : g.width.toNat * g.height.toNat * 4 ≤ 0xFFFFFFF8) {s : GameMode} {live : Live}
    {o : Output} (h : Reached g f s live o) :
    Renders g f rows s.screen o ∧
      ∀ game : Game, game.Tidy → ∃ s', Enters g f game s s' ∧ Restored ⟨s.heap, live⟩ s'.heap ∧
        (NoRoom s.heap (roundUp (g.width.toNat * g.height.toNat * 4)) →
          s'.screen = TextScreen.call g f { begun g f game s with
            fb := (game.play ((begun g f game s).fb, s.heap)).1 } exiting) := by
  obtain ⟨hrenders, hreach⟩ := h.kept hg hsize
  have hpos := Nat.mul_pos hg.width_pos hg.contiguous.height_pos
  refine ⟨hrenders, fun game htidy => ?_⟩
  obtain ⟨fb, heap, henters, hrestored, hpicture, -⟩ :=
    exists_enters (f := f) hsize hpos htidy hreach
  refine ⟨_, henters, hrestored, fun hno => ?_⟩
  rw [ended, hpicture hno]

/-- A game that fills the screen, when it begins and when it ends. -/
def fills (g : Geometry) : Game where
  name := ⟨text "Snake", by decide⟩
  init := some fun s => (g.fillScreen s.1 0x000000, s.2)
  run := none
  cleanup := some fun s => (g.fillScreen s.1 0x00003366, s.2)

theorem tidy_fills (g : Geometry) : (fills g).Tidy := fun _ _ ht => ht.restored

/-- A line is printed and a game is played, on a screen of 1024 by 768 pixels. -/
theorem gamemode_restores_fills :
    let g := graphicsInit 4096 1024 768
    let f : Font := ⟨16, fun _ => 0⟩
    let boot : TextScreen := ⟨fun _ => 0, 7, 7, false, ⟨fun _ _ => 0, 0, 0, true, 0⟩⟩
    let line : ScreenCall := .print ⟨text "snake\n", by decide⟩
    let s : GameMode :=
      ⟨TextScreen.call g f (boot.clearScreen g) line, heapInit blankHeap, false, 0, 0, 0⟩
    Renders g f 48 s.screen (Output.call g.textCols ⟨Layout.empty, boot.io, false⟩ line) ∧
      ∃ s', Enters g f (fills g) s s' := by
  intro g f boot line s
  obtain ⟨hrenders, hgames⟩ := gamemode_restores flat_1024 (by decide)
    (.output line (.start ⟨boot, blankHeap, false, 0, 0, 0⟩ blankHeap))
  obtain ⟨s', henters, -⟩ := hgames (fills g) (tidy_fills g)
  exact ⟨hrenders, s', henters⟩

end GameMode

end FalastinOS.Gui
