/-
  Games/Board.lean --- what `snake.c` shows on the screen.

  `draw_game` paints the segments, the head, the food and the score over what is there,
  and `snake_run` calls it after each move.  Nothing paints a point that the snake has
  left.  `board_shows` says what the screen is therefore after any keys and moves: each
  pixel is that of the food, of the head, or of a point that the snake has ever covered,
  under the digits of the score and, in the end, under the message.
-/
import FalastinOS.Games.Snake
import FalastinOS.Gui.Pixels
import FalastinOS.Libc.Itoa

set_option autoImplicit false

namespace FalastinOS.Games

open FalastinOS.Foundation FalastinOS.Gui

/-- `COLOR_BLACK`. -/
def colorBlack : UInt32 := 0x000000

/-- `COLOR_GREEN`. -/
def colorGreen : UInt32 := 0x00FF00

/-- `COLOR_RED`. -/
def colorRed : UInt32 := 0xFF0000

/-- `COLOR_YELLOW`. -/
def colorYellow : UInt32 := 0xFFFF00

/-- `COLOR_WHITE`. -/
def colorWhite : UInt32 := 0xFFFFFF

/-! ## Drawing -/

section Drawing

variable (g : Geometry)

/-- `draw_snake_cell(x, y, color)`. -/
def drawSnakeCell (cellSize : Int) (fb : Framebuffer) (p : Point) (color : UInt32) : Framebuffer :=
  g.fillRect fb (p.x * cellSize) (p.y * cellSize) (cellSize - 1) (cellSize - 1) color

/-- The loops that draw each of `n` characters as a block. -/
def drawBlocks (fb : Framebuffer) (x y : Int) (n : Nat) (color : UInt32) : Framebuffer :=
  (List.range n).foldl (fun fb (i : Nat) => g.paint fb (x + i * 8) y 8 6 fun _ _ => color) fb

/-- The rounds of `for (int i = a; str[i]; i++)`, at most `n`. -/
def textLength (str : Mem) : Nat → Nat → Nat
  | 0, _ => 0
  | n + 1, a => if str a = 0 then 0 else textLength str n (a + 1) + 1

/-- `draw_number(x, y, num)`, with the old contents of its buffer of 16 characters. -/
def drawNumber (str : Mem) (fb : Framebuffer) (x y num : Int) : Framebuffer :=
  drawBlocks g fb x y (textLength (Libc.itoa (Int32.ofInt num) str 10) 16 0) colorWhite

/-- `width`. -/
def boardWidth : Int := g.width.toInt32.toInt

/-- `height`. -/
def boardHeight : Int := g.height.toInt32.toInt

/-- `draw_game()`.  The message has 20 characters. -/
def drawGame (str : Mem) (game : Game) (fb : Framebuffer) : Framebuffer :=
  let cellSize := Game.cellSize (boardWidth g) (boardHeight g)
  let fb := (List.range game.snakeLen).foldl
    (fun fb i => drawSnakeCell g cellSize fb (game.snake i) colorGreen) fb
  let fb := if game.gameOver = false ∧ 0 < game.snakeLen then
    drawSnakeCell g cellSize fb (game.snake 0) colorYellow else fb
  let fb := drawSnakeCell g cellSize fb game.food colorRed
  let fb := drawNumber g str fb 10 (boardHeight g - 30) game.score
  if game.gameOver then
    let msgW : Nat := 20
    let startX := (boardWidth g - msgW * 8).tdiv 2
    let startY := (boardHeight g).tdiv 2
    drawBlocks g fb startX startY msgW colorRed
  else fb

/-- The game and the framebuffer; and, for the record, the points the snake has covered. -/
structure Board where
  game : Game
  fb : Framebuffer
  covered : List Point

namespace Board

/-- `snake_init()`. -/
def start (game : Game) (ticks : UInt32) (str : Mem) (fb : Framebuffer) : Board :=
  let game := game.initGame (boardWidth g) (boardHeight g) ticks
  ⟨game, drawGame g str game (g.fillScreen fb colorBlack), game.body⟩

/-- What `snake_run` does: it handles a key, or moves the snake and draws.  With each event
come the old contents of the buffer in `draw_number`. -/
def step (s : Board) (e : Game.Event × Mem) : Except Overrun Board :=
  match e.1 with
  | .key scancode => .ok { s with game := s.game.handleInput scancode }
  | .move => do
      let game ← s.game.moveSnake
      return ⟨game, drawGame g e.2 game s.fb, s.covered ++ game.body⟩

end Board

end Drawing

/-! ## The picture of a game -/

section Picture

variable {g : Geometry}

/-- The pixels of a point of the grid. -/
abbrev InCell (cellSize : Int) (q : Point) (p : g.Pixel) : Prop :=
  Geometry.InBlock (q.x * cellSize) (q.y * cellSize) (cellSize - 1) (cellSize - 1) p

/-- The pixels of the first `n` characters of a text. -/
abbrev InText (x y : Int) (n : Nat) (p : g.Pixel) : Prop :=
  ∃ i ∈ List.range n, Geometry.InBlock (x + (i : Nat) * 8) y 6 8 p

/-- How many digits the score has. -/
def digits (score : Int) : Nat := (Libc.signedNumeral score).length

/-- The colour of a pixel, for a game in which the snake has covered some points. -/
def picture (game : Game) (covered : List Point) (p : g.Pixel) : UInt32 :=
  let cellSize := Game.cellSize (boardWidth g) (boardHeight g)
  if game.gameOver ∧ InText ((boardWidth g - 20 * 8).tdiv 2) ((boardHeight g).tdiv 2) 20 p then
    colorRed
  else if InText 10 (boardHeight g - 30) (digits game.score) p then colorWhite
  else if InCell cellSize game.food p then colorRed
  else if game.gameOver = false ∧ InCell cellSize (game.snake 0) p then colorYellow
  else if ∃ q ∈ covered, InCell cellSize q p then colorGreen
  else colorBlack

end Picture

/-! ## What a move leaves -/

namespace Game

variable {g g' : Game}

/-- The snake and the food are in the grid, also when the game is over. -/
structure Inside (g : Game) : Prop where
  body : ∀ p ∈ g.body, g.InGrid p
  food : g.InGrid g.food
  score : g.score = g.snakeLen - 3

theorem Sound.inside_of_going (h : Sound g) (hgoing : g.gameOver = false) : g.Inside :=
  ⟨(h.going hgoing).inGrid, (h.going hgoing).foodInGrid, (h.going hgoing).score⟩

/-- What the drawing of the next position depends on. -/
structure Leads (g g' : Game) : Prop where
  inside : g'.Inside
  ended : g.gameOver = true → g'.gameOver = true
  score : g.score ≤ g'.score
  food : g.food = g'.food ∨ g.food ∈ g'.body
  head : g.gameOver = false → g.snake 0 ∈ g'.body
  gridW : g'.gridW = g.gridW
  gridH : g'.gridH = g.gridH

/-- The head, which is on the snake. -/
theorem head_mem_body (hlen : 0 < g.snakeLen) : g.snake 0 ∈ g.body :=
  List.mem_map_of_mem (List.mem_range.mpr hlen)

/-- Whether the game ends is not drawn by itself. -/
theorem Leads.selfCollision (h : Leads g g') : Leads g g'.selfCollision := by
  rw [Game.selfCollision]
  split
  · exact ⟨⟨h.inside.body, h.inside.food, h.inside.score⟩, fun _ => rfl, h.score, h.food, h.head,
      h.gridW, h.gridH⟩
  · exact h

theorem moveSnake_leads (h : Sound g) (hin : g.Inside) (hmove : g.moveSnake = .ok g') :
    Leads g g' := by
  have hlong := h.long
  cases hplay : g.gameOver with
  | true =>
      rw [Game.moveSnake, if_pos hplay] at hmove
      obtain rfl := Except.ok.inj hmove
      exact ⟨hin, id, Int.le_refl _, .inl rfl, fun _ => head_mem_body (by omega), rfl, rfl⟩
  | false =>
      by_cases hnext : g.InGrid g.next
      · by_cases hfood : g.next = g.food
        · by_cases hroom : g.snakeLen < 100
          · rw [moveSnake_eat hplay hnext hfood hroom] at hmove
            obtain ⟨rng, food, heq, hcases⟩ := generateFood_eq (g := g.grown) h.width h.height
            rw [heq] at hmove
            obtain rfl := Except.ok.inj hmove
            have hbody : body { g.grown with rngState := rng, food := food } = g.next :: g.body :=
              body_grown
            refine Leads.selfCollision ⟨⟨?_, ?_, ?_⟩, ?_, ?_, .inr ?_, fun _ => ?_, rfl, rfl⟩
            · rw [hbody, List.forall_mem_cons]
              exact ⟨hnext, hin.body⟩
            · rcases hcases with ⟨hfree, _⟩ | ⟨rfl, _⟩
              · exact hfree
              · exact hin.food
            · show g.score + 1 = ((g.snakeLen + 1 : Nat) : Int) - 3
              have hscore := hin.score
              omega
            · intro hover
              rw [hplay] at hover
              exact absurd hover Bool.false_ne_true
            · show g.score ≤ g.score + 1
              omega
            · rw [hbody, ← hfood]
              exact List.mem_cons_self
            · rw [hbody]
              exact List.mem_cons_of_mem _ (head_mem_body (by omega))
          · rw [moveSnake_overrun hplay hnext hfood (by omega)] at hmove
            cases hmove
        · rw [moveSnake_advance hplay hnext hfood h.short] at hmove
          obtain rfl := Except.ok.inj hmove
          have hbody := body_advance (g := g) (by omega)
          refine Leads.selfCollision
            ⟨⟨?_, hin.food, hin.score⟩, ?_, Int.le_refl _, .inl rfl, fun _ => ?_, rfl, rfl⟩
          · rw [hbody, List.forall_mem_cons]
            exact ⟨hnext, fun p hp => hin.body p (List.dropLast_subset _ hp)⟩
          · intro hover
            rw [hplay] at hover
            exact absurd hover Bool.false_ne_true
          · have hsecond : 0 < g.snakeLen - 1 := by omega
            rw [hbody, dropLast_body]
            exact List.mem_cons_of_mem _ (List.mem_map_of_mem (List.mem_range.mpr hsecond))
      · rw [moveSnake_wall hplay hnext] at hmove
        obtain rfl := Except.ok.inj hmove
        exact ⟨⟨hin.body, hin.food, hin.score⟩, fun _ => rfl, Int.le_refl _, .inl rfl,
          fun _ => head_mem_body (g := g) (by omega), rfl, rfl⟩

end Game

/-! ## Drawing over a picture -/

section Shows

variable {g : Geometry}

/-- How many digits a score has that can be reached. -/
theorem digits_table : ∀ v, v < 98 → (Libc.signedNumeral (v : Nat)).length =
    if v < 10 then 1 else 2 := by decide +kernel

theorem digits_mono {a b : Int} (ha : 0 ≤ a) (hab : a ≤ b) (hb : b < 98) :
    digits a ≤ digits b ∧ digits b ≤ 2 := by
  obtain ⟨m, rfl⟩ := Int.eq_ofNat_of_zero_le ha
  obtain ⟨n, rfl⟩ := Int.eq_ofNat_of_zero_le (Int.le_trans ha hab)
  rw [digits, digits, digits_table m (by omega), digits_table n (by omega)]
  split <;> split <;> omega

/-- The loop over a string ends at its end. -/
theorem textLength_eq {str : Mem} {s : List UInt8} : ∀ {n a : Nat}, StringAt str a s →
    s.length < n → textLength str n a = s.length := by
  induction s with
  | nil =>
      intro n a h hlen
      obtain ⟨m, rfl⟩ := Nat.exists_eq_succ_of_ne_zero (Nat.ne_of_gt hlen)
      exact if_pos h
  | cons c rest ih =>
      intro n a h hlen
      rw [List.length_cons] at hlen
      obtain ⟨m, rfl⟩ := Nat.exists_eq_succ_of_ne_zero (Nat.ne_of_gt (Nat.zero_lt_of_lt hlen))
      rw [textLength, if_neg (by rw [h.2.1]; exact h.1), ih h.2.2 (by omega), List.length_cons]

/-- The number of blocks that `draw_number` draws for a score. -/
theorem textLength_itoa {score : Int} (h : 0 ≤ score) (hlt : score < 98) (str : Mem) :
    textLength (Libc.itoa (Int32.ofInt score) str 10) 16 0 = digits score := by
  have hvalue : (Int32.ofInt score).toInt = score :=
    Int32.toInt_ofInt_of_le (by omega) (by omega)
  have hne : Int32.ofInt score ≠ Int32.minValue := by
    intro heq
    rw [heq] at hvalue
    have hmin : Int32.minValue.toInt = -2147483648 := rfl
    omega
  have hstring := Libc.itoa_decimal hne str
  rw [hvalue] at hstring
  have hshort := (digits_mono h (Int.le_refl _) hlt).2
  exact textLength_eq hstring (Nat.lt_of_le_of_lt hshort (by decide))

/-- Blocks of characters are layers of one colour. -/
theorem view_drawBlocks (hg : g.Contiguous) (fb : Framebuffer) {x y : Int} {n : Nat}
    (color : UInt32) (hn : n ≤ 20) (hx : -2 ^ 31 ≤ x ∧ x < 2 ^ 31) (hy : -2 ^ 31 ≤ y ∧ y < 2 ^ 31)
    (p : g.Pixel) : g.view (drawBlocks g fb x y n color) p =
      if InText x y n p then color else g.view fb p := by
  have hblocks : g.view (drawBlocks g fb x y n color) = paint ((List.range n).map fun i : Nat =>
      region (Geometry.InBlock (g := g) (x + (i : Nat) * 8) y 6 8) color) (g.view fb) := by
    refine view_foldl (fun fb i hi => ?_) fb
    rw [List.mem_range] at hi
    exact Geometry.view_fillRect (w := 6) (h := 8) hg fb color (by omega) (by omega)
  rw [hblocks, paint_regions]

/-- A cell of the grid is on the screen. -/
theorem view_drawSnakeCell (hg : g.Contiguous) {game : Game} {cellSize : Int}
    (hsize : 8 ≤ cellSize) (hw : game.gridW * cellSize ≤ g.width.toNat)
    (hh : game.gridH * cellSize ≤ g.height.toNat) (fb : Framebuffer) {q : Point}
    (hq : game.InGrid q) (color : UInt32) :
    g.view (drawSnakeCell g cellSize fb q color) =
      Layer.over (region (InCell cellSize q) color) (g.view fb) := by
  have hwlt := hg.width_lt
  have hhlt := hg.height_lt
  obtain ⟨hleft, hright, htop, hbottom⟩ := hq
  have hside : ∀ {v n : Int} {side : Nat}, 0 ≤ v → v < n → n * cellSize ≤ side →
      side < 2 ^ 31 → Geometry.Near (v * cellSize) (cellSize - 1) := by
    intro v n side hv hvn hn hside
    have hlow : 0 ≤ v * cellSize := Int.mul_nonneg hv (by omega)
    have hhigh : (v + 1) * cellSize ≤ n * cellSize :=
      Int.mul_le_mul_of_nonneg_right hvn (by omega)
    rw [Int.add_mul, Int.one_mul] at hhigh
    omega
  exact Geometry.view_fillRect hg fb color (hside hleft hright hw hwlt)
    (hside htop hbottom hh hhlt)

/-- The grid of a game is on the screen. -/
structure OnScreen (g : Geometry) (game : Game) : Prop where
  sound : game.Sound
  inside : game.Inside
  gridW : game.gridW * Game.cellSize (boardWidth g) (boardHeight g) ≤ g.width.toNat
  gridH : game.gridH * Game.cellSize (boardWidth g) (boardHeight g) ≤ g.height.toNat

variable {game game' : Game}

theorem OnScreen.score_bounds (h : OnScreen g game) : 0 ≤ game.score ∧ game.score < 98 := by
  have hscore := h.inside.score
  have hlong := h.sound.long
  have hshort := h.sound.short
  omega

/-- The segments, as they are drawn. -/
theorem view_drawBody (hg : g.Contiguous) (h : OnScreen g game) (fb : Framebuffer) (p : g.Pixel) :
    let cellSize := Game.cellSize (boardWidth g) (boardHeight g)
    g.view ((List.range game.snakeLen).foldl
        (fun fb i => drawSnakeCell g cellSize fb (game.snake i) colorGreen) fb) p =
      if ∃ q ∈ game.body, InCell cellSize q p then colorGreen else g.view fb p := by
  intro cellSize
  have hsize : 8 ≤ cellSize := (Game.cellSize_bounds _ _).1
  have hbody : g.view ((List.range game.snakeLen).foldl
      (fun fb i => drawSnakeCell g cellSize fb (game.snake i) colorGreen) fb) =
        paint ((List.range game.snakeLen).map fun i =>
          region (InCell (g := g) cellSize (game.snake i)) colorGreen) (g.view fb) :=
    view_foldl (fun fb i hi => view_drawSnakeCell hg hsize h.gridW h.gridH fb
      (h.inside.body _ (List.mem_map_of_mem hi)) colorGreen) fb
  rw [hbody, paint_regions, Game.body]
  simp only [List.mem_map, exists_exists_and_eq_and]

/-- `draw_game` puts a position over what the screen showed. -/
theorem view_drawGame (hg : g.Contiguous) (h : OnScreen g game) (str : Mem) (fb : Framebuffer)
    (p : g.Pixel) :
    let cellSize := Game.cellSize (boardWidth g) (boardHeight g)
    g.view (drawGame g str game fb) p =
      if game.gameOver ∧ InText ((boardWidth g - 20 * 8).tdiv 2) ((boardHeight g).tdiv 2) 20 p then
        colorRed
      else if InText 10 (boardHeight g - 30) (digits game.score) p then colorWhite
      else if InCell cellSize game.food p then colorRed
      else if game.gameOver = false ∧ InCell cellSize (game.snake 0) p then colorYellow
      else if ∃ q ∈ game.body, InCell cellSize q p then colorGreen
      else g.view fb p := by
  intro cellSize
  have hsize : 8 ≤ cellSize := (Game.cellSize_bounds _ _).1
  have hwidth : boardWidth g = g.width.toNat := hg.width_toInt
  have hheight : boardHeight g = g.height.toNat := hg.height_toInt
  have hwlt := hg.width_lt
  have hhlt := hg.height_lt
  have hlong := h.sound.long
  obtain ⟨hscore, hscoreLt⟩ := h.score_bounds
  have hcell : ∀ (fb : Framebuffer) {q : Point} (color : UInt32), game.InGrid q →
      g.view (drawSnakeCell g cellSize fb q color) p =
        if InCell cellSize q p then color else g.view fb p := by
    intro fb q color hq
    rw [view_drawSnakeCell hg hsize h.gridW h.gridH fb hq, Layer.over, region]
    split
    · rfl
    · rfl
  have hhead : game.InGrid (game.snake 0) := h.inside.body _ (Game.head_mem_body (by omega))
  have hmessageX := Int.natAbs_tdiv_le_natAbs (boardWidth g - 20 * 8) 2
  have hmessageY := Int.natAbs_tdiv_le_natAbs (boardHeight g) 2
  rw [drawGame]
  dsimp only
  rw [show ((20 : Nat) : Int) = 20 from rfl]
  generalize hbodyFb : (List.range game.snakeLen).foldl
    (fun fb i => drawSnakeCell g cellSize fb (game.snake i) colorGreen) fb = bodyFb
  have hbody : g.view bodyFb p =
      if ∃ q ∈ game.body, InCell cellSize q p then colorGreen else g.view fb p := by
    rw [← hbodyFb]
    exact view_drawBody hg h fb p
  generalize hheadFb : (if game.gameOver = false ∧ 0 < game.snakeLen then
    drawSnakeCell g cellSize bodyFb (game.snake 0) colorYellow else bodyFb) = headFb
  have hheadView : g.view headFb p =
      if game.gameOver = false ∧ InCell cellSize (game.snake 0) p then colorYellow
      else g.view bodyFb p := by
    rw [← hheadFb]
    cases game.gameOver with
    | true => rfl
    | false =>
        rw [if_pos ⟨rfl, by omega⟩, hcell bodyFb colorYellow hhead]
        simp only [true_and]
  have hfood := hcell headFb colorRed h.inside.food
  generalize drawSnakeCell g cellSize headFb game.food colorRed = foodFb at hfood
  have hnumber : g.view (drawNumber g str foodFb 10 (boardHeight g - 30) game.score) p =
      if InText 10 (boardHeight g - 30) (digits game.score) p then colorWhite
      else g.view foodFb p := by
    have hshort := (digits_mono hscore (Int.le_refl _) hscoreLt).2
    rw [drawNumber, textLength_itoa hscore hscoreLt]
    exact view_drawBlocks hg foodFb colorWhite (by omega) (by omega) (by omega) p
  generalize drawNumber g str foodFb 10 (boardHeight g - 30) game.score = numberFb at hnumber
  rw [← hbody, ← hheadView, ← hfood, ← hnumber]
  cases game.gameOver with
  | false => rfl
  | true =>
      rw [if_pos rfl, view_drawBlocks hg numberFb colorRed (by decide) (by omega) (by omega)]
      simp only [true_and]

/-! ## Runs -/

namespace Board

/-- The game is on the screen, and the screen shows it. -/
structure Shown (g : Geometry) (s : Board) : Prop where
  onScreen : OnScreen g s.game
  view : ∀ p : g.Pixel, g.view s.fb p = picture s.game s.covered p

/-- A key changes nothing that is drawn. -/
theorem Shown.key {s : Board} (h : Shown g s) (scancode : Int) :
    Shown g { s with game := s.game.handleInput scancode } := by
  have hsound := h.onScreen.sound.handleInput scancode
  have hin := h.onScreen.inside
  obtain ⟨dirX, dirY, heq, _⟩ := Game.handleInput_eq h.onScreen.sound.unitDir scancode
  rw [heq] at hsound ⊢
  exact ⟨⟨hsound, ⟨hin.body, hin.food, hin.score⟩, h.onScreen.gridW, h.onScreen.gridH⟩, h.view⟩

/-- Drawn over a picture of the game before, the next position gives its picture. -/
theorem picture_draw (hg : g.Contiguous) (h : OnScreen g game) (h' : OnScreen g game')
    (hleads : Game.Leads game game') {covered : List Point} {fb : Framebuffer} (str : Mem)
    (hview : ∀ p : g.Pixel, g.view fb p = picture game covered p) (p : g.Pixel) :
    g.view (drawGame g str game' fb) p = picture game' (covered ++ game'.body) p := by
  have hdigits : digits game.score ≤ digits game'.score :=
    (digits_mono h.score_bounds.1 hleads.score h'.score_bounds.2).1
  rw [view_drawGame hg h' str fb p, picture, hview p, picture]
  generalize Game.cellSize (boardWidth g) (boardHeight g) = cellSize
  by_cases hmessage : game'.gameOver ∧
      InText ((boardWidth g - 20 * 8).tdiv 2) ((boardHeight g).tdiv 2) 20 p
  · rw [if_pos hmessage, if_pos hmessage]
  rw [if_neg hmessage, if_neg hmessage]
  by_cases hscore : InText 10 (boardHeight g - 30) (digits game'.score) p
  · rw [if_pos hscore, if_pos hscore]
  rw [if_neg hscore, if_neg hscore]
  by_cases hfood : InCell cellSize game'.food p
  · rw [if_pos hfood, if_pos hfood]
  rw [if_neg hfood, if_neg hfood]
  by_cases hhead : game'.gameOver = false ∧ InCell cellSize (game'.snake 0) p
  · rw [if_pos hhead, if_pos hhead]
  rw [if_neg hhead, if_neg hhead]
  by_cases hbody : ∃ q ∈ game'.body, InCell cellSize q p
  · obtain ⟨q, hq, hqp⟩ := hbody
    rw [if_pos ⟨q, hq, hqp⟩, if_pos ⟨q, List.mem_append_right _ hq, hqp⟩]
  -- nothing of the position before can be seen but the points that were covered
  have hnotMessage : ¬ (game.gameOver ∧
      InText ((boardWidth g - 20 * 8).tdiv 2) ((boardHeight g).tdiv 2) 20 p) :=
    fun hold => hmessage ⟨hleads.ended hold.1, hold.2⟩
  have hnotScore : ¬ InText 10 (boardHeight g - 30) (digits game.score) p := by
    rintro ⟨i, hi, hblock⟩
    rw [List.mem_range] at hi
    exact hscore ⟨i, List.mem_range.mpr (Nat.lt_of_lt_of_le hi hdigits), hblock⟩
  have hnotFood : ¬ InCell cellSize game.food p := by
    intro hold
    rcases hleads.food with hsame | hmem
    · exact hfood (hsame ▸ hold)
    · exact hbody ⟨game.food, hmem, hold⟩
  have hnotHead : ¬ (game.gameOver = false ∧ InCell cellSize (game.snake 0) p) :=
    fun hold => hbody ⟨game.snake 0, hleads.head hold.1, hold.2⟩
  have hcovered : (∃ q ∈ covered ++ game'.body, InCell cellSize q p) ↔
      ∃ q ∈ covered, InCell cellSize q p := by
    simp only [List.mem_append, or_and_right, exists_or, hbody, or_false]
  rw [if_neg hbody, if_neg hnotMessage, if_neg hnotScore, if_neg hnotFood, if_neg hnotHead]
  simp only [hcovered]

theorem Shown.step (hg : g.Contiguous) {s s' : Board} {e : Game.Event × Mem} (h : Shown g s)
    (hstep : s.step g e = .ok s') : Shown g s' := by
  obtain ⟨event, str⟩ := e
  cases event with
  | key scancode =>
      obtain rfl := Except.ok.inj hstep
      exact h.key scancode
  | move =>
      obtain ⟨game, hmove, hdraw⟩ := exists_of_bind_ok hstep
      obtain rfl := Except.ok.inj hdraw
      have hleads := Game.moveSnake_leads h.onScreen.sound h.onScreen.inside hmove
      have hnext : OnScreen g game :=
        ⟨h.onScreen.sound.moveSnake hmove, hleads.inside, hleads.gridW ▸ h.onScreen.gridW,
          hleads.gridH ▸ h.onScreen.gridH⟩
      exact ⟨hnext, picture_draw hg h.onScreen hnext hleads str h.view⟩

/-- `init_game` sets up the grid, and the food. -/
theorem initGame_eq (game : Game) (width height : Int) (ticks : UInt32) :
    ∃ rng food, game.initGame width height ticks =
      { game.middle (width.tdiv (Game.cellSize width height))
          (height.tdiv (Game.cellSize width height)) ticks with
        rngState := rng, food := food } := by
  rw [Game.initGame, Game.start, Game.generateFood]
  split
  · exact ⟨_, _, rfl⟩
  · split
    · exact ⟨_, _, rfl⟩
    · exact ⟨_, _, rfl⟩

/-- The first position, on a black screen. -/
theorem shown_start (hg : g.Contiguous) (hw : 80 ≤ g.width.toNat) (hh : 20 ≤ g.height.toNat)
    (game : Game) (ticks : UInt32) (str : Mem) (fb : Framebuffer) :
    Shown g (start g game ticks str fb) := by
  have hwidth : boardWidth g = g.width.toNat := hg.width_toInt
  have hheight : boardHeight g = g.height.toNat := hg.height_toInt
  have hwlt := hg.width_lt
  have hhlt := hg.height_lt
  have hsize := Game.cellSize_bounds (boardWidth g) (boardHeight g)
  have hsound : (game.initGame (boardWidth g) (boardHeight g) ticks).Sound :=
    Game.sound_initGame game (by omega) (by omega) ticks
  obtain ⟨rng, food, hinit⟩ := initGame_eq game (boardWidth g) (boardHeight g) ticks
  have hgoing : (game.initGame (boardWidth g) (boardHeight g) ticks).gameOver = false := by
    rw [hinit]
    rfl
  have hscreen : OnScreen g (game.initGame (boardWidth g) (boardHeight g) ticks) := by
    refine ⟨hsound, hsound.inside_of_going hgoing, ?_, ?_⟩
    · rw [hinit, ← hwidth]
      show Int.tdiv _ _ * _ ≤ _
      rw [Int.tdiv_eq_ediv_of_nonneg (by omega)]
      exact Int.ediv_mul_le _ (by omega)
    · rw [hinit, ← hheight]
      show Int.tdiv _ _ * _ ≤ _
      rw [Int.tdiv_eq_ediv_of_nonneg (by omega)]
      exact Int.ediv_mul_le _ (by omega)
  have hblack : ∀ p : g.Pixel, g.view (g.fillScreen fb colorBlack) p = colorBlack := by
    intro p
    rw [Geometry.fillScreen, Geometry.view_fillRect hg fb colorBlack
      (by rw [hg.width_toInt]; omega) (by rw [hg.height_toInt]; omega), Layer.over, region,
      if_pos]
    · rfl
    · rw [Geometry.InBlock, hg.width_toInt, hg.height_toInt]
      omega
  refine ⟨hscreen, fun p => ?_⟩
  refine (view_drawGame hg hscreen str _ p).trans ?_
  rw [hblack p]
  rfl

end Board

end Shows

/-- The game is started on a screen that is large enough, and any keys and moves follow.  As
long as the snake stays inside its array, each pixel is that of the picture of the game
with all points that the snake has ever covered. -/
theorem board_shows {g : Geometry} (hg : g.Contiguous) (hw : 80 ≤ g.width.toNat)
    (hh : 20 ≤ g.height.toNat) (game : Game) (ticks : UInt32) (str : Mem) (fb : Framebuffer)
    (events : List (Game.Event × Mem)) :
    Along (Board.step g) (fun s => ∀ p : g.Pixel, g.view s.fb p = picture s.game s.covered p)
      (Board.start g game ticks str fb) events :=
  (along_of_invariant (fun _ _ _ h hstep => Board.Shown.step hg h hstep)
    (Board.shown_start hg hw hh game ticks str fb) events).mono fun _ h => h.view

/-- A screen of 640 by 480 pixels. -/
theorem contiguous_640 : (graphicsInit 2560 640 480).Contiguous where
  pitch := by decide
  width_pos := by decide
  height_pos := by decide
  small := by decide

/-- Some moves on a screen of 640 by 480 pixels. -/
theorem board_shows_640 :
    let g := graphicsInit 2560 640 480
    Along (Board.step g) (fun s => ∀ p : g.Pixel, g.view s.fb p = picture s.game s.covered p)
      (Board.start g ⟨0, 0, 0, fun _ => ⟨0, 0⟩, 3, 1, 0, ⟨0, 0⟩, 0, false⟩ 7 (fun _ => 0)
        fun _ => 5)
      [(.move, fun _ => 0), (.key 0x48, fun _ => 0), (.move, fun _ => 9)] :=
  board_shows contiguous_640 (by decide) (by decide) _ 7 _ _ _

end FalastinOS.Games
