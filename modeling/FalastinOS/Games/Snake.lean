/-
  Games/Snake.lean --- the rules of `snake.c`.

  The snake is an array of points, head first, of which the first `snake_len` are in
  use.  A move shifts the points by one place and puts the new head in front; a move onto
  the food makes the snake longer by one before it shifts, and new food is looked for.
  The array has 100 points and its length is not looked at: a store behind the last one
  is a fault here.

  `snakeInvariant_along` says what holds in every game, whatever keys are pressed and
  whatever the random numbers are, and `moveSnake_stays_iff` which move leaves the array.
-/
import FalastinOS.Foundation.Execution
import Mathlib.Data.List.Chain
import Mathlib.Data.List.Nodup

set_option autoImplicit false

namespace FalastinOS.Games

open FalastinOS.Foundation

/-- `Point`. -/
structure Point where
  x : Int
  y : Int
  deriving DecidableEq

/-- A store behind the end of `snake`. -/
inductive Overrun where
  | segment (i : Nat)
  deriving DecidableEq

/-- The variables of `snake.c` that the rules use. -/
structure Game where
  /-- `rng_state` -/
  rngState : UInt32
  gridW : Int
  gridH : Int
  snake : Nat → Point
  snakeLen : Nat
  dirX : Int
  dirY : Int
  /-- `food_x` and `food_y` -/
  food : Point
  score : Int
  gameOver : Bool

namespace Game

/-! ## `generate_food` -/

/-- `my_rand()`: the next state, and what is returned. -/
def myRand (rngState : UInt32) : UInt32 × Int :=
  let next := rngState * 1103515245 + 12345
  (next, (next / 65536 % 32768).toNat)

/-- The loop that looks for a segment at a point. -/
def collides (g : Game) (p : Point) : Bool := (List.range g.snakeLen).any fun i => g.snake i == p

/-- The loop over at most `n` random points; no point if all of them collide. -/
def randomLoop (g : Game) : Nat → UInt32 → UInt32 × Option Point
  | 0, rng => (rng, none)
  | n + 1, rng =>
      let fx := myRand rng
      let fy := myRand fx.1
      let p := ⟨fx.2 % g.gridW, fy.2 % g.gridH⟩
      if g.collides p then randomLoop g n fy.1 else (fy.1, some p)

/-- The points of the grid, row by row. -/
def gridPoints (g : Game) : List Point :=
  (List.range g.gridH.toNat).flatMap fun y : Nat =>
    (List.range g.gridW.toNat).map fun x : Nat => ⟨x, y⟩

/-- `generate_food()`. -/
def generateFood (g : Game) : Game :=
  match g.randomLoop 1000 g.rngState with
  | (rng, some p) => { g with rngState := rng, food := p }
  | (rng, none) =>
      match g.gridPoints.find? fun p => !g.collides p with
      | some p => { g with rngState := rng, food := p }
      | none => { g with rngState := rng }

/-! ## `init_game` -/

/-- The snake in the middle of a grid; the seed is what `timer_ticks` returns. -/
def middle (g : Game) (gridW gridH : Int) (ticks : UInt32) : Game where
  rngState := ticks
  gridW := gridW
  gridH := gridH
  snake := fun i =>
    if i = 0 then ⟨gridW.tdiv 2, gridH.tdiv 2⟩
    else if i = 1 then ⟨gridW.tdiv 2 - 1, gridH.tdiv 2⟩
    else if i = 2 then ⟨gridW.tdiv 2 - 2, gridH.tdiv 2⟩
    else g.snake i
  snakeLen := 3
  dirX := 1
  dirY := 0
  food := g.food
  score := 0
  gameOver := false

/-- The part of `init_game` that comes after the size of the grid is known. -/
def start (g : Game) (gridW gridH : Int) (ticks : UInt32) : Game :=
  (g.middle gridW gridH ticks).generateFood

/-- `cell_size`. -/
def cellSize (width height : Int) : Int :=
  let size := if width < height then width.tdiv 40 else height.tdiv 30
  let size := if size < 8 then 8 else size
  if size > 20 then 20 else size

/-- `init_game()`, for the size of the screen. -/
def initGame (g : Game) (width height : Int) (ticks : UInt32) : Game :=
  g.start (width.tdiv (cellSize width height)) (height.tdiv (cellSize width height)) ticks

/-! ## `move_snake` and `handle_input` -/

/-- `snake[i] = p`. -/
def setSegment (snake : Nat → Point) (i : Nat) (p : Point) : Except Overrun (Nat → Point) :=
  if i < 100 then .ok (Function.update snake i p) else .error (.segment i)

/-- `for (int i = n; i > 0; i--) snake[i] = snake[i-1]`. -/
def shiftLoop : Nat → (Nat → Point) → Except Overrun (Nat → Point)
  | 0, snake => .ok snake
  | i + 1, snake => do
      let snake ← setSegment snake (i + 1) (snake i)
      shiftLoop i snake

/-- The loop for the collision with itself. -/
def selfCollision (g : Game) : Game :=
  if (List.range' 1 (g.snakeLen - 1)).any fun i => g.snake 0 == g.snake i then
    { g with gameOver := true }
  else g

/-- `new_x` and `new_y`. -/
def next (g : Game) : Point := ⟨(g.snake 0).x + g.dirX, (g.snake 0).y + g.dirY⟩

/-- The point is in the grid. -/
def InGrid (g : Game) (p : Point) : Prop := 0 ≤ p.x ∧ p.x < g.gridW ∧ 0 ≤ p.y ∧ p.y < g.gridH

/-- `move_snake()`. -/
def moveSnake (g : Game) : Except Overrun Game :=
  if g.gameOver then .ok g
  else if g.next.x < 0 ∨ g.next.x ≥ g.gridW ∨ g.next.y < 0 ∨ g.next.y ≥ g.gridH then
    .ok { g with gameOver := true }
  else if g.next = g.food then do
    let g' := { g with snakeLen := g.snakeLen + 1, score := g.score + 1 }
    let snake ← shiftLoop (g'.snakeLen - 1) g'.snake
    let snake ← setSegment snake 0 g.next
    .ok (generateFood { g' with snake := snake }).selfCollision
  else do
    let snake ← shiftLoop (g.snakeLen - 1) g.snake
    let snake ← setSegment snake 0 g.next
    .ok (selfCollision { g with snake := snake })

/-- `handle_input()` with a key waiting.  Escape ends the game mode and changes none of these
variables. -/
def handleInput (g : Game) (scancode : Int) : Game :=
  if scancode = 0x48 then if g.dirY = 0 then { g with dirX := 0, dirY := -1 } else g
  else if scancode = 0x50 then if g.dirY = 0 then { g with dirX := 0, dirY := 1 } else g
  else if scancode = 0x4B then if g.dirX = 0 then { g with dirX := -1, dirY := 0 } else g
  else if scancode = 0x4D then if g.dirX = 0 then { g with dirX := 1, dirY := 0 } else g
  else g

/-- What `snake_run` does: a key is handled, or the snake moves. -/
inductive Event where
  | key (scancode : Int)
  | move

def step (g : Game) : Event → Except Overrun Game
  | .key scancode => .ok (g.handleInput scancode)
  | .move => g.moveSnake

/-! ## The invariant -/

/-- The segments in use, head first. -/
def body (g : Game) : List Point := (List.range g.snakeLen).map g.snake

/-- One above, below, left or right of the other. -/
def Neighbours (p q : Point) : Prop := (p.x - q.x).natAbs + (p.y - q.y).natAbs = 1

structure SnakeInvariant (g : Game) : Prop where
  inGrid : ∀ p ∈ g.body, g.InGrid p
  distinct : g.body.Nodup
  neighbours : g.body.IsChain Neighbours
  score : g.score = g.snakeLen - 3
  foodInGrid : g.InGrid g.food
  /-- the food is on the snake only if the snake is everywhere -/
  foodFree : g.food ∈ g.body → ∀ p, g.InGrid p → p ∈ g.body

/-- The game goes on, inside the array. -/
def Playing (g : Game) : Prop := g.snakeLen ≤ 100 ∧ g.gameOver = false

variable {g g' : Game}

/-! ## Food -/

theorem collides_iff (g : Game) (p : Point) : g.collides p = true ↔ p ∈ g.body := by
  rw [collides, body, List.any_eq_true, List.mem_map]
  simp only [beq_iff_eq]

/-- The points that are tried in the loops are those of the grid. -/
theorem mem_gridPoints (g : Game) (p : Point) : p ∈ g.gridPoints ↔ g.InGrid p := by
  rw [gridPoints, List.mem_flatMap]
  constructor
  · rintro ⟨y, hy, hrow⟩
    obtain ⟨x, hx, rfl⟩ := List.mem_map.mp hrow
    rw [List.mem_range] at hx hy
    exact ⟨by simp only; omega, by simp only; omega, by simp only; omega, by simp only; omega⟩
  · rintro ⟨hleft, hright, htop, hbottom⟩
    refine ⟨p.y.toNat, List.mem_range.mpr (by omega), List.mem_map.mpr ⟨p.x.toNat, ?_, ?_⟩⟩
    · exact List.mem_range.mpr (by omega)
    · rw [Int.toNat_of_nonneg hleft, Int.toNat_of_nonneg htop]

theorem randomLoop_some (hw : 0 < g.gridW) (hh : 0 < g.gridH) {n : Nat} {rng rng' : UInt32}
    {p : Point} (h : g.randomLoop n rng = (rng', some p)) : g.InGrid p ∧ p ∉ g.body := by
  induction n generalizing rng with
  | zero => exact nomatch (Prod.mk.inj h).2
  | succ n ih =>
      simp only [randomLoop] at h
      split at h
      · exact ih h
      · rename_i hfree
        obtain rfl := Option.some.inj (Prod.mk.inj h).2
        rw [collides_iff] at hfree
        exact ⟨⟨Int.emod_nonneg _ (Int.ne_of_gt hw), Int.emod_lt_of_pos _ hw,
          Int.emod_nonneg _ (Int.ne_of_gt hh), Int.emod_lt_of_pos _ hh⟩, hfree⟩

/-- The new food is on a free point of the grid; only if there is none, it stays where it
was. -/
theorem generateFood_eq (hw : 0 < g.gridW) (hh : 0 < g.gridH) :
    ∃ rng food, g.generateFood = { g with rngState := rng, food := food } ∧
      ((g.InGrid food ∧ food ∉ g.body) ∨ (food = g.food ∧ ∀ p, g.InGrid p → p ∈ g.body)) := by
  rw [generateFood]
  split
  · rename_i rng p hrandom
    exact ⟨rng, p, rfl, .inl (randomLoop_some hw hh hrandom)⟩
  · rename_i rng hrandom
    split
    · rename_i p hfound
      have hfree := List.find?_some hfound
      rw [Bool.not_eq_true', Bool.eq_false_iff, ne_eq, collides_iff] at hfree
      exact ⟨rng, p, rfl, .inl ⟨(g.mem_gridPoints p).mp (List.mem_of_find?_eq_some hfound), hfree⟩⟩
    · rename_i hnone
      refine ⟨rng, g.food, rfl, .inr ⟨rfl, fun p hp => ?_⟩⟩
      have htaken := List.find?_eq_none.mp hnone p ((g.mem_gridPoints p).mpr hp)
      rw [Bool.not_eq_true', Bool.not_eq_false, collides_iff] at htaken
      exact htaken

/-! ## Moving the segments -/

/-- The segments after the loop over the first `n` of them and the new head. -/
def shifted (snake : Nat → Point) (n : Nat) (p : Point) : Nat → Point :=
  Function.update (fun j => if 1 ≤ j ∧ j ≤ n then snake (j - 1) else snake j) 0 p

theorem shiftLoop_of_lt {n : Nat} (hn : n < 100) (snake : Nat → Point) :
    shiftLoop n snake = .ok fun j => if 1 ≤ j ∧ j ≤ n then snake (j - 1) else snake j := by
  induction n generalizing snake with
  | zero =>
      rw [shiftLoop]
      congr 1
      funext j
      rw [if_neg (by omega)]
  | succ n ih =>
      rw [shiftLoop, setSegment, if_pos hn]
      refine (ih (by omega) _).trans ?_
      congr 1
      funext j
      by_cases hlast : j = n + 1
      · rw [if_neg (by omega), if_pos (by omega), hlast, Function.update_self]
        rfl
      · rw [Function.update_of_ne hlast]
        by_cases hmoved : 1 ≤ j ∧ j ≤ n
        · rw [if_pos hmoved, if_pos (by omega), Function.update_of_ne (by omega)]
        · rw [if_neg hmoved, if_neg (by omega)]

theorem shiftLoop_of_le {n : Nat} (hn : 100 ≤ n) (snake : Nat → Point) :
    shiftLoop n snake = .error (.segment n) := by
  cases n with
  | zero => exact absurd hn (by decide)
  | succ n =>
      rw [shiftLoop, setSegment, if_neg (by omega)]
      rfl

/-- The new head stands before the first `n` segments. -/
theorem map_shifted (snake : Nat → Point) (n : Nat) (p : Point) :
    (List.range (n + 1)).map (shifted snake n p) = p :: (List.range n).map snake := by
  rw [List.range_succ_eq_map, List.map_cons, List.map_map]
  congr 1
  apply List.map_congr_left
  intro j hj
  rw [List.mem_range] at hj
  rw [Function.comp_apply, shifted, Function.update_of_ne (Nat.succ_ne_zero j), if_pos (by omega),
    Nat.succ_sub_one]

/-! ## One move -/

/-- The game after the snake has grown onto the next point. -/
def grown (g : Game) : Game :=
  { g with
    snakeLen := g.snakeLen + 1
    score := g.score + 1
    snake := shifted g.snake g.snakeLen g.next }

theorem next_outside (h : g.InGrid g.next) :
    ¬ (g.next.x < 0 ∨ g.next.x ≥ g.gridW ∨ g.next.y < 0 ∨ g.next.y ≥ g.gridH) := by
  obtain ⟨hleft, hright, htop, hbottom⟩ := h
  omega

theorem moveSnake_wall (hplay : g.gameOver = false) (h : ¬ g.InGrid g.next) :
    g.moveSnake = .ok { g with gameOver := true } := by
  rw [moveSnake, hplay, if_neg Bool.false_ne_true, if_pos]
  rw [InGrid] at h
  omega

theorem moveSnake_eat (hplay : g.gameOver = false) (h : g.InGrid g.next) (hfood : g.next = g.food)
    (hroom : g.snakeLen < 100) :
    g.moveSnake = .ok g.grown.generateFood.selfCollision := by
  rw [moveSnake, hplay, if_neg Bool.false_ne_true, if_neg (next_outside h), if_pos hfood]
  simp only [Nat.add_sub_cancel]
  rw [shiftLoop_of_lt hroom, ok_bind, setSegment, if_pos (by decide), ok_bind, grown, hplay]
  rfl

theorem moveSnake_overrun (hplay : g.gameOver = false) (h : g.InGrid g.next)
    (hfood : g.next = g.food) (hfull : 100 ≤ g.snakeLen) :
    g.moveSnake = .error (.segment g.snakeLen) := by
  rw [moveSnake, hplay, if_neg Bool.false_ne_true, if_neg (next_outside h), if_pos hfood]
  simp only [Nat.add_sub_cancel]
  rw [shiftLoop_of_le hfull]
  rfl

theorem moveSnake_advance (hplay : g.gameOver = false) (h : g.InGrid g.next)
    (hfood : g.next ≠ g.food) (hlen : g.snakeLen ≤ 100) :
    g.moveSnake = .ok (selfCollision { g with
      snake := shifted g.snake (g.snakeLen - 1) g.next }) := by
  rw [moveSnake, hplay, if_neg Bool.false_ne_true, if_neg (next_outside h), if_neg hfood,
    shiftLoop_of_lt (by omega)]
  rfl

/-- The game is over if the head is on another segment; otherwise it is not. -/
theorem selfCollision_cases {p : Point} {rest : List Point} (h : g.body = p :: rest) :
    g.selfCollision = { g with gameOver := true } ∨ (g.selfCollision = g ∧ p ∉ rest) := by
  rw [selfCollision]
  split
  · exact .inl rfl
  · rename_i hnone
    refine .inr ⟨rfl, fun hmem => hnone ?_⟩
    cases hlen : g.snakeLen with
    | zero =>
        rw [body, hlen] at h
        exact nomatch h
    | succ n =>
        rw [body, hlen, List.range_succ_eq_map, List.map_cons, List.map_map] at h
        obtain ⟨rfl, rfl⟩ := List.cons.inj h
        obtain ⟨j, hj, hsame⟩ := List.mem_map.mp hmem
        rw [List.mem_range] at hj
        rw [List.any_eq_true]
        refine ⟨j + 1, ?_, ?_⟩
        · rw [List.mem_range'_1]
          omega
        · exact beq_iff_eq.mpr hsame.symm

/-! ## What a move keeps -/

theorem length_body (g : Game) : g.body.length = g.snakeLen := by
  rw [body, List.length_map, List.length_range]

theorem head_body (hlen : 0 < g.snakeLen) : g.body.head? = some (g.snake 0) := by
  obtain ⟨n, hn⟩ := Nat.exists_eq_succ_of_ne_zero (Nat.ne_of_gt hlen)
  rw [body, hn, List.range_succ_eq_map]
  rfl

/-- The first `n` segments. -/
theorem dropLast_body (g : Game) : g.body.dropLast = (List.range (g.snakeLen - 1)).map g.snake := by
  rw [body, ← List.map_dropLast]
  cases g.snakeLen with
  | zero => rfl
  | succ n => rw [List.range_succ, List.dropLast_concat, Nat.add_sub_cancel]

theorem body_grown : g.grown.body = g.next :: g.body := map_shifted g.snake g.snakeLen g.next

theorem body_advance (hlen : 0 < g.snakeLen) :
    body { g with snake := shifted g.snake (g.snakeLen - 1) g.next } =
      g.next :: g.body.dropLast := by
  obtain ⟨n, hn⟩ := Nat.exists_eq_succ_of_ne_zero (Nat.ne_of_gt hlen)
  rw [dropLast_body, body, hn, Nat.succ_sub_one]
  exact map_shifted g.snake n g.next

/-- The direction is one of the four. -/
def UnitDir (g : Game) : Prop := g.dirX.natAbs + g.dirY.natAbs = 1

/-- The next point is a neighbour of the head. -/
theorem neighbours_next (h : g.UnitDir) : Neighbours g.next (g.snake 0) := by
  rw [UnitDir] at h
  rw [Neighbours, next]
  simp only
  omega

/-- Points of the grid, one after the other. -/
structure Path (g : Game) (body : List Point) : Prop where
  inGrid : ∀ p ∈ body, g.InGrid p
  distinct : body.Nodup
  neighbours : body.IsChain Neighbours

/-- A new head before a first part of the snake that it is not on. -/
theorem Path.cons {rest : List Point} (h : g.Path g.body) (hunit : g.UnitDir)
    (hlen : 0 < g.snakeLen) (hnext : g.InGrid g.next) (hrest : rest <+: g.body)
    (hfree : g.next ∉ rest) : g.Path (g.next :: rest) := by
  have ⟨tail, htail⟩ := hrest
  have hchain : rest.IsChain Neighbours := (htail ▸ h.neighbours).left_of_append
  refine ⟨List.forall_mem_cons.mpr ⟨hnext, fun p hp => h.inGrid p (hrest.subset hp)⟩,
    List.nodup_cons.mpr ⟨hfree, h.distinct.sublist hrest.sublist⟩,
    hchain.cons fun q hq => ?_⟩
  have hhead : g.body.head? = some q := by
    rw [← htail, List.head?_append, hq]
    rfl
  rw [head_body hlen] at hhead
  exact Option.some.inj hhead ▸ neighbours_next hunit

theorem SnakeInvariant.path (h : g.SnakeInvariant) : g.Path g.body :=
  ⟨h.inGrid, h.distinct, h.neighbours⟩

/-- A snake that was everywhere and moved on without colliding has its head where its tail
was, and is everywhere again. -/
theorem everywhere_of_advance (hlen : 0 < g.snakeLen) (hnext : g.InGrid g.next)
    (hfree : g.next ∉ g.body.dropLast) (hall : ∀ p, g.InGrid p → p ∈ g.body) (p : Point)
    (hp : g.InGrid p) : p ∈ g.next :: g.body.dropLast := by
  have hne : g.body ≠ [] := by
    rw [← List.length_pos_iff, length_body]
    exact hlen
  have hsplit := List.dropLast_append_getLast hne
  have htail : ∀ q, g.InGrid q → q ∈ g.body.dropLast ∨ q = g.body.getLast hne := by
    intro q hq
    have hmem := hall q hq
    rw [← hsplit, List.mem_append, List.mem_singleton] at hmem
    exact hmem
  rcases htail p hp with hmem | hlast
  · exact List.mem_cons_of_mem _ hmem
  · rw [hlast, ← (htail g.next hnext).resolve_left hfree]
    exact List.mem_cons_self

/-- The snake moves on. -/
theorem SnakeInvariant.advance (h : g.SnakeInvariant) (hunit : g.UnitDir) (hlen : 0 < g.snakeLen)
    (hnext : g.InGrid g.next) (hfood : g.next ≠ g.food) (hfree : g.next ∉ g.body.dropLast) :
    SnakeInvariant { g with snake := shifted g.snake (g.snakeLen - 1) g.next } := by
  have hbody := body_advance hlen
  have hpath := h.path.cons hunit hlen hnext (List.dropLast_prefix _) hfree
  rw [← hbody] at hpath
  refine ⟨hpath.inGrid, hpath.distinct, hpath.neighbours, h.score, h.foodInGrid, fun hon => ?_⟩
  rw [hbody] at hon ⊢
  have hold : g.food ∈ g.body.dropLast :=
    (List.mem_cons.mp hon).resolve_left fun heq => hfood heq.symm
  exact everywhere_of_advance hlen hnext hfree (h.foodFree (List.dropLast_subset _ hold))

/-- The snake grows onto the food, and there is new food. -/
theorem SnakeInvariant.eat (h : g.SnakeInvariant) (hunit : g.UnitDir) (hlen : 0 < g.snakeLen)
    (hnext : g.InGrid g.next) (hfree : g.next ∉ g.body) {rng : UInt32} {food : Point}
    (hfood : (g.InGrid food ∧ food ∉ g.grown.body) ∨
      (food = g.food ∧ ∀ p, g.InGrid p → p ∈ g.grown.body)) :
    SnakeInvariant { g.grown with rngState := rng, food := food } := by
  have hpath := h.path.cons hunit hlen hnext (List.prefix_refl _) hfree
  rw [← body_grown] at hpath
  refine ⟨hpath.inGrid, hpath.distinct, hpath.neighbours, ?_, ?_, fun hon => ?_⟩
  · simp only [grown]
    rw [h.score]
    omega
  · rcases hfood with ⟨hin, _⟩ | ⟨rfl, _⟩
    · exact hin
    · exact h.foodInGrid
  · rcases hfood with ⟨_, hoff⟩ | ⟨_, hall⟩
    · exact absurd hon hoff
    · exact hall

/-! ## Runs -/

/-- What holds also when the game is over, and what holds until then. -/
structure Sound (g : Game) : Prop where
  width : 0 < g.gridW
  height : 0 < g.gridH
  long : 3 ≤ g.snakeLen
  short : g.snakeLen ≤ 100
  unitDir : g.UnitDir
  going : g.gameOver = false → g.SnakeInvariant

theorem Sound.over (h : Sound g) : Sound { g with gameOver := true } :=
  ⟨h.width, h.height, h.long, h.short, h.unitDir, fun hgoing => nomatch hgoing⟩

/-- The collision with itself ends the game, or the head is on no other segment. -/
theorem Sound.selfCollision {p : Point} {rest : List Point} (hbody : g.body = p :: rest)
    (hw : 0 < g.gridW) (hh : 0 < g.gridH) (hlong : 3 ≤ g.snakeLen) (hshort : g.snakeLen ≤ 100)
    (hunit : g.UnitDir) (h : p ∉ rest → g.SnakeInvariant) : Sound g.selfCollision := by
  obtain hover | ⟨hsame, hfree⟩ := selfCollision_cases hbody
  · rw [hover]
    exact ⟨hw, hh, hlong, hshort, hunit, fun hgoing => nomatch hgoing⟩
  · rw [hsame]
    exact ⟨hw, hh, hlong, hshort, hunit, fun _ => h hfree⟩

theorem Sound.moveSnake (h : Sound g) (hmove : g.moveSnake = .ok g') : Sound g' := by
  have hlong := h.long
  cases hplay : g.gameOver with
  | true =>
      rw [Game.moveSnake, if_pos hplay] at hmove
      exact Except.ok.inj hmove ▸ h
  | false =>
      by_cases hnext : g.InGrid g.next
      · have hinv := h.going hplay
        by_cases hfood : g.next = g.food
        · by_cases hroom : g.snakeLen < 100
          · rw [moveSnake_eat hplay hnext hfood hroom] at hmove
            obtain ⟨rng, food, heq, hcases⟩ := generateFood_eq (g := g.grown) h.width h.height
            rw [heq] at hmove
            refine Except.ok.inj hmove ▸ Sound.selfCollision body_grown h.width h.height
              (Nat.le_succ_of_le hlong) hroom h.unitDir fun hfree => ?_
            exact hinv.eat h.unitDir (by omega) hnext hfree hcases
          · rw [moveSnake_overrun hplay hnext hfood (by omega)] at hmove
            exact nomatch hmove
        · rw [moveSnake_advance hplay hnext hfood h.short] at hmove
          refine Except.ok.inj hmove ▸ Sound.selfCollision (body_advance (by omega)) h.width
            h.height hlong h.short h.unitDir fun hfree => ?_
          exact hinv.advance h.unitDir (by omega) hnext hfood hfree
      · rw [moveSnake_wall hplay hnext] at hmove
        exact Except.ok.inj hmove ▸ h.over

/-- A key changes only the direction. -/
theorem handleInput_eq (h : g.UnitDir) (scancode : Int) :
    ∃ dirX dirY, g.handleInput scancode = { g with dirX := dirX, dirY := dirY } ∧
      dirX.natAbs + dirY.natAbs = 1 := by
  have hsame : ∃ dirX dirY, g = { g with dirX := dirX, dirY := dirY } ∧
      dirX.natAbs + dirY.natAbs = 1 := ⟨g.dirX, g.dirY, rfl, h⟩
  unfold handleInput
  split
  · split
    · exact ⟨0, -1, rfl, rfl⟩
    · exact hsame
  · split
    · split
      · exact ⟨0, 1, rfl, rfl⟩
      · exact hsame
    · split
      · split
        · exact ⟨-1, 0, rfl, rfl⟩
        · exact hsame
      · split
        · split
          · exact ⟨1, 0, rfl, rfl⟩
          · exact hsame
        · exact hsame

theorem Sound.handleInput (h : Sound g) (scancode : Int) : Sound (g.handleInput scancode) := by
  obtain ⟨dirX, dirY, heq, hunit⟩ := handleInput_eq h.unitDir scancode
  rw [heq]
  refine ⟨h.width, h.height, h.long, h.short, hunit, fun hgoing => ?_⟩
  have hinv := h.going hgoing
  exact ⟨hinv.inGrid, hinv.distinct, hinv.neighbours, hinv.score, hinv.foodInGrid, hinv.foodFree⟩

theorem Sound.step {e : Event} (h : Sound g) (hstep : g.step e = .ok g') : Sound g' := by
  cases e with
  | key scancode => exact Except.ok.inj hstep ▸ h.handleInput scancode
  | move => exact h.moveSnake hstep

/-- There is room for the snake in the middle of the grid, and for food before it. -/
theorem path_middle (g : Game) {gridW gridH : Int} (hw : 4 ≤ gridW) (hh : 1 ≤ gridH)
    (ticks : UInt32) :
    (g.middle gridW gridH ticks).Path (g.middle gridW gridH ticks).body ∧
      ∃ p, (g.middle gridW gridH ticks).InGrid p ∧ p ∉ (g.middle gridW gridH ticks).body := by
  have hx : gridW.tdiv 2 = gridW / 2 := Int.tdiv_eq_ediv_of_nonneg (by omega)
  have hy : gridH.tdiv 2 = gridH / 2 := Int.tdiv_eq_ediv_of_nonneg (by omega)
  have hbody : (g.middle gridW gridH ticks).body =
      [⟨gridW.tdiv 2, gridH.tdiv 2⟩, ⟨gridW.tdiv 2 - 1, gridH.tdiv 2⟩,
        ⟨gridW.tdiv 2 - 2, gridH.tdiv 2⟩] := rfl
  rw [hbody, hx, hy]
  refine ⟨⟨?_, ?_, ?_⟩, ⟨gridW / 2 + 1, gridH / 2⟩, ?_, ?_⟩
  · simp only [List.forall_mem_cons, InGrid, middle]
    refine ⟨by omega, by omega, by omega, fun _ h => absurd h List.not_mem_nil⟩
  · simp only [List.nodup_cons, List.mem_cons, List.not_mem_nil, Point.mk.injEq, or_false]
    refine ⟨by omega, by omega, fun h => h, List.nodup_nil⟩
  · simp only [List.isChain_cons_cons, Neighbours]
    exact ⟨by omega, by omega, .singleton _⟩
  · simp only [InGrid, middle]
    omega
  · simp only [List.mem_cons, List.not_mem_nil, Point.mk.injEq, or_false]
    omega

theorem sound_start (g : Game) {gridW gridH : Int} (hw : 4 ≤ gridW) (hh : 1 ≤ gridH)
    (ticks : UInt32) : Sound (g.start gridW gridH ticks) := by
  obtain ⟨hpath, p, hin, hfree⟩ := g.path_middle hw hh ticks
  have hwidth : 0 < gridW := by omega
  obtain ⟨rng, food, heq, hcases⟩ :=
    generateFood_eq (g := g.middle gridW gridH ticks) hwidth hh
  obtain ⟨hfoodIn, hfoodOff⟩ := hcases.resolve_right fun hfull => hfree (hfull.2 p hin)
  rw [start, heq]
  refine ⟨hwidth, hh, Nat.le_refl 3, Nat.le_add_right 3 97, rfl, fun _ => ?_⟩
  exact ⟨hpath.inGrid, hpath.distinct, hpath.neighbours, rfl, hfoodIn,
    fun hon => absurd hon hfoodOff⟩

theorem cellSize_bounds (width height : Int) :
    8 ≤ cellSize width height ∧ cellSize width height ≤ 20 := by
  unfold cellSize
  dsimp only
  split
  · split
    · exact ⟨by omega, by omega⟩
    · exact ⟨by omega, by omega⟩
  · split
    · exact ⟨by omega, by omega⟩
    · exact ⟨by omega, by omega⟩

/-- A side of the screen has room for as many cells as it has for the largest. -/
theorem le_tdiv_cellSize {n side width height : Int} (hn : 0 ≤ n) (h : n * 20 ≤ side) :
    n ≤ side.tdiv (cellSize width height) := by
  obtain ⟨hlow, hhigh⟩ := cellSize_bounds width height
  have hside : 0 ≤ side := by omega
  rw [Int.tdiv_eq_ediv_of_nonneg hside]
  refine Int.le_ediv_of_mul_le (by omega) (Int.le_trans ?_ h)
  exact Int.mul_le_mul_of_nonneg_left hhigh hn

/-- A screen of 80 by 20 pixels is large enough for a game. -/
theorem sound_initGame (g : Game) {width height : Int} (hwidth : 80 ≤ width)
    (hheight : 20 ≤ height) (ticks : UInt32) : Sound (g.initGame width height ticks) :=
  sound_start g (le_tdiv_cellSize (by decide) (by omega)) (le_tdiv_cellSize (by decide) (by omega))
    ticks

/-- For every grid, every seed and every sequence of keys and moves, the invariant holds as
long as the game goes on inside the array. -/
theorem snakeInvariant_along (g : Game) {gridW gridH : Int} (hw : 4 ≤ gridW) (hh : 1 ≤ gridH)
    (ticks : UInt32) (events : List Event) :
    Along step (fun g => g.Playing → g.SnakeInvariant) (g.start gridW gridH ticks) events :=
  (along_of_invariant (fun _ _ _ h hstep => Sound.step h hstep) (sound_start g hw hh ticks)
    events).mono fun _ h hplaying => h.going hplaying.2

theorem snakeInvariant_along_smallest :
    (4 : Int) ≤ 4 ∧ (1 : Int) ≤ 1 ∧
      Along step (fun g => g.Playing → g.SnakeInvariant)
        (start ⟨0, 0, 0, fun _ => ⟨0, 0⟩, 3, 1, 0, ⟨0, 0⟩, 0, false⟩ 4 1 7)
        [.move, .key 0x48, .move] :=
  ⟨by decide, by decide, snakeInvariant_along _ (by decide) (by decide) 7 _⟩

/-! ## The end of the array -/

/-- The next move makes a snake grow that fills the array. -/
def Outgrows (g : Game) : Prop := g.gameOver = false ∧ g.snakeLen = 100 ∧ g.next = g.food

theorem snakeLen_selfCollision (g : Game) : g.selfCollision.snakeLen = g.snakeLen := by
  rw [selfCollision]
  split
  · rfl
  · rfl

/-- One move stays inside the array exactly if it does not make a snake of 100 segments
grow. -/
theorem moveSnake_stays_iff (g : Game) (h : g.SnakeInvariant) (hlen : g.snakeLen ≤ 100) :
    (∃ g', g.moveSnake = .ok g' ∧ g'.snakeLen ≤ 100) ↔ ¬ g.Outgrows := by
  constructor
  · rintro ⟨g', hmove, _⟩ ⟨hplay, hfull, hfood⟩
    have hin : g.InGrid g.next := hfood ▸ h.foodInGrid
    rw [moveSnake_overrun hplay hin hfood (Nat.le_of_eq hfull.symm)] at hmove
    exact nomatch hmove
  · intro hstays
    cases hplay : g.gameOver with
    | true => exact ⟨g, if_pos hplay, hlen⟩
    | false =>
        by_cases hnext : g.InGrid g.next
        · by_cases hfood : g.next = g.food
          · have hroom : g.snakeLen < 100 :=
              Nat.lt_of_le_of_ne hlen fun hfull => hstays ⟨hplay, hfull, hfood⟩
            refine ⟨_, moveSnake_eat hplay hnext hfood hroom, ?_⟩
            obtain ⟨hleft, hright, htop, hbottom⟩ := hnext
            obtain ⟨rng, food, heq, _⟩ := generateFood_eq (g := g.grown)
              (Int.lt_of_le_of_lt hleft hright) (Int.lt_of_le_of_lt htop hbottom)
            rw [heq, snakeLen_selfCollision]
            exact hroom
          · refine ⟨_, moveSnake_advance hplay hnext hfood hlen, ?_⟩
            rw [snakeLen_selfCollision]
            exact hlen
        · exact ⟨_, moveSnake_wall hplay hnext, hlen⟩

/-- A snake of 100 segments in the top row of a grid of 128 by 72, which a screen of 2560 by
1440 has, with food before its head. -/
def longSnake : Game where
  rngState := 0
  gridW := 128
  gridH := 72
  snake := fun i => ⟨99 - i, 0⟩
  snakeLen := 100
  dirX := 1
  dirY := 0
  food := ⟨100, 0⟩
  score := 97
  gameOver := false

theorem snakeInvariant_longSnake : longSnake.SnakeInvariant := by
  have hoff : longSnake.food ∉ longSnake.body := by decide +kernel
  refine ⟨?_, List.nodup_range.map fun i j hsame => ?_, ?_, by decide, ?_,
    fun hon => absurd hon hoff⟩
  · unfold InGrid
    decide +kernel
  · have hx : (99 : Int) - i = 99 - j := congrArg Point.x hsame
    omega
  · unfold Neighbours
    decide +kernel
  · unfold InGrid
    decide

/-- The same snake turns down, away from the food. -/
theorem moveSnake_stays_iff_turned :
    SnakeInvariant (longSnake.handleInput 0x50) ∧ (longSnake.handleInput 0x50).snakeLen ≤ 100 ∧
      ∃ g', (longSnake.handleInput 0x50).moveSnake = .ok g' ∧ g'.snakeLen ≤ 100 := by
  have h := snakeInvariant_longSnake
  have hturned : SnakeInvariant (longSnake.handleInput 0x50) :=
    ⟨h.inGrid, h.distinct, h.neighbours, h.score, h.foodInGrid, h.foodFree⟩
  refine ⟨hturned, Nat.le_refl 100, (moveSnake_stays_iff _ hturned (Nat.le_refl 100)).mpr ?_⟩
  intro houtgrows
  exact absurd houtgrows.2.2 (by decide)

theorem longSnake_overruns :
    longSnake.SnakeInvariant ∧ longSnake.snakeLen ≤ 100 ∧
      longSnake.moveSnake = .error (.segment 100) ∧
      ¬ ∃ g', longSnake.moveSnake = .ok g' ∧ g'.snakeLen ≤ 100 := by
  have hin : longSnake.InGrid longSnake.next := by
    rw [InGrid]
    decide
  have hmove := moveSnake_overrun (g := longSnake) rfl hin (by decide) (Nat.le_refl 100)
  refine ⟨snakeInvariant_longSnake, Nat.le_refl 100, hmove, ?_⟩
  rintro ⟨g', hok, _⟩
  rw [hmove] at hok
  exact nomatch hok

end Game

end FalastinOS.Games
