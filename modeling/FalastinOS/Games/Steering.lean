/-
  Games/Steering.lean --- which way the snake of `snake.c` turns.

  A key changes the direction if it is for the other axis, and the test is against the
  direction that is pending, which need not be one the snake has moved in.  Two keys
  between two moves can therefore turn the snake around.  `neverReverses_iff` says which
  keys do.

  A run is observed with the direction of the last move and the keys since then.
-/
import FalastinOS.Foundation.Latch
import FalastinOS.Games.Snake

set_option autoImplicit false

namespace FalastinOS.Games

open FalastinOS.Foundation

/-! ## The four directions -/

inductive Direction where
  | up
  | down
  | left
  | right
  deriving DecidableEq

namespace Direction

/-- `dir_x` and `dir_y`. -/
def vector : Direction → Int × Int
  | up => (0, -1)
  | down => (0, 1)
  | left => (-1, 0)
  | right => (1, 0)

def opposite : Direction → Direction
  | up => down
  | down => up
  | left => right
  | right => left

def vertical : Direction → Bool
  | up => true
  | down => true
  | left => false
  | right => false

theorem vector_opposite (d : Direction) : d.opposite.vector = (-d.vector.1, -d.vector.2) := by
  cases d <;> rfl

theorem vertical_opposite (d : Direction) : d.opposite.vertical = d.vertical := by
  cases d <;> rfl

theorem opposite_ne (d : Direction) : d.opposite ≠ d := by
  cases d <;> decide

theorem vector_injective : Function.Injective vector := by
  intro d e h
  cases d <;> cases e <;> first | rfl | exact absurd h (by decide)

end Direction

/-- The direction of an arrow key. -/
def arrow (scancode : Int) : Option Direction :=
  if scancode = 0x48 then some .up
  else if scancode = 0x50 then some .down
  else if scancode = 0x4B then some .left
  else if scancode = 0x4D then some .right
  else none

/-- The direction after some keys, from the direction `d`. -/
def pending (d : Direction) (keys : List Int) : Direction :=
  (keys.filterMap arrow).foldl (latch Direction.vertical) d

theorem pending_concat (d : Direction) (keys : List Int) (scancode : Int) :
    pending d (keys ++ [scancode]) =
      (arrow scancode).elim (pending d keys) (latch Direction.vertical (pending d keys)) := by
  rw [pending, List.filterMap_append, List.foldl_append, List.filterMap_cons, List.filterMap_nil]
  cases arrow scancode with
  | none => rfl
  | some k => rfl

/-- Among the arrow keys there is one for the other axis, directly followed by the one
against `d`, and after these come only keys for the axis of `d`. -/
def TurnsBack (d : Direction) (keys : List Int) : Prop :=
  ∃ before p after, keys.filterMap arrow = before ++ p :: d.opposite :: after ∧
    p.vertical ≠ d.vertical ∧ ∀ k ∈ after, k.vertical = d.vertical

theorem pending_eq_opposite_iff (d : Direction) (keys : List Int) :
    pending d keys = d.opposite ↔ TurnsBack d keys :=
  foldl_latch_eq_iff d.vertical_opposite d.opposite_ne

/-- A single arrow key between two moves is safe. -/
theorem not_turnsBack_of_single {d : Direction} {keys : List Int}
    (h : (keys.filterMap arrow).length ≤ 1) : ¬ TurnsBack d keys := by
  rintro ⟨before, p, after, harrows, _⟩
  rw [harrows, List.length_append, List.length_cons, List.length_cons] at h
  omega

/-! ## The direction of a game -/

namespace Game

variable {g g' : Game}

/-- `dir_x` and `dir_y`. -/
def heading (g : Game) : Int × Int := (g.dirX, g.dirY)

theorem dirX_eq_zero_iff {p : Direction} (h : g.heading = p.vector) :
    g.dirX = 0 ↔ p.vertical ≠ false := by
  rw [show g.dirX = p.vector.1 from congrArg Prod.fst h]
  cases p <;> decide

theorem dirY_eq_zero_iff {p : Direction} (h : g.heading = p.vector) :
    g.dirY = 0 ↔ p.vertical ≠ true := by
  rw [show g.dirY = p.vector.2 from congrArg Prod.snd h]
  cases p <;> decide

/-- The branch of the source for the arrow key `k`. -/
theorem heading_branch {p k : Direction} (h : g.heading = p.vector) {test : Prop} [Decidable test]
    (htest : test ↔ p.vertical ≠ k.vertical) :
    (if test then { g with dirX := k.vector.1, dirY := k.vector.2 } else g).heading =
      (latch Direction.vertical p k).vector := by
  rw [latch]
  by_cases hsame : p.vertical = k.vertical
  · rw [if_neg (fun ht => htest.mp ht hsame), if_pos hsame, h]
  · rw [if_pos (htest.mpr hsame), if_neg hsame]
    rfl

theorem heading_handleInput {p : Direction} (h : g.heading = p.vector) (scancode : Int) :
    (g.handleInput scancode).heading =
      ((arrow scancode).elim p (latch Direction.vertical p)).vector := by
  unfold handleInput arrow
  split
  · exact heading_branch (k := .up) h (dirY_eq_zero_iff h)
  · split
    · exact heading_branch (k := .down) h (dirY_eq_zero_iff h)
    · split
      · exact heading_branch (k := .left) h (dirX_eq_zero_iff h)
      · split
        · exact heading_branch (k := .right) h (dirX_eq_zero_iff h)
        · exact h

theorem heading_generateFood (g : Game) : g.generateFood.heading = g.heading := by
  rw [generateFood]
  split
  · rfl
  · split
    · rfl
    · rfl

theorem heading_selfCollision (g : Game) : g.selfCollision.heading = g.heading := by
  rw [selfCollision]
  split
  · rfl
  · rfl

theorem heading_moveSnake (h : g.moveSnake = .ok g') : g'.heading = g.heading := by
  rw [moveSnake] at h
  split at h
  · rw [← Except.ok.inj h]
  · split at h
    · rw [← Except.ok.inj h]
      rfl
    · split at h
      · obtain ⟨_, _, h⟩ := exists_of_bind_ok h
        obtain ⟨_, _, h⟩ := exists_of_bind_ok h
        rw [← Except.ok.inj h, heading_selfCollision, heading_generateFood]
        rfl
      · obtain ⟨_, _, h⟩ := exists_of_bind_ok h
        obtain ⟨_, _, h⟩ := exists_of_bind_ok h
        rw [← Except.ok.inj h, heading_selfCollision]
        rfl

end Game

/-! ## Runs -/

/-- A game that is observed. -/
structure Steered where
  game : Game
  /-- the direction that the last move used -/
  lastMove : Option (Int × Int)
  /-- the keys since then -/
  keys : List Int

namespace Steered

open Game

/-- The game begins. -/
def begin (g : Game) : Steered := ⟨g, none, []⟩

/-- One step of the game.  A move uses a direction if the game goes on. -/
def step (s : Steered) : Event → Except Overrun Steered
  | .key scancode =>
      .ok { s with game := s.game.handleInput scancode, keys := s.keys ++ [scancode] }
  | .move => do
      let game ← s.game.moveSnake
      .ok (if s.game.gameOver then { s with game := game } else ⟨game, some s.game.heading, []⟩)

/-- The next move uses the direction against the one before. -/
def Reverses (s : Steered) : Prop :=
  s.game.gameOver = false ∧ ∃ v, s.lastMove = some v ∧ s.game.heading = (-v.1, -v.2)

/-- The keys since the last move turn the snake back. -/
def TurnedBack (s : Steered) : Prop :=
  s.game.gameOver = false ∧ ∃ d : Direction, s.lastMove = some d.vector ∧ TurnsBack d s.keys

/-- What a condition on moves says about an event. -/
def AtMoves (P : Steered → Prop) (s : Steered) : Event → Prop
  | .key _ => True
  | .move => P s

variable {s s' : Steered}

/-- Observing a game does not change it. -/
theorem game_step (s : Steered) (e : Event) : (s.step e).map game = s.game.step e := by
  cases e with
  | key scancode => rfl
  | move =>
      rw [step, Game.step]
      cases s.game.moveSnake with
      | error fault => rfl
      | ok game =>
          rw [ok_bind]
          split
          · rfl
          · rfl

/-- The pending direction is one of the four, and it comes from the last move and the keys
since then. -/
structure Follows (s : Steered) : Prop where
  heading : ∃ p : Direction, s.game.heading = p.vector
  fromLastMove : ∀ v, s.lastMove = some v →
    ∃ d : Direction, v = d.vector ∧ s.game.heading = (pending d s.keys).vector

theorem Follows.step {e : Event} (h : s.Follows) (hstep : s.step e = .ok s') : s'.Follows := by
  cases e with
  | key scancode =>
      obtain rfl := Except.ok.inj hstep
      obtain ⟨p, hp⟩ := h.heading
      refine ⟨⟨_, heading_handleInput hp scancode⟩, fun v hv => ?_⟩
      obtain ⟨d, hd, hpending⟩ := h.fromLastMove v hv
      refine ⟨d, hd, ?_⟩
      rw [pending_concat]
      exact heading_handleInput hpending scancode
  | move =>
      obtain ⟨game, hmove, hstep⟩ := exists_of_bind_ok hstep
      have hkept := heading_moveSnake hmove
      obtain rfl := Except.ok.inj hstep
      split
      · refine ⟨?_, ?_⟩
        · rw [hkept]
          exact h.heading
        · rw [hkept]
          exact h.fromLastMove
      · obtain ⟨p, hp⟩ := h.heading
        refine ⟨⟨p, hkept.trans hp⟩, fun v hv => ⟨p, ?_, hkept.trans hp⟩⟩
        exact (Option.some.inj hv).symm.trans hp

theorem follows_begin (g : Game) (gridW gridH : Int) (ticks : UInt32) :
    (begin (g.start gridW gridH ticks)).Follows :=
  ⟨⟨.right, heading_generateFood _⟩, fun _ hv => nomatch hv⟩

theorem Follows.reverses_iff (h : s.Follows) : s.Reverses ↔ s.TurnedBack := by
  constructor
  · rintro ⟨hplay, v, hv, hheading⟩
    obtain ⟨d, rfl, hpending⟩ := h.fromLastMove v hv
    rw [← Direction.vector_opposite, hpending] at hheading
    exact ⟨hplay, d, hv, (pending_eq_opposite_iff d _).mp (Direction.vector_injective hheading)⟩
  · rintro ⟨hplay, d, hd, hback⟩
    obtain ⟨e, he, hpending⟩ := h.fromLastMove _ hd
    obtain rfl := Direction.vector_injective he
    refine ⟨hplay, d.vector, hd, ?_⟩
    rw [hpending, (pending_eq_opposite_iff d _).mpr hback, Direction.vector_opposite]

/-- In a game no move reverses the one before exactly if before no move the keys turn the
snake back. -/
theorem neverReverses_iff (g : Game) (gridW gridH : Int) (ticks : UInt32) (events : List Event) :
    Attempted step (AtMoves fun s => ¬ s.Reverses) (begin (g.start gridW gridH ticks)) events ↔
      Attempted step (AtMoves fun s => ¬ s.TurnedBack) (begin (g.start gridW gridH ticks))
        events := by
  refine attempted_congr_of_invariant (fun _ _ _ => Follows.step) (fun s e h => ?_)
    (follows_begin g gridW gridH ticks) events
  cases e with
  | key scancode => exact Iff.rfl
  | move => exact h.reverses_iff.not

/-- A game of 40 by 30 cells, before any event. -/
def freshGame : Game := start ⟨1, 0, 0, fun _ => ⟨0, 0⟩, 3, 1, 0, ⟨0, 0⟩, 0, false⟩ 40 30 7

/-- Up and left between two moves: the first was to the right, the second is to the left. -/
theorem upLeft_reverses :
    ∃ s, run step (begin freshGame) [.move, .key 0x48, .key 0x4B] = .ok s ∧ s.Reverses ∧
      ¬ Attempted step (AtMoves fun s => ¬ s.Reverses) (begin freshGame)
        [.move, .key 0x48, .key 0x4B, .move] := by
  have hmap : (run step (begin freshGame) [.move, .key 0x48, .key 0x4B]).toOption.map
      (fun s => (s.game.gameOver, s.lastMove, s.game.heading)) =
        some (false, some (1, 0), (-1, 0)) := by decide +kernel
  obtain ⟨s, hrun, hend⟩ := exists_run_of_map hmap
  obtain ⟨hplay, hrest⟩ := Prod.mk.inj hend
  obtain ⟨hlast, hheading⟩ := Prod.mk.inj hrest
  have hreverses : s.Reverses := ⟨hplay, (1, 0), hlast, hheading⟩
  refine ⟨s, hrun, hreverses, fun hnever => ?_⟩
  have hmove : AtMoves (fun s => ¬ s.Reverses) s .move := Attempted.at_end hnever hrun
  exact hmove hreverses

end Steered

end FalastinOS.Games
