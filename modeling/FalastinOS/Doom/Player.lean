/-
  Doom/Player.lean --- the player and the rays of `doom_wrapper.c`.

  Positions are in units of 1/256 of a map cell, angles in degrees, and the sine is an
  approximation in units of 1/256.  A step of the player is tested against the map one
  axis after the other; a ray goes on by an eighth of its direction until it is in a wall.

  `neverInWall` says that the player stays off the walls and does not jump over a cell,
  and that from where the player is every ray hits a wall before `MAX_RAY_STEPS`.
  A step is at most 56 units long, less than a cell.  Of the two coordinates of a ray one
  changes by at least 22 units in each round, so after 187 rounds it is off the map.
-/
import FalastinOS.Foundation.Execution

set_option autoImplicit false

namespace FalastinOS.Doom

open FalastinOS.Foundation

/-! ## Angles -/

/-- `while (angle < 0) angle += 360`. -/
def addTurns (angle : Int) : Int := if angle < 0 then addTurns (angle + 360) else angle
termination_by (-angle).toNat

/-- `while (angle >= 360) angle -= 360`. -/
def subTurns (angle : Int) : Int := if angle ≥ 360 then subTurns (angle - 360) else angle
termination_by angle.toNat

/-- `wrap_angle(angle)`. -/
def wrapAngle (angle : Int) : Int := subTurns (addTurns angle)

theorem addTurns_spec (angle : Int) : 0 ≤ addTurns angle ∧ addTurns angle % 360 = angle % 360 := by
  fun_induction addTurns angle with
  | case1 angle _ ih =>
      refine ⟨ih.1, ih.2.trans ?_⟩
      omega
  | case2 angle hangle => exact ⟨by omega, rfl⟩

theorem subTurns_of_nonneg {angle : Int} (h : 0 ≤ angle) : subTurns angle = angle % 360 := by
  fun_induction subTurns angle with
  | case1 angle _ ih =>
      rw [ih (by omega)]
      omega
  | case2 angle hangle => exact (Int.emod_eq_of_lt h (by omega)).symm

/-- The two loops compute the remainder. -/
theorem wrapAngle_eq (angle : Int) : wrapAngle angle = angle % 360 := by
  obtain ⟨hnonneg, hmod⟩ := addTurns_spec angle
  rw [wrapAngle, subTurns_of_nonneg hnonneg, hmod]

theorem wrapAngle_bounds (angle : Int) : 0 ≤ wrapAngle angle ∧ wrapAngle angle < 360 := by
  rw [wrapAngle_eq]
  omega

/-- `sin_fixed` after its first line. -/
def sinWrapped (angle : Int) : Int :=
  let (angle, sign) := if angle ≥ 180 then (angle - 180, -1) else (angle, 1)
  let angle := if angle > 90 then 180 - angle else angle
  let numerator := 4 * angle * (180 - angle) * 256
  let denominator := 40500 - angle * (180 - angle)
  let y := if denominator ≠ 0 then numerator.tdiv denominator else 0
  sign * y

/-- `sin_fixed(angle)`. -/
def sinFixed (angle : Int) : Int := sinWrapped (wrapAngle angle)

/-- `cos_fixed(angle)`. -/
def cosFixed (angle : Int) : Int := sinFixed (angle + 90)

/-! ## The map -/

/-- `doom_map`. -/
def doomMap : List String :=
  ["1111111111111111",
   "1000000000000001",
   "1011110111110101",
   "1010000100010101",
   "1010111101010101",
   "1000100001010001",
   "1110101111011101",
   "1000101000010001",
   "1011101011110101",
   "1000001000000101",
   "1011111110111101",
   "1010000000100001",
   "1010111111101101",
   "1000100000000001",
   "1000000111000001",
   "1111111111111111"]

/-- `v >> FP_SHIFT`: without the fraction, rounded down. -/
def fpShift (v : Int) : Int := v >>> (8 : Nat)

/-- `map_wall_at(x, y)`. -/
def mapWallAt (x y : Int) : Bool :=
  if fpShift x < 0 ∨ fpShift x ≥ 16 ∨ fpShift y < 0 ∨ fpShift y ≥ 16 then true
  else (doomMap.getD (fpShift y).toNat "").toList.getD (fpShift x).toNat ' ' == '1'

/-! ## The player -/

/-- `player_x`, `player_y` and `player_angle`. -/
structure Player where
  x : Int
  y : Int
  angle : Int

/-- `abs_int(v)`. -/
def absInt (v : Int) : Int := if v < 0 then -v else v

/-- `MOVE_STEP`. -/
def moveStep : Int := 56

/-- `TURN_STEP`. -/
def turnStep : Int := 5

namespace Player

/-- Where the player is in the beginning. -/
def start : Player := ⟨1 * 256 + Int.tdiv 256 2, 1 * 256 + Int.tdiv 256 2, 0⟩

/-- `if (!map_wall_at(nx, player_y)) player_x = nx`. -/
def moveX (p : Player) (nx : Int) : Player := if mapWallAt nx p.y then p else { p with x := nx }

/-- `if (!map_wall_at(player_x, ny)) player_y = ny`. -/
def moveY (p : Player) (ny : Int) : Player := if mapWallAt p.x ny then p else { p with y := ny }

/-- `try_move` for its `move_angle` and `amount`. -/
def walk (p : Player) (moveAngle amount : Int) : Player :=
  let nx := p.x + fpShift (cosFixed moveAngle * amount)
  let ny := p.y + fpShift (sinFixed moveAngle * amount)
  (p.moveX nx).moveY ny

/-- `try_move(forward, strafe)`. -/
def tryMove (p : Player) (forward strafe : Int) : Player :=
  if strafe ≠ 0 then
    p.walk (wrapAngle (p.angle + if strafe > 0 then 90 else -90)) (absInt strafe)
  else p.walk p.angle forward

/-- `handle_key(key)`: what is returned, and the player. -/
def handleKey (p : Player) (key : Int) : Int × Player :=
  if key = 27 then (0, p)
  else if key = 3 ∨ key = 'a'.toNat ∨ key = 'A'.toNat then
    (1, { p with angle := wrapAngle (p.angle - turnStep) })
  else if key = 4 ∨ key = 'd'.toNat ∨ key = 'D'.toNat then
    (1, { p with angle := wrapAngle (p.angle + turnStep) })
  else if key = 1 ∨ key = 'w'.toNat ∨ key = 'W'.toNat then (1, p.tryMove moveStep 0)
  else if key = 2 ∨ key = 's'.toNat ∨ key = 'S'.toNat then (1, p.tryMove (-moveStep) 0)
  else if key = 'q'.toNat ∨ key = 'Q'.toNat then (1, p.tryMove 0 (-moveStep))
  else if key = 'e'.toNat ∨ key = 'E'.toNat then (1, p.tryMove 0 moveStep)
  else (1, p)

def step (p : Player) (key : Int) : Except Empty Player := .ok (p.handleKey key).2

end Player

/-! ## The rays -/

/-- `dist` and `hit_side` after the loop over a ray, and whether a `break` ended it. -/
structure Cast where
  dist : Int
  hitSide : Int
  broke : Bool

/-- The loop over a ray in `render_scene`, for at most `n` more rounds. -/
def rayLoop (dx dy : Int) : Nat → Int → Int → Int → Cast
  | 0, _, _, dist => ⟨dist, 0, false⟩
  | n + 1, rayX, rayY, dist =>
      let oldMx := fpShift rayX
      let oldMy := fpShift rayY
      let rayX := rayX + dx.tdiv 8
      let rayY := rayY + dy.tdiv 8
      let dist := dist + 4
      if mapWallAt rayX rayY then
        ⟨dist, if fpShift rayX ≠ oldMx then 1 else if fpShift rayY ≠ oldMy then 2 else 0, true⟩
      else rayLoop dx dy n rayX rayY dist

/-- `MAX_RAY_STEPS`. -/
def maxRaySteps : Nat := 220

/-- The ray at an angle, from where the player is. -/
def Player.castRay (p : Player) (rayAngle : Int) : Cast :=
  rayLoop (cosFixed rayAngle) (sinFixed rayAngle) maxRaySteps p.x p.y 1

/-! ## How large the sine is -/

theorem natAbs_sinWrapped_le : ∀ k < 360, (sinWrapped (k : Nat)).natAbs ≤ 256 := by decide +kernel

/-- At no angle are an eighth of the sine and an eighth of the cosine both small. -/
theorem sinWrapped_large : ∀ k < 360, 22 ≤ ((sinWrapped (((k : Nat) + 90) % 360)).tdiv 8).natAbs ∨
    22 ≤ ((sinWrapped (k : Nat)).tdiv 8).natAbs := by decide +kernel

theorem exists_sinFixed_eq (angle : Int) : ∃ k : Nat, k < 360 ∧ sinFixed angle = sinWrapped k ∧
    cosFixed angle = sinWrapped ((k + 90) % 360) := by
  obtain ⟨hlow, hhigh⟩ := wrapAngle_bounds angle
  have hk : ((wrapAngle angle).toNat : Int) = wrapAngle angle := Int.toNat_of_nonneg hlow
  refine ⟨(wrapAngle angle).toNat, by omega, ?_, ?_⟩
  · rw [sinFixed, hk]
  · rw [cosFixed, sinFixed, hk, wrapAngle_eq, wrapAngle_eq, Int.emod_add_emod]

theorem natAbs_sinFixed_le (angle : Int) : (sinFixed angle).natAbs ≤ 256 := by
  obtain ⟨k, hk, hsin, _⟩ := exists_sinFixed_eq angle
  rw [hsin]
  exact natAbs_sinWrapped_le k hk

theorem ray_large (angle : Int) :
    22 ≤ ((cosFixed angle).tdiv 8).natAbs ∨ 22 ≤ ((sinFixed angle).tdiv 8).natAbs := by
  obtain ⟨k, hk, hsin, hcos⟩ := exists_sinFixed_eq angle
  rw [hsin, hcos]
  exact sinWrapped_large k hk

/-! ## Walls -/

theorem fpShift_eq (v : Int) : fpShift v = v / 256 := Int.shiftRight_eq_div_pow v 8

/-- Outside the map everything is wall. -/
theorem mapWallAt_outside {x y : Int} (h : x < 0 ∨ 4096 ≤ x ∨ y < 0 ∨ 4096 ≤ y) :
    mapWallAt x y = true := by
  rw [mapWallAt, if_pos]
  rw [fpShift_eq, fpShift_eq]
  omega

theorem inside_of_free {x y : Int} (h : mapWallAt x y = false) :
    (0 ≤ x ∧ x < 4096) ∧ 0 ≤ y ∧ y < 4096 := by
  by_cases houtside : x < 0 ∨ 4096 ≤ x ∨ y < 0 ∨ 4096 ≤ y
  · rw [mapWallAt_outside houtside] at h
    exact nomatch h
  · omega

/-- If a ray is in a wall after `k` rounds, then the loop ends at the latest there. -/
theorem rayLoop_broke {dx dy x y : Int} {n k : Nat} (hpos : 0 < k) (hk : k ≤ n)
    (hwall : mapWallAt (x + k * dx.tdiv 8) (y + k * dy.tdiv 8) = true) (dist : Int) :
    (rayLoop dx dy n x y dist).broke = true := by
  induction n generalizing x y k dist with
  | zero => omega
  | succ n ih =>
      simp only [rayLoop]
      split
      · rfl
      · rename_i hfree
        cases k with
        | zero => omega
        | succ k =>
            have hnext : ∀ a d : Int, a + (k + 1 : Nat) * d = a + d + k * d := by
              intro a d
              rw [Int.natCast_succ, Int.add_mul, Int.one_mul]
              omega
            rw [hnext, hnext] at hwall
            by_cases hk0 : k = 0
            · subst hk0
              simp only [Int.natCast_zero, Int.zero_mul, Int.add_zero] at hwall
              exact absurd hwall hfree
            · exact ih (by omega) (by omega) hwall _

/-- Every ray from a free place hits a wall in time. -/
theorem castRay_broke {p : Player} (h : mapWallAt p.x p.y = false) (rayAngle : Int) :
    (p.castRay rayAngle).broke = true := by
  obtain ⟨hx, hy⟩ := inside_of_free h
  refine rayLoop_broke (k := 187) (by decide) (by decide) (mapWallAt_outside ?_) 1
  rcases ray_large rayAngle with hlarge | hlarge
  · omega
  · omega

namespace Player

/-! ## One key -/

theorem step_bound {c amount : Int} (hc : c.natAbs ≤ 256) (hamount : amount.natAbs ≤ 56) :
    (fpShift (c * amount)).natAbs ≤ 56 := by
  have hproduct : (c * amount).natAbs ≤ 256 * 56 := by
    rw [Int.natAbs_mul]
    exact Nat.mul_le_mul hc hamount
  rw [fpShift_eq]
  omega

/-- The player is not in a wall, at a proper angle. -/
structure OffWalls (p : Player) : Prop where
  angle : 0 ≤ p.angle ∧ p.angle < 360
  free : mapWallAt p.x p.y = false

/-- In the same cell or in one beside it, for each coordinate. -/
def NextTo (p q : Player) : Prop :=
  (fpShift q.x - fpShift p.x).natAbs ≤ 1 ∧ (fpShift q.y - fpShift p.y).natAbs ≤ 1

variable {p : Player}

theorem NextTo.of_near {q : Player} (hx : (q.x - p.x).natAbs ≤ 56)
    (hy : (q.y - p.y).natAbs ≤ 56) : p.NextTo q := by
  rw [NextTo, fpShift_eq, fpShift_eq, fpShift_eq, fpShift_eq]
  omega

theorem moveX_spec (h : p.OffWalls) (nx : Int) (hx : (nx - p.x).natAbs ≤ 56) :
    (p.moveX nx).OffWalls ∧ ((p.moveX nx).x - p.x).natAbs ≤ 56 ∧ (p.moveX nx).y = p.y := by
  rw [moveX]
  split
  · exact ⟨h, by omega, rfl⟩
  · rename_i hfree
    exact ⟨⟨h.angle, Bool.eq_false_iff.mpr hfree⟩, hx, rfl⟩

theorem moveY_spec (h : p.OffWalls) (ny : Int) (hy : (ny - p.y).natAbs ≤ 56) :
    (p.moveY ny).OffWalls ∧ (p.moveY ny).x = p.x ∧ ((p.moveY ny).y - p.y).natAbs ≤ 56 := by
  rw [moveY]
  split
  · exact ⟨h, rfl, by omega⟩
  · rename_i hfree
    exact ⟨⟨h.angle, Bool.eq_false_iff.mpr hfree⟩, rfl, hy⟩

theorem walk_spec (h : p.OffWalls) (angle : Int) {amount : Int} (hamount : amount.natAbs ≤ 56) :
    (p.walk angle amount).OffWalls ∧ p.NextTo (p.walk angle amount) := by
  have hcos : (fpShift (cosFixed angle * amount)).natAbs ≤ 56 :=
    step_bound (natAbs_sinFixed_le (angle + 90)) hamount
  have hsin := step_bound (natAbs_sinFixed_le angle) hamount
  obtain ⟨hfirst, hx, hsameY⟩ :=
    moveX_spec h (p.x + fpShift (cosFixed angle * amount)) (by omega)
  obtain ⟨hsecond, hsameX, hy⟩ :=
    moveY_spec hfirst (p.y + fpShift (sinFixed angle * amount)) (by omega)
  rw [← hsameX] at hx
  rw [hsameY] at hy
  exact ⟨hsecond, .of_near hx hy⟩

theorem tryMove_spec (h : p.OffWalls) (forward strafe : Int) (hforward : forward.natAbs ≤ 56)
    (hstrafe : (absInt strafe).natAbs ≤ 56) :
    (p.tryMove forward strafe).OffWalls ∧ p.NextTo (p.tryMove forward strafe) := by
  rw [tryMove]
  split
  · exact walk_spec h _ hstrafe
  · exact walk_spec h _ hforward

theorem turn_spec (h : p.OffWalls) (angle : Int) :
    OffWalls { p with angle := wrapAngle angle } ∧ p.NextTo { p with angle := wrapAngle angle } :=
  ⟨⟨wrapAngle_bounds angle, h.free⟩, .of_near (by simp only; omega) (by simp only; omega)⟩

theorem handleKey_spec (h : p.OffWalls) (key : Int) :
    (p.handleKey key).2.OffWalls ∧ p.NextTo (p.handleKey key).2 := by
  have hstay : p.OffWalls ∧ p.NextTo p := ⟨h, .of_near (by omega) (by omega)⟩
  unfold handleKey
  split
  · exact hstay
  · split
    · exact turn_spec h (p.angle - turnStep)
    · split
      · exact turn_spec h (p.angle + turnStep)
      · split
        · exact tryMove_spec h moveStep 0 (by decide) (by decide)
        · split
          · exact tryMove_spec h (-moveStep) 0 (by decide) (by decide)
          · split
            · exact tryMove_spec h 0 (-moveStep) (by decide) (by decide)
            · split
              · exact tryMove_spec h 0 moveStep (by decide) (by decide)
              · exact hstay

/-! ## Runs -/

theorem offWalls_start : start.OffWalls := ⟨by decide, by decide +kernel⟩

theorem OffWalls.step {p' : Player} {key : Int} (h : p.OffWalls) (hstep : p.step key = .ok p') :
    p'.OffWalls := by
  obtain rfl := Except.ok.inj hstep
  exact (handleKey_spec h key).1

/-- For every sequence of keys: the player stays off the walls at an angle below 360, and
from there every ray hits a wall in time; and no key moves the player farther than to a
neighbouring cell. -/
theorem neverInWall (keys : List Int) :
    Along step (fun p => (0 ≤ p.angle ∧ p.angle < 360) ∧ mapWallAt p.x p.y = false ∧
        ∀ rayAngle, (p.castRay rayAngle).broke = true) start keys ∧
      Attempted step (fun p key => p.NextTo (p.handleKey key).2) start keys := by
  have keep : ∀ p key p', OffWalls p → p.step key = .ok p' → OffWalls p' :=
    fun _ _ _ h hstep => h.step hstep
  constructor
  · exact (along_of_invariant keep offWalls_start keys).mono fun _ h =>
      ⟨h.angle, h.free, castRay_broke h.free⟩
  · exact attempted_of_invariant keep (fun _ key h => (handleKey_spec h key).2) offWalls_start keys

end Player

end FalastinOS.Doom
