/-
  Foundation/Sink.lean --- a bounded place for output.

  A sink has cells and a position.  What is emitted goes to the cells from the position
  on, as long as the position is below a limit; the rest is dropped.  Emitting one list
  after another is emitting them joined (`emit_append`), wherever the limit falls, and
  what a sink holds in the end is a prefix of what was emitted (`written_emit`).

  A program that writes characters one by one, each behind its own test of the limit, is
  described by the list it emits.

  Nothing here mentions a particular program.
-/
import Mathlib.Logic.Function.Basic

set_option autoImplicit false

namespace FalastinOS.Foundation

/-- Cells and the position of the next one. -/
structure Sink (α : Type) where
  cells : Nat → α
  pos : Nat

namespace Sink

variable {α : Type} {limit : Nat} {s : Sink α}

/-- Fill the next cell. -/
def push (s : Sink α) (x : α) : Sink α := ⟨Function.update s.cells s.pos x, s.pos + 1⟩

/-- Fill the next cells while they lie below the limit. -/
def emit (limit : Nat) : Sink α → List α → Sink α
  | s, [] => s
  | s, x :: xs => if s.pos < limit then emit limit (s.push x) xs else s

/-- The cells that are filled. -/
def written (s : Sink α) : List α := (List.range s.pos).map s.cells

@[simp] theorem push_pos (s : Sink α) (x : α) : (s.push x).pos = s.pos + 1 := rfl

/-- The cells that were filled before are not changed. -/
theorem map_cells_push (s : Sink α) (x : α) :
    (List.range s.pos).map (s.push x).cells = s.written := by
  refine List.map_congr_left fun i hi => ?_
  exact Function.update_of_ne (Nat.ne_of_lt (List.mem_range.mp hi)) _ _

theorem written_push (s : Sink α) (x : α) : (s.push x).written = s.written ++ [x] := by
  rw [written, push_pos, List.range_succ, List.map_append, List.map_singleton, map_cells_push]
  exact congrArg (fun y => s.written ++ [y]) (Function.update_self ..)

/-! ## Emitting -/

@[simp] theorem emit_nil (s : Sink α) : s.emit limit [] = s := rfl

theorem emit_cons_of_lt (h : s.pos < limit) (x : α) (xs : List α) :
    s.emit limit (x :: xs) = (s.push x).emit limit xs := by
  rw [emit, if_pos h]

/-- A full sink takes nothing. -/
theorem emit_of_full (h : limit ≤ s.pos) (xs : List α) : s.emit limit xs = s := by
  cases xs with
  | nil => rfl
  | cons x xs => rw [emit, if_neg (Nat.not_lt.mpr h)]

theorem emit_append (s : Sink α) (xs ys : List α) :
    s.emit limit (xs ++ ys) = (s.emit limit xs).emit limit ys := by
  induction xs generalizing s with
  | nil => rfl
  | cons x xs ih =>
      by_cases hroom : s.pos < limit
      · rw [List.cons_append, emit_cons_of_lt hroom, emit_cons_of_lt hroom, ih]
      · have hfull := Nat.not_lt.mp hroom
        rw [emit_of_full hfull, emit_of_full hfull, emit_of_full hfull]

theorem pos_emit (s : Sink α) (xs : List α) :
    (s.emit limit xs).pos = s.pos + min xs.length (limit - s.pos) := by
  induction xs generalizing s with
  | nil => simp
  | cons x xs ih =>
      by_cases hroom : s.pos < limit
      · rw [emit_cons_of_lt hroom, ih, push_pos, List.length_cons]
        omega
      · rw [emit_of_full (Nat.not_lt.mp hroom)]
        omega

/-- What a sink holds is what it held and as much of the rest as there is room for. -/
theorem written_emit (s : Sink α) (xs : List α) :
    (s.emit limit xs).written = s.written ++ xs.take (limit - s.pos) := by
  induction xs generalizing s with
  | nil => simp
  | cons x xs ih =>
      by_cases hroom : s.pos < limit
      · rw [emit_cons_of_lt hroom, ih, written_push, push_pos, List.append_assoc,
          show limit - s.pos = limit - (s.pos + 1) + 1 by omega, List.take_succ_cons]
        rfl
      · rw [emit_of_full (Nat.not_lt.mp hroom), Nat.sub_eq_zero_of_le (Nat.not_lt.mp hroom),
          List.take_zero, List.append_nil]

/-- The cells from the limit on are left alone. -/
theorem cells_emit_of_le (s : Sink α) (xs : List α) {i : Nat} (hi : limit ≤ i) :
    (s.emit limit xs).cells i = s.cells i := by
  induction xs generalizing s with
  | nil => rfl
  | cons x xs ih =>
      by_cases hroom : s.pos < limit
      · rw [emit_cons_of_lt hroom, ih, push]
        exact Function.update_of_ne (by omega) _ _
      · rw [emit_of_full (Nat.not_lt.mp hroom)]

end Sink

end FalastinOS.Foundation
