/-
  Foundation/Latch.lean --- a value that is held until one of another class comes.

  Values have a class, here called their axis.  A latch that holds a value takes a new
  one only if it is of another class, so in the end it holds the value with which the
  class changed for the last time.  `foldl_latch_eq_iff` says when that is another value
  of the class it began with.
-/
import Mathlib.Data.List.Induction

set_option autoImplicit false

namespace FalastinOS.Foundation

variable {α β : Type} [DecidableEq β]

/-- A new value takes the place of a value of another class. -/
def latch (axis : α → β) (held new : α) : α := if axis held = axis new then held else new

theorem axis_latch (axis : α → β) (held new : α) : axis (latch axis held new) = axis new := by
  unfold latch
  split
  next h => exact h
  next => rfl

variable {axis : α → β}

theorem foldl_latch_of_same {held : α} {news : List α} (h : ∀ k ∈ news, axis k = axis held) :
    news.foldl (latch axis) held = held := by
  induction news with
  | nil => rfl
  | cons k rest ih =>
      rw [List.forall_mem_cons] at h
      rw [List.foldl_cons, latch, if_pos h.1.symm, ih h.2]

/-- What is held in the end and was not from the start came where the class changed for the
last time. -/
theorem foldl_latch_split {held last : α} {news : List α}
    (h : news.foldl (latch axis) held = last) (hne : last ≠ held) :
    ∃ before after, news = before ++ last :: after ∧
      axis (before.foldl (latch axis) held) ≠ axis last ∧ ∀ k ∈ after, axis k = axis last := by
  induction news using List.reverseRecOn with
  | nil => exact absurd h.symm hne
  | append_singleton news k ih =>
      rw [List.foldl_append, List.foldl_cons, List.foldl_nil, latch] at h
      split at h
      next hsame =>
          obtain ⟨before, after, hnews, hchanged, hafter⟩ := ih h
          refine ⟨before, after ++ [k], ?_, hchanged, ?_⟩
          · rw [hnews, List.append_assoc, List.cons_append]
          · intro j hj
            rcases List.mem_append.mp hj with hj | hj
            · exact hafter j hj
            · rw [List.mem_singleton.mp hj, ← hsame, h]
      next hother =>
          subst h
          exact ⟨news, [], rfl, hother, fun j hj => absurd hj List.not_mem_nil⟩

/-- Another value of the first class is held in the end exactly if it follows one of another
class and only values of its own class follow it. -/
theorem foldl_latch_eq_iff {held last : α} {news : List α} (haxis : axis last = axis held)
    (hne : last ≠ held) :
    news.foldl (latch axis) held = last ↔ ∃ before p after, news = before ++ p :: last :: after ∧
      axis p ≠ axis held ∧ ∀ k ∈ after, axis k = axis held := by
  constructor
  · intro h
    obtain ⟨before, after, hnews, hchanged, hafter⟩ := foldl_latch_split h hne
    rw [haxis] at hchanged
    cases before using List.reverseRecOn with
    | nil => exact absurd rfl hchanged
    | append_singleton before p =>
        rw [List.foldl_append, List.foldl_cons, List.foldl_nil, axis_latch axis] at hchanged
        refine ⟨before, p, after, ?_, hchanged, fun k hk => (hafter k hk).trans haxis⟩
        rw [hnews, List.append_assoc, List.singleton_append]
  · rintro ⟨before, p, after, rfl, hp, hafter⟩
    rw [List.foldl_append, List.foldl_cons, List.foldl_cons]
    have hlast : latch axis (latch axis (before.foldl (latch axis) held) p) last = last := by
      rw [latch, axis_latch axis, if_neg (fun h => hp (h.trans haxis))]
    rw [hlast]
    exact foldl_latch_of_same fun k hk => (hafter k hk).trans haxis.symm

end FalastinOS.Foundation
