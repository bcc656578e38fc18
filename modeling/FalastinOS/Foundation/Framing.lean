/-
  Foundation/Framing.lean --- frames of fixed length in a stream without a separator.

  A receiver collects symbols into frames of `n`.  Between frames it drops every symbol
  that may not begin one; inside a frame it takes any symbol.  `deframe` gives the frames
  of a stream and the unfinished one at its end, from any unfinished frame at its start.

  Streams compose (`deframe_append`).  A stream of frames with droppable noise before each
  is taken apart as it was put together (`deframe_flatMap`).  A receiver that has lost its
  place finds it again: as many droppable symbols as complete a frame leave nothing
  unfinished, whatever was (`deframe_resync`).
-/
import Mathlib.Data.List.Basic

set_option autoImplicit false

namespace FalastinOS.Foundation

variable {α : Type} {begins : α → Bool} {n : Nat}

/-- The frames of a stream and the unfinished frame after it. -/
def deframe (begins : α → Bool) (n : Nat) : List α → List α → List (List α) × List α
  | held, [] => ([], held)
  | held, x :: rest =>
      if held = [] ∧ begins x = false then deframe begins n held rest
      else if held.length + 1 = n then
        let (frames, last) := deframe begins n [] rest
        ((held ++ [x]) :: frames, last)
      else deframe begins n (held ++ [x]) rest

theorem deframe_nil (held : List α) : deframe begins n held [] = ([], held) := rfl

/-- A symbol between frames that may not begin one. -/
theorem deframe_drop {x : α} (h : begins x = false) (rest : List α) :
    deframe begins n [] (x :: rest) = deframe begins n [] rest := by
  rw [deframe, if_pos ⟨rfl, h⟩]

/-- A symbol that is taken and does not complete its frame. -/
theorem deframe_take {held : List α} {x : α} (h : held ≠ [] ∨ begins x = true)
    (hlen : held.length + 1 ≠ n) (rest : List α) :
    deframe begins n held (x :: rest) = deframe begins n (held ++ [x]) rest := by
  have htaken : ¬ (held = [] ∧ begins x = false) := by
    rintro ⟨hnil, hdrop⟩
    rcases h with h | h
    · exact h hnil
    · exact absurd (h.symm.trans hdrop) (by decide)
  rw [deframe, if_neg htaken, if_neg hlen]

/-- A symbol that completes a frame. -/
theorem deframe_complete {held : List α} {x : α} (h : held ≠ [] ∨ begins x = true)
    (hlen : held.length + 1 = n) (rest : List α) :
    deframe begins n held (x :: rest) =
      ((held ++ [x]) :: (deframe begins n [] rest).1, (deframe begins n [] rest).2) := by
  have htaken : ¬ (held = [] ∧ begins x = false) := by
    rintro ⟨hnil, hdrop⟩
    rcases h with h | h
    · exact h hnil
    · exact absurd (h.symm.trans hdrop) (by decide)
  rw [deframe, if_neg htaken, if_pos hlen]

/-- One stream after another. -/
theorem deframe_append (first second : List α) : ∀ held : List α,
    deframe begins n held (first ++ second) =
      ((deframe begins n held first).1 ++
          (deframe begins n (deframe begins n held first).2 second).1,
        (deframe begins n (deframe begins n held first).2 second).2) := by
  induction first with
  | nil => exact fun held => rfl
  | cons x rest ih =>
      intro held
      rw [List.cons_append, deframe, deframe]
      split
      · exact ih held
      · split
        · rw [ih []]
          rfl
        · exact ih _

/-- Noise between frames is dropped. -/
theorem deframe_noise {noise : List α} (h : ∀ x ∈ noise, begins x = false) (rest : List α) :
    deframe begins n [] (noise ++ rest) = deframe begins n [] rest := by
  induction noise with
  | nil => rfl
  | cons x noise ih =>
      rw [List.forall_mem_cons] at h
      rw [List.cons_append, deframe_drop h.1]
      exact ih h.2

/-- The rest of a frame that is under way. -/
theorem deframe_finish {held : List α} (hheld : held ≠ []) (symbols rest : List α) :
    symbols ≠ [] → held.length + symbols.length = n →
      deframe begins n held (symbols ++ rest) =
        ((held ++ symbols) :: (deframe begins n [] rest).1, (deframe begins n [] rest).2) := by
  induction symbols generalizing held with
  | nil => exact fun h => absurd rfl h
  | cons x symbols ih =>
      intro _ hlen
      rw [List.length_cons] at hlen
      cases symbols with
      | nil => exact deframe_complete (.inl hheld) (by simpa using hlen) rest
      | cons y symbols =>
          have hnext : (held ++ [x]).length + (y :: symbols).length = n := by
            rw [List.length_append, List.length_singleton]
            omega
          rw [List.length_cons] at hlen
          rw [List.cons_append, deframe_take (.inl hheld) (by omega),
            ih (List.append_ne_nil_of_right_ne_nil _ (List.cons_ne_nil x [])) (List.cons_ne_nil _ _)
              hnext, List.append_assoc]
          rfl

/-- A frame of which the first symbol may begin one, and the rest of the stream. -/
theorem deframe_frame {x : α} {symbols : List α} (hx : begins x = true) (hsymbols : symbols ≠ [])
    (hlen : symbols.length + 1 = n) (rest : List α) :
    deframe begins n [] (x :: symbols ++ rest) =
      ((x :: symbols) :: (deframe begins n [] rest).1, (deframe begins n [] rest).2) := by
  have hpos : 0 < symbols.length := List.length_pos_iff.mpr hsymbols
  rw [List.cons_append, deframe_take (.inr hx) (by simp only [List.length_nil]; omega)]
  exact deframe_finish (by simp) symbols rest hsymbols
    (by simp only [List.nil_append, List.length_cons, List.length_nil]; omega)

/-- Frames with noise before each come out as they were put in. -/
theorem deframe_flatMap {parts : List (List α × α × List α)} (hn : 1 < n)
    (h : ∀ p ∈ parts, (∀ x ∈ p.1, begins x = false) ∧ begins p.2.1 = true ∧ p.2.2.length + 1 = n)
    (rest : List α) :
    deframe begins n [] (parts.flatMap (fun p => p.1 ++ p.2.1 :: p.2.2) ++ rest) =
      (parts.map (fun p => p.2.1 :: p.2.2) ++ (deframe begins n [] rest).1,
        (deframe begins n [] rest).2) := by
  induction parts with
  | nil => rfl
  | cons p parts ih =>
      rw [List.forall_mem_cons] at h
      obtain ⟨⟨hnoise, hbegins, hlen⟩, hparts⟩ := h
      have hsymbols : p.2.2 ≠ [] := List.ne_nil_of_length_pos (by omega)
      rw [List.flatMap_cons, List.append_assoc, List.append_assoc, deframe_noise hnoise,
        deframe_frame hbegins hsymbols hlen, ih hparts]
      rfl

/-- Noise that could complete any frame leaves none unfinished. -/
theorem deframe_resync {noise : List α} (h : ∀ x ∈ noise, begins x = false) : ∀ {held : List α},
    held.length < n → held = [] ∨ n ≤ held.length + noise.length →
      (deframe begins n held noise).2 = [] := by
  induction noise with
  | nil =>
      rintro held hlen (rfl | hfull)
      · rfl
      · exact absurd hlen (Nat.not_lt.mpr hfull)
  | cons x noise ih =>
      intro held hlen hdone
      rw [List.forall_mem_cons] at h
      rw [List.length_cons] at hdone
      by_cases hheld : held = []
      · rw [hheld, deframe_drop h.1]
        exact ih h.2 (by rw [hheld] at hlen; exact hlen) (.inl rfl)
      · by_cases hlast : held.length + 1 = n
        · rw [deframe_complete (.inl hheld) hlast]
          exact ih h.2 (Nat.lt_of_le_of_lt (Nat.zero_le _) hlen) (.inl rfl)
        · have hgrown : (held ++ [x]).length = held.length + 1 := by
            rw [List.length_append, List.length_singleton]
          rw [deframe_take (.inl hheld) hlast]
          refine ih h.2 (by omega) (.inr ?_)
          rcases hdone with hnil | hfull
          · exact absurd hnil hheld
          · omega

/-- Noise completes no frame but the one that is under way. -/
theorem deframe_noise_length_le {noise : List α} (h : ∀ x ∈ noise, begins x = false) :
    ∀ held : List α, (deframe begins n held noise).1.length ≤ 1 := by
  induction noise with
  | nil => exact fun held => Nat.zero_le 1
  | cons x noise ih =>
      intro held
      rw [List.forall_mem_cons] at h
      rw [deframe]
      split
      · exact ih h.2 held
      · split
        · have hrest : deframe begins n [] noise = ([], []) := by
            have hdropped := deframe_noise (n := n) h.2 []
            rwa [List.append_nil, deframe_nil] at hdropped
          rw [hrest]
          exact Nat.le_refl 1
        · exact ih h.2 _

end FalastinOS.Foundation
