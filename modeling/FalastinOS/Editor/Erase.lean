/-
  Editor/Erase.lean --- what backspace and delete take out of the text.

  The text of the buffer is one sequence, its lines with a newline between them, and
  the cursor has an offset in it.  `backspace_char` is meant to take out the character
  before the cursor and `delete_char` the one behind it.  Inside a line they do; at a
  line break they join two lines, and `backspace_char` cuts the joined line to the
  120 characters of a row.  `erase_exact_iff` says that this is the only exception.
-/
import FalastinOS.Editor.Refine

set_option autoImplicit false

namespace FalastinOS.Editor

open FalastinOS.Foundation

namespace Buffer

/-- The length of the string in a row. -/
def rowLength (b : Buffer) (row : Int) : Nat := (cString (b.lines row.toNat)).length

/-- `backspace_char` takes out the character before the cursor and nothing else, and does
nothing at the start of the text. -/
def BackspaceExact (b : Buffer) : Prop :=
  (0 < b.offset → ∃ b', b.backspaceChar = .ok b' ∧ b'.flat = b.flat.eraseIdx (b.offset - 1) ∧
    b'.offset = b.offset - 1) ∧
  (b.offset = 0 → b.backspaceChar = .ok b)

/-- `delete_char` takes out the character behind the cursor and nothing else, and does
nothing at the end of the text. -/
def DeleteExact (b : Buffer) : Prop :=
  (b.offset < b.flat.length → ∃ b', b.deleteChar = .ok b' ∧ b'.flat = b.flat.eraseIdx b.offset ∧
    b'.offset = b.offset) ∧
  (b.offset = b.flat.length → b.deleteChar = .ok b)

section Represents

variable {b : Buffer} {t : Text}

theorem rowLength_at (h : Represents b t) {i : Nat} {s : List UInt8} (hi : t.rows[i]? = some s) :
    b.rowLength i = s.length := by
  rw [rowLength, Int.toNat_natCast,
    (h.lines i s hi).cString_eq (h.bounded.row (List.mem_of_getElem? hi))]

/-- An operation that performs an edit is exact if the edit is. -/
theorem exact_iff_of_performs {r : Except Fault Buffer} {t' : Text} (hperforms : Performs r b t')
    (flat : List UInt8) (offset : Nat) :
    (∃ b', r = .ok b' ∧ b'.flat = flat ∧ b'.offset = offset) ↔
      t'.flat newline = flat ∧ (t'.before newline).length = offset := by
  obtain ⟨b', rfl, hrep, _⟩ := hperforms
  rw [← hrep.flat_eq, ← hrep.offset_eq]
  constructor
  · rintro ⟨b'', hsame, hexact⟩
    obtain rfl := Except.ok.inj hsame
    exact hexact
  · exact fun hexact => ⟨b', rfl, hexact⟩

theorem backspaceExact_iff (h : Represents b t) :
    b.BackspaceExact ↔ (t.left = [] → ∀ previous, t.above.getLast? = some previous →
      previous.length + t.right.length ≤ 120) := by
  rw [BackspaceExact, exact_iff_of_performs (backspaceChar_performs h), h.offset_eq, h.flat_eq]
  by_cases hstart : t.before newline = []
  · -- nothing stands before the cursor
    obtain ⟨habove, hleft⟩ := TextCursor.before_eq_nil_iff.mp hstart
    have hrow : b.cursorRow = 0 := by rw [h.cursorRow, habove]; rfl
    have hcol : b.cursorCol = 0 := by rw [h.cursorCol, hleft]; rfl
    refine iff_of_true ⟨fun hpos => ?_, fun _ => ?_⟩ (fun _ previous hlast => ?_)
    · rw [hstart] at hpos
      exact absurd hpos (by simp)
    · rw [backspaceChar, if_neg (by omega), if_neg (by omega)]
      rfl
    · rw [habove] at hlast
      exact absurd hlast (by simp)
  · have hpos := List.length_pos_iff.mpr hstart
    rw [TextCursor.flat_eraseIdx_before_iff hstart, TextCursor.eraseBefore_exact_iff hstart
      fun previous hprevious => (h.bounded.above previous hprevious).1]
    exact ⟨fun hexact => hexact.1 hpos, fun hfits => ⟨fun _ => hfits, fun hzero => by omega⟩⟩

theorem deleteExact_iff (h : Represents b t) :
    b.DeleteExact ↔ (t.right = [] → ∀ next, t.below.head? = some next →
      t.left.length + next.length ≤ 120) := by
  have hlength : (t.flat newline).length =
      (t.before newline).length + (t.after newline).length := by
    rw [t.flat_eq, List.length_append]
  have hwidth : t.left.length ≤ maxLineLen := by
    have hline := h.bounded.line.1
    rw [TextCursor.line, List.length_append] at hline
    omega
  rw [DeleteExact, exact_iff_of_performs (deleteChar_performs h), h.offset_eq, h.flat_eq]
  by_cases hend : t.after newline = []
  · -- nothing stands behind the cursor
    obtain ⟨hright, hbelow⟩ := TextCursor.after_eq_nil_iff.mp hend
    have hline : t.line = t.left := by rw [TextCursor.line, hright, List.append_nil]
    have hlast : b.lineCount = b.cursorRow + 1 := by
      rw [h.lineCount, h.cursorRow, t.rows_length, hbelow]
      rfl
    refine iff_of_true ⟨fun hlt => ?_, fun _ => ?_⟩ (fun _ next hnext => ?_)
    · rw [hend, List.length_nil] at hlength
      omega
    · rw [deleteChar, lineLen_cursor h, ok_bind, hline]
      rw [if_neg (by rw [h.cursorCol]; omega), if_neg (by omega)]
      rfl
    · rw [hbelow] at hnext
      exact absurd hnext (by simp)
  · have hpos := List.length_pos_iff.mpr hend
    rw [TextCursor.flat_eraseIdx_after_iff, TextCursor.eraseAfter_exact_iff hend hwidth]
    exact ⟨fun hexact => hexact.1 (by omega), fun hfits => ⟨fun _ => hfits, fun hsame => by omega⟩⟩

theorem rowLength_cursor (h : Represents b t) :
    b.rowLength b.cursorRow = t.left.length + t.right.length := by
  rw [h.cursorRow, rowLength_at h (by rw [t.rows_getElem?, if_neg (by omega), if_pos rfl]),
    TextCursor.line, List.length_append]

/-- The line above and the line of the cursor, in the text and in the buffer. -/
theorem joinAbove_iff (h : Represents b t) :
    (t.left = [] → ∀ previous, t.above.getLast? = some previous →
      previous.length + t.right.length ≤ 120) ↔
    (b.cursorCol = 0 → 0 < b.cursorRow →
      b.rowLength (b.cursorRow - 1) + b.rowLength b.cursorRow ≤ 120) := by
  have hrow := h.cursorRow
  have hcol := h.cursorCol
  have hline := rowLength_cursor h
  rw [← List.length_eq_zero_iff]
  rcases List.eq_nil_or_concat t.above with habove | ⟨init, previous, habove⟩
  · rw [habove] at hrow ⊢
    refine iff_of_true (fun _ previous hlast => absurd hlast (by simp)) (fun _ hpos => ?_)
    rw [hrow] at hpos
    exact absurd hpos (by simp)
  · rw [List.concat_eq_append] at habove
    have hlength : t.above.length = init.length + 1 := by
      rw [habove, List.length_append, List.length_cons, List.length_nil]
    have hprevious : b.rowLength (b.cursorRow - 1) = previous.length := by
      rw [show b.cursorRow - 1 = (init.length : Int) by omega, rowLength_at h]
      rw [t.rows_getElem?, if_pos (by omega), habove, List.getElem?_concat_length]
    rw [habove, List.getLast?_concat, hprevious, hline]
    simp only [Option.some.injEq, forall_eq']
    omega

/-- The line of the cursor and the line below it. -/
theorem joinBelow_iff (h : Represents b t) :
    (t.right = [] → ∀ next, t.below.head? = some next →
      t.left.length + next.length ≤ 120) ↔
    (b.cursorCol = b.rowLength b.cursorRow → b.cursorRow + 1 < b.lineCount →
      b.rowLength b.cursorRow + b.rowLength (b.cursorRow + 1) ≤ 120) := by
  have hrow := h.cursorRow
  have hcol := h.cursorCol
  have hcount := h.lineCount
  have hrows := t.rows_length
  have hline := rowLength_cursor h
  rw [← List.length_eq_zero_iff]
  cases hbelow : t.below with
  | nil =>
      rw [hbelow, List.length_nil] at hrows
      refine iff_of_true (fun _ next hnext => absurd hnext (by simp)) (fun _ hlt => ?_)
      omega
  | cons next below =>
      rw [hbelow, List.length_cons] at hrows
      have hnext : b.rowLength (b.cursorRow + 1) = next.length := by
        rw [show b.cursorRow + 1 = (t.above.length + 1 : Nat) by omega, rowLength_at h]
        rw [t.rows_getElem?, if_neg (by omega), if_neg (by omega), hbelow,
          Nat.add_sub_cancel_left, Nat.sub_self, List.getElem?_cons_zero]
      rw [List.head?_cons, hnext, hline]
      simp only [Option.some.injEq, forall_eq']
      omega

end Represents

/-- Backspace and delete take out exactly one character, except where they join two
lines that together are longer than a row. -/
theorem erase_exact_iff {b : Buffer} (h : EditorInv b) :
    (b.BackspaceExact ↔ (b.cursorCol = 0 → 0 < b.cursorRow →
      b.rowLength (b.cursorRow - 1) + b.rowLength b.cursorRow ≤ 120)) ∧
    (b.DeleteExact ↔ (b.cursorCol = b.rowLength b.cursorRow → b.cursorRow + 1 < b.lineCount →
      b.rowLength b.cursorRow + b.rowLength (b.cursorRow + 1) ≤ 120)) := by
  have hrep := h.represents
  constructor
  · rw [backspaceExact_iff hrep, joinAbove_iff hrep]
  · rw [deleteExact_iff hrep, joinBelow_iff hrep]

/-- Two empty lines, the cursor in the second. -/
def secondBlank : Buffer := { blankBuffer 2 with cursorRow := 1 }

theorem erase_exact_iff_secondBlank :
    EditorInv secondBlank ∧ secondBlank.offset = 1 ∧ secondBlank.BackspaceExact ∧
      secondBlank.DeleteExact := by
  have hinv : EditorInv secondBlank :=
    ⟨by decide, fun _ _ => ⟨0, by decide, rfl⟩, by decide, by decide, by decide⟩
  obtain ⟨hbackspace, hdelete⟩ := erase_exact_iff hinv
  exact ⟨hinv, by decide, hbackspace.mpr (by decide), hdelete.mpr (by decide)⟩

/-- A full line and a line `b` below it, the cursor at the start of the second. -/
def longJoin : Buffer where
  lines := fun row col => if row = 0 ∧ col < 120 then 97 else if row = 1 ∧ col = 0 then 98 else 0
  lineCount := 2
  cursorRow := 1
  cursorCol := 0
  topLine := 0
  dirty := false

/-- Joining them loses the `b`. -/
theorem backspace_loses_longJoin :
    EditorInv longJoin ∧ longJoin.offset = 121 ∧
      longJoin.flat.eraseIdx 120 = List.replicate 120 97 ++ [98] ∧
      (∃ b', longJoin.backspaceChar = .ok b' ∧ b'.flat = List.replicate 120 97) ∧
      ¬ longJoin.BackspaceExact := by
  have hinv : EditorInv longJoin := by
    refine ⟨by decide, fun i hi => ⟨120, by decide, by simp [longJoin]⟩, by decide,
      ⟨by decide, Int.natCast_nonneg _⟩, ?_⟩
    decide +kernel
  have hoffset : longJoin.offset = 121 := by decide +kernel
  have hflat : longJoin.flat.eraseIdx 120 = List.replicate 120 97 ++ [98] := by decide +kernel
  obtain ⟨b', hdone, hrep, _⟩ := backspaceChar_performs hinv.represents
  have hjoined : b'.flat = List.replicate 120 97 := by
    rw [hrep.flat_eq]
    decide +kernel
  refine ⟨hinv, hoffset, hflat, ⟨b', hdone, hjoined⟩, fun hexact => ?_⟩
  obtain ⟨b'', hsame, hexact, _⟩ := hexact.1 (by omega)
  obtain rfl : b'' = b' := Except.ok.inj (hsame.symm.trans hdone)
  rw [hoffset, hjoined, hflat] at hexact
  exact absurd (congrArg List.length hexact) (by simp)

end Buffer

end FalastinOS.Editor
