/-
  Editor/Insert.lean --- what insertions put into the text, and how they are undone.

  `insert_char` and `insert_newline` put one character into the text at the offset of
  the cursor and step over it, or do nothing where the row or the table of rows is
  full.  Backspace right after an insertion that did something gives the old rows and
  the old cursor back.  The bytes behind the terminators of the rows are not restored,
  and the buffer stays marked as changed.
-/
import FalastinOS.Editor.Erase

set_option autoImplicit false

namespace FalastinOS.Editor

open FalastinOS.Foundation

namespace Buffer

/-- The rows in use and the cursor are the same. -/
structure SameText (b b' : Buffer) : Prop where
  rows : b'.rows = b.rows
  lineCount : b'.lineCount = b.lineCount
  cursorRow : b'.cursorRow = b.cursorRow
  cursorCol : b'.cursorCol = b.cursorCol

/-- The result of an operation on `b` that inserts `c` at the cursor and steps over it,
and that backspace undoes. -/
def Inserts (b : Buffer) (c : UInt8) (r : Except Fault Buffer) : Prop :=
  ∃ b', r = .ok b' ∧ b'.flat = b.flat.insertIdx b.offset c ∧ b'.offset = b.offset + 1 ∧
    ∃ b'', b'.backspaceChar = .ok b'' ∧ SameText b b''

section Represents

variable {b b' : Buffer} {t t' : Text}

theorem SameText.of_represents (h : Represents b t) (h' : Represents b' t) : SameText b b' where
  rows := by rw [h.rows_eq, h'.rows_eq]
  lineCount := by rw [h.lineCount, h'.lineCount]
  cursorRow := by rw [h.cursorRow, h'.cursorRow]
  cursorCol := by rw [h.cursorCol, h'.cursorCol]

theorem offset_le (h : Represents b t) : b.offset ≤ b.flat.length := by
  rw [h.offset_eq, h.flat_eq, t.flat_eq, List.length_append]
  exact Nat.le_add_right _ _

/-- An operation that performs an insertion of the text which erasing undoes. -/
theorem inserts_of_performs (h : Represents b t) {c : UInt8} {r : Except Fault Buffer}
    (hperforms : Performs r b t')
    (hflat : t'.flat newline = (t.flat newline).insertIdx (t.before newline).length c ∧
      (t'.before newline).length = (t.before newline).length + 1)
    (hundo : t'.eraseBefore maxLineLen = t) : Inserts b c r := by
  obtain ⟨b', hdone, hrep, -⟩ := hperforms
  obtain ⟨b'', hback, hrep', -⟩ := backspaceChar_performs hrep
  rw [hundo] at hrep'
  refine ⟨b', hdone, ?_, ?_, b'', hback, SameText.of_represents h hrep'⟩
  · rw [hrep.flat_eq, h.flat_eq, h.offset_eq, hflat.1]
  · rw [hrep.offset_eq, h.offset_eq, hflat.2]

theorem insertChar_full (h : Represents b t) (c : UInt8) (hfull : 120 ≤ b.rowLength b.cursorRow) :
    b.insertChar c = .ok b := by
  rw [rowLength_cursor h, ← List.length_append] at hfull
  rw [insertChar, lineLen_cursor h, ok_bind, if_pos (by rw [TextCursor.line]; omega)]
  rfl

theorem insertNewline_full (hfull : 128 ≤ b.lineCount) : b.insertNewline = .ok b := by
  rw [insertNewline, if_pos hfull]
  rfl

end Represents

/-- A character is inserted at the cursor if the row has room and a newline if the table
has, nothing changes otherwise, and backspace undoes either. -/
theorem insertions_exact {b : Buffer} (h : EditorInv b) :
    b.offset ≤ b.flat.length ∧
    (∀ c : UInt8, 32 ≤ c ∧ c ≤ 126 →
      (b.rowLength b.cursorRow < 120 → Inserts b c (b.insertChar c)) ∧
      (120 ≤ b.rowLength b.cursorRow → b.insertChar c = .ok b)) ∧
    (b.lineCount < 128 → Inserts b newline b.insertNewline) ∧
    (128 ≤ b.lineCount → b.insertNewline = .ok b) := by
  have hrep := h.represents
  refine ⟨offset_le hrep, fun c hc => ⟨fun hroom => ?_, insertChar_full hrep c⟩,
    fun hroom => ?_, insertNewline_full⟩
  · have hline : b.text.line.length < maxLineLen := by
      rw [TextCursor.line, List.length_append, ← rowLength_cursor hrep]
      exact hroom
    have hne : c ≠ 0 := by
      intro hzero
      rw [hzero] at hc
      exact absurd hc.1 (by decide)
    exact inserts_of_performs hrep (insertChar_performs hrep hne) (TextCursor.flat_insert hline)
      (TextCursor.eraseBefore_insert hline)
  · have hrows : b.text.rows.length < maxLines := by
      have hcount := hrep.lineCount
      rw [show maxLines = 128 from rfl]
      omega
    exact inserts_of_performs hrep (insertNewline_performs hrep) (TextCursor.flat_split hrows)
      (TextCursor.eraseBefore_split hrows hrep.bounded.line.1)

theorem insertions_exact_secondBlank :
    EditorInv secondBlank ∧ secondBlank.offset = 1 ∧
      Inserts secondBlank 97 (secondBlank.insertChar 97) ∧
      Inserts secondBlank newline secondBlank.insertNewline := by
  have hinv : EditorInv secondBlank :=
    ⟨by decide, fun _ _ => ⟨0, by decide, rfl⟩, by decide, by decide, by decide⟩
  obtain ⟨-, hchar, hnewline, -⟩ := insertions_exact hinv
  exact ⟨hinv, by decide, (hchar 97 (by decide)).1 (by decide), hnewline (by decide)⟩

end Buffer

end FalastinOS.Editor
