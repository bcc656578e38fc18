/-
  Editor/Document.lean --- what the buffer of the editor stands for.

  A line of the table stands for the C string it holds, and the buffer for the text
  of its first `line_count` lines with a cursor in it.  `Represents` relates a
  buffer to such a text; the text keeps the bounds of the table by itself: at most
  128 lines, at most 120 characters each, none of them NUL.

  `EditorInv` says about the buffer alone that it stands for some text: see
  `Represents.inv` and `EditorInv.represents`.
-/
import FalastinOS.Editor.Buffer
import FalastinOS.Foundation.CString
import FalastinOS.Foundation.TextCursor

set_option autoImplicit false

namespace FalastinOS.Editor

open FalastinOS.Foundation

/-! ## Lines -/

/-- The C string in a line of the table. -/
def cString (line : Mem) : List UInt8 := CharArray.toCStr fun k : Fin 121 => line k.val

/-- The line holds the string `s`, terminator included. -/
def HoldsString (line : Mem) (s : List UInt8) : Prop := ∀ k, k ≤ s.length → line k = s.getD k 0

/-- A string a line has room for. -/
abbrev FitsLine (s : List UInt8) : Prop := TextCursor.Fits maxLineLen (· ≠ 0) s

theorem FitsLine.length_le {s : List UInt8} (h : FitsLine s) : s.length ≤ 120 := h.1

theorem FitsLine.getD_ne_zero {s : List UInt8} (h : FitsLine s) {k : Nat} (hk : k < s.length) :
    s.getD k 0 ≠ 0 := by
  rw [List.getD_eq_getElem _ _ hk]
  exact h.2 _ (List.getElem_mem hk)

theorem HoldsString.terminator {line : Mem} {s : List UInt8} (h : HoldsString line s) :
    line s.length = 0 := by
  rw [h s.length (Nat.le_refl _), List.getD_eq_default _ _ (Nat.le_refl _)]

theorem HoldsString.byte_ne_zero {line : Mem} {s : List UInt8} (h : HoldsString line s)
    (hs : FitsLine s) {k : Nat} (hk : k < s.length) : line k ≠ 0 := by
  rw [h k (Nat.le_of_lt hk)]
  exact hs.getD_ne_zero hk

theorem HoldsString.cString_eq {line : Mem} {s : List UInt8} (h : HoldsString line s)
    (hs : FitsLine s) : cString line = s := by
  have hlen := hs.length_le
  rw [cString, CharArray.toCStr_eq_iff _ fun hmem => hs.2 0 hmem rfl]
  refine ⟨by omega, fun k => ⟨fun hk => ?_, fun hk => ?_⟩⟩
  · rw [h k.val (Nat.le_of_lt hk), List.getD_eq_getElem _ _ hk]
  · rw [hk, h.terminator]

/-- A line with a terminator holds its C string. -/
theorem holdsString_cString {line : Mem} (h : ∃ k, k < 121 ∧ line k = 0) :
    FitsLine (cString line) ∧ HoldsString line (cString line) := by
  obtain ⟨k, hk, hzero⟩ := h
  have hne : ∀ x ∈ cString line, x ≠ 0 := by
    rintro x hx rfl
    exact CharArray.zero_notMem_toCStr _ hx
  obtain ⟨hlen, hbytes⟩ := (CharArray.toCStr_eq_iff (fun k : Fin 121 => line k.val)
    fun hmem => hne 0 hmem rfl).mp (show _ = cString line from rfl)
  have hle : (cString line).length ≤ k := by
    by_contra hlong
    have hj : k < (cString line).length := Nat.lt_of_not_le hlong
    refine hne _ (List.getElem_mem hj) ?_
    rw [← (hbytes ⟨k, hk⟩).1 hj]
    exact hzero
  refine ⟨⟨show (cString line).length ≤ 120 by omega, hne⟩, fun j hj => ?_⟩
  have hj121 : j < 121 := by omega
  rcases Nat.lt_or_eq_of_le hj with hlt | heq
  · rw [List.getD_eq_getElem _ _ hlt]
    exact (hbytes ⟨j, hj121⟩).1 hlt
  · rw [List.getD_eq_default _ _ (Nat.le_of_eq heq.symm)]
    exact (hbytes ⟨j, hj121⟩).2 heq

/-- The length `strlen` finds. -/
theorem strlenLoop_eq {line : Mem} {len : Nat} (hzero : line len = 0) (n : Nat) :
    ∀ i, i ≤ len → len < i + n → (∀ k, i ≤ k → k < len → line k ≠ 0) →
      Buffer.strlenLoop line n i = some len := by
  induction n with
  | zero => exact fun i hi hlen _ => absurd hlen (by omega)
  | succ n ih =>
      intro i hi hlen hne
      rw [Buffer.strlenLoop]
      split
      · rename_i hstop
        rcases Nat.lt_or_eq_of_le hi with hlt | heq
        · exact absurd hstop (hne i (Nat.le_refl i) hlt)
        · rw [heq]
      · rename_i hgo
        have hlt : i < len := Nat.lt_of_le_of_ne hi fun heq => hgo (heq ▸ hzero)
        exact ih (i + 1) hlt (by omega) fun k hk => hne k (by omega)

theorem HoldsString.strlen {line : Mem} {s : List UInt8} (h : HoldsString line s)
    (hs : FitsLine s) : Buffer.strlenLoop line 121 0 = some s.length :=
  strlenLoop_eq h.terminator 121 0 (Nat.zero_le _) (by have := hs.length_le; omega)
    fun _ _ hk => h.byte_ne_zero hs hk

/-! ## Edits of a line -/

theorem HoldsString.congr {line line' : Mem} {s : List UInt8} (h : HoldsString line s)
    (heq : ∀ k, k ≤ s.length → line' k = line k) : HoldsString line' s :=
  fun k hk => (heq k hk).trans (h k hk)

/-- A character inserted. -/
theorem HoldsString.insert {line line' : Mem} {l r : List UInt8} {c : UInt8}
    (h : HoldsString line (l ++ r)) (heq : ∀ k, k ≤ l.length + r.length + 1 → line' k =
      if k < l.length then line k else if k = l.length then c else line (k - 1)) :
    HoldsString line' ((l ++ [c]) ++ r) := by
  intro k hk
  simp only [List.length_append, List.length_cons, List.length_nil] at hk
  have hlen : (l ++ r).length = l.length + r.length := List.length_append
  rw [heq k (by omega), List.append_assoc]
  split
  · rename_i hlt
    rw [h k (by omega), List.getD_append _ _ _ _ hlt, List.getD_append _ _ _ _ hlt]
  · split
    · rename_i heq
      rw [heq, List.getD_append_right _ _ _ _ (Nat.le_refl _), Nat.sub_self]
      rfl
    · rw [h (k - 1) (by omega), List.getD_append_right _ _ _ _ (by omega),
        List.getD_append_right _ _ _ _ (by omega),
        show k - l.length = k - 1 - l.length + 1 by omega]
      rfl

/-- A character erased. -/
theorem HoldsString.erase {line line' : Mem} {l r : List UInt8} {c : UInt8}
    (h : HoldsString line (l ++ c :: r)) (heq : ∀ k, k ≤ l.length + r.length → line' k =
      if k < l.length then line k else line (k + 1)) : HoldsString line' (l ++ r) := by
  intro k hk
  rw [List.length_append] at hk
  have hlen : (l ++ c :: r).length = l.length + (r.length + 1) := by
    rw [List.length_append, List.length_cons]
  rw [heq k hk]
  split
  · rename_i hlt
    rw [h k (by omega), List.getD_append _ _ _ _ hlt, List.getD_append _ _ _ _ hlt]
  · rw [h (k + 1) (by omega), List.getD_append_right _ _ _ _ (by omega),
      List.getD_append_right _ _ _ _ (by omega), show k + 1 - l.length = k - l.length + 1 by omega]
    rfl

/-- The first part of a line. -/
theorem HoldsString.left {line line' : Mem} {l r : List UInt8} (h : HoldsString line (l ++ r))
    (heq : ∀ k, k < l.length → line' k = line k) (hend : line' l.length = 0) :
    HoldsString line' l := by
  intro k hk
  rcases Nat.lt_or_eq_of_le hk with hlt | rfl
  · rw [heq k hlt, h k (by rw [List.length_append]; omega), List.getD_append _ _ _ _ hlt]
  · rw [hend, List.getD_eq_default _ _ (Nat.le_refl _)]

/-- The second part of a line. -/
theorem HoldsString.right {line line' : Mem} {l r : List UInt8} (h : HoldsString line (l ++ r))
    (heq : ∀ k, k ≤ r.length → line' k = line (l.length + k)) : HoldsString line' r := by
  intro k hk
  rw [heq k hk, h _ (by rw [List.length_append]; omega),
    List.getD_append_right _ _ _ _ (by omega), Nat.add_sub_cancel_left]

/-- The start of a line put behind another one. -/
theorem HoldsString.join {line line' joined : Mem} {s s' : List UInt8} {n : Nat}
    (h : HoldsString line s) (h' : HoldsString line' s') (hn : n ≤ s'.length)
    (hfirst : ∀ k, k < s.length → joined k = line k)
    (hsecond : ∀ k, k < n → joined (s.length + k) = line' k)
    (hend : joined (s.length + n) = 0) : HoldsString joined (s ++ s'.take n) := by
  have hlen : (s ++ s'.take n).length = s.length + n := by
    rw [List.length_append, List.length_take]
    omega
  intro k hk
  rcases Nat.lt_or_ge k s.length with hlt | hge
  · rw [hfirst k hlt, h k (by omega), List.getD_append _ _ _ _ hlt]
  · rcases Nat.lt_or_eq_of_le hk with hlt | heq
    · have hjoined := hsecond (k - s.length) (by omega)
      rw [Nat.add_sub_cancel' hge] at hjoined
      rw [hjoined, h' _ (by omega), List.getD_append_right _ _ _ _ hge,
        List.getD_eq_getElem?_getD, List.getD_eq_getElem?_getD,
        List.getElem?_take_of_lt (by omega)]
    · rw [heq, hlen, hend, ← hlen, List.getD_eq_default _ _ (Nat.le_refl _)]

/-! ## The buffer -/

namespace Buffer

/-- The strings of the lines in use. -/
def rows (b : Buffer) : List (List UInt8) :=
  (List.range b.lineCount.toNat).map fun i => cString (b.lines i)

/-- The text of the buffer: its lines, with a newline between them. -/
def flat (b : Buffer) : List UInt8 := [newline].intercalate b.rows

/-- The offset of the cursor in the text: the lines above it with their newlines, and
the column. -/
def offset (b : Buffer) : Nat :=
  ((b.rows.take b.cursorRow.toNat).map fun row => row.length + 1).sum + b.cursorCol.toNat

end Buffer

/-- The text of the editor with its cursor. -/
abbrev Text : Type := TextCursor UInt8

/-- The buffer stands for the text. -/
structure Represents (b : Buffer) (t : Text) : Prop where
  bounded : t.Bounded maxLineLen maxLines (· ≠ 0)
  lineCount : b.lineCount = (t.rows.length : Int)
  cursorRow : b.cursorRow = (t.above.length : Int)
  cursorCol : b.cursorCol = (t.left.length : Int)
  lines : ∀ i s, t.rows[i]? = some s → HoldsString (b.lines i) s

/-- What every operation of the editor keeps. -/
structure EditorInv (b : Buffer) : Prop where
  lineCount : 1 ≤ b.lineCount ∧ b.lineCount ≤ 128
  terminated : ∀ i : Nat, (i : Int) < b.lineCount → ∃ k, k < 121 ∧ b.lines i k = 0
  cursorRow : 0 ≤ b.cursorRow ∧ b.cursorRow < b.lineCount
  cursorCol : 0 ≤ b.cursorCol ∧ b.cursorCol ≤ (cString (b.lines b.cursorRow.toNat)).length
  lineLen : (cString (b.lines b.cursorRow.toNat)).length ≤ 120

section Represents

variable {b : Buffer} {t : Text}

theorem Represents.rows_eq (h : Represents b t) : b.rows = t.rows := by
  have hcount : b.lineCount.toNat = t.rows.length := by rw [h.lineCount, Int.toNat_natCast]
  refine List.ext_getElem (by simp [Buffer.rows, hcount]) fun i _ hi => ?_
  simp only [Buffer.rows, List.getElem_map, List.getElem_range]
  exact (h.lines i _ (List.getElem?_eq_getElem hi)).cString_eq (h.bounded.row (List.getElem_mem hi))

theorem Represents.flat_eq (h : Represents b t) : b.flat = t.flat newline := by
  rw [Buffer.flat, h.rows_eq, TextCursor.flat]

theorem Represents.offset_eq (h : Represents b t) : b.offset = (t.before newline).length := by
  rw [Buffer.offset, h.rows_eq, h.cursorRow, h.cursorCol, Int.toNat_natCast, Int.toNat_natCast,
    TextCursor.rows, List.take_left, TextCursor.before, List.length_append, List.length_flatMap]
  simp

theorem Represents.line (h : Represents b t) : HoldsString (b.lines t.above.length) t.line :=
  h.lines _ _ (by simp [TextCursor.rows])

theorem Represents.above (h : Represents b t) {i : Nat} {s : List UInt8}
    (hi : t.above[i]? = some s) : HoldsString (b.lines i) s := by
  have hlt := (List.getElem?_eq_some_iff.mp hi).1
  exact h.lines i s (by rw [t.rows_getElem?, if_pos hlt, hi])

theorem Represents.below (h : Represents b t) {j : Nat} {s : List UInt8}
    (hj : t.below[j]? = some s) : HoldsString (b.lines (t.above.length + 1 + j)) s := by
  refine h.lines _ s ?_
  rw [t.rows_getElem?, if_neg (by omega), if_neg (by omega), ← hj]
  congr 1
  omega

/-- A buffer stands for a text when its three parts are where they belong. -/
theorem Represents.of_parts (bounded : t.Bounded maxLineLen maxLines (· ≠ 0))
    (lineCount : b.lineCount = ((t.above.length + (t.below.length + 1) : Nat) : Int))
    (cursorRow : b.cursorRow = (t.above.length : Int))
    (cursorCol : b.cursorCol = (t.left.length : Int))
    (above : ∀ i s, t.above[i]? = some s → HoldsString (b.lines i) s)
    (line : HoldsString (b.lines t.above.length) t.line)
    (below : ∀ j s, t.below[j]? = some s → HoldsString (b.lines (t.above.length + 1 + j)) s) :
    Represents b t := by
  refine ⟨bounded, by rw [t.rows_length, lineCount], cursorRow, cursorCol, fun i s hi => ?_⟩
  rw [t.rows_getElem?] at hi
  split at hi
  · exact above i s hi
  · split at hi
    · rename_i heq
      obtain rfl := Option.some.inj hi
      rw [heq]
      exact line
    · have := below _ s hi
      rwa [show t.above.length + 1 + (i - t.above.length - 1) = i by omega] at this

/-- An edit of the line of the cursor. -/
theorem Represents.edit_line {b' : Buffer} {t' : Text} (h : Represents b t)
    (bounded : t'.Bounded maxLineLen maxLines (· ≠ 0)) (habove : t'.above = t.above)
    (hbelow : t'.below = t.below) (lineCount : b'.lineCount = b.lineCount)
    (cursorRow : b'.cursorRow = b.cursorRow) (cursorCol : b'.cursorCol = (t'.left.length : Int))
    (others : ∀ i, i ≠ t.above.length → b'.lines i = b.lines i)
    (line : HoldsString (b'.lines t.above.length) t'.line) : Represents b' t' := by
  refine Represents.of_parts bounded ?_ (by rw [cursorRow, habove, h.cursorRow]) cursorCol
    (fun i s hi => ?_) (habove ▸ line) (fun j s hj => ?_)
  · rw [lineCount, h.lineCount, t.rows_length, habove, hbelow]
  · rw [habove] at hi
    rw [others i (Nat.ne_of_lt (List.getElem?_eq_some_iff.mp hi).1)]
    exact h.above hi
  · rw [hbelow] at hj
    rw [habove, others _ (by omega)]
    exact h.below hj

theorem Represents.inv (h : Represents b t) : EditorInv b := by
  have hcount := h.bounded.count
  have hrows := t.rows_length
  have hrow := h.cursorRow
  have hlineCount := h.lineCount
  have hcString := h.line.cString_eq h.bounded.line
  have hwidth : t.line.length ≤ 120 := h.bounded.line.1
  rw [show maxLines = 128 from rfl] at hcount
  refine ⟨by omega, fun i hi => ?_, by omega, ?_, ?_⟩
  · have hlt : i < t.rows.length := by omega
    have hfits := FitsLine.length_le (h.bounded.row (List.getElem_mem hlt))
    exact ⟨_, by omega, (h.lines i _ (List.getElem?_eq_getElem hlt)).terminator⟩
  · rw [hrow, Int.toNat_natCast, hcString, h.cursorCol, TextCursor.line, List.length_append]
    omega
  · rw [hrow, Int.toNat_natCast, hcString]
    exact hwidth

end Represents

/-- The text a buffer stands for. -/
def Buffer.text (b : Buffer) : Text :=
  let row := b.rows.getD b.cursorRow.toNat []
  ⟨b.rows.take b.cursorRow.toNat, row.take b.cursorCol.toNat, row.drop b.cursorCol.toNat,
    b.rows.drop (b.cursorRow.toNat + 1)⟩

/-- A buffer with the invariant stands for its text. -/
theorem EditorInv.represents {b : Buffer} (h : EditorInv b) : Represents b b.text := by
  obtain ⟨hcountLow, hcountHigh⟩ := h.lineCount
  obtain ⟨hrowLow, hrowHigh⟩ := h.cursorRow
  obtain ⟨hcolLow, hcolHigh⟩ := h.cursorCol
  have hlength : b.rows.length = b.lineCount.toNat := by simp [Buffer.rows]
  have hget : ∀ i, i < b.lineCount.toNat → b.rows[i]? = some (cString (b.lines i)) := by
    intro i hi
    simp [Buffer.rows, hi]
  have hlt : b.cursorRow.toNat < b.rows.length := by omega
  have hrow : b.rows.getD b.cursorRow.toNat [] = cString (b.lines b.cursorRow.toNat) := by
    rw [List.getD_eq_getElem?_getD, hget _ (by omega), Option.getD_some]
  have hrows : b.text.rows = b.rows := by
    have hcons := List.getElem_cons_drop hlt
    rw [← List.getD_eq_getElem _ [] hlt] at hcons
    simp only [Buffer.text, TextCursor.rows, TextCursor.line, List.take_append_drop, hcons]
  have hfits : ∀ row ∈ b.rows, FitsLine row := by
    intro row hmem
    obtain ⟨i, hi, rfl⟩ := List.mem_map.mp hmem
    rw [List.mem_range] at hi
    exact (holdsString_cString (h.terminated i (by omega))).1
  refine ⟨⟨?_, ?_, ?_, ?_⟩, ?_, ?_, ?_, ?_⟩
  · rw [← TextCursor.rows_length, hrows, hlength]
    exact show _ ≤ 128 by omega
  · exact fun row hmem => hfits row (List.mem_of_mem_take hmem)
  · exact hfits _ (hrows ▸ b.text.mem_rows.mpr (Or.inr (Or.inl rfl)))
  · exact fun row hmem => hfits row (List.mem_of_mem_drop hmem)
  · rw [hrows, hlength]
    omega
  · simp only [Buffer.text, List.length_take]
    omega
  · simp only [Buffer.text, List.length_take, hrow]
    omega
  · intro i s hi
    rw [hrows] at hi
    have hbound : i < b.lineCount.toNat := by
      rw [← hlength]
      exact (List.getElem?_eq_some_iff.mp hi).1
    rw [hget i hbound] at hi
    obtain rfl := Option.some.inj hi
    exact (holdsString_cString (h.terminated i (by omega))).2

/-- A buffer of so many empty lines. -/
def blankBuffer (lineCount : Nat) : Buffer where
  lines := fun _ _ => 0
  lineCount := lineCount
  cursorRow := 0
  cursorCol := 0
  topLine := 0
  dirty := false

theorem editorInv_blankBuffer {n : Nat} (hlow : 0 < n) (hhigh : n ≤ 128) :
    EditorInv (blankBuffer n) :=
  ⟨⟨by simp only [blankBuffer]; omega, by simp only [blankBuffer]; omega⟩,
    fun _ _ => ⟨0, by decide, rfl⟩, ⟨Int.le_refl 0, by simp only [blankBuffer]; omega⟩,
    ⟨Int.le_refl 0, Int.natCast_nonneg _⟩, Nat.zero_le 120⟩

theorem rows_blankBuffer (n : Nat) : (blankBuffer n).rows = List.replicate n [] := by
  have hempty : cString (fun _ => 0) = [] := by decide
  rw [Buffer.rows, blankBuffer, Int.toNat_natCast]
  simp only [hempty]
  rw [List.map_const', List.length_range]

end FalastinOS.Editor
