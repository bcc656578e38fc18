/-
  Gui/Grid.lean --- the grid of `term_io.c` shows the end of the output.

  The output of a terminal that never scrolls is a list of rows.  A character goes to
  the end of the last row, a row with 75 characters is followed by a new one, a newline
  starts a new one, and a backspace takes the last character of the last row, if it has
  any.  `print_showsTail` says that the grid is the last 30 rows of this layout, after
  any number of scrolls.
-/
import FalastinOS.Gui.Console

set_option autoImplicit false

namespace FalastinOS.Gui

open FalastinOS.Foundation

/-- Text in rows: the last row, which has the cursor at its end, and those above it. -/
structure Layout where
  above : List (List UInt8)
  current : List UInt8

namespace Layout

def empty : Layout := ⟨[], []⟩

def rows (l : Layout) : List (List UInt8) := l.above ++ [l.current]

/-- One more character. -/
def put (l : Layout) (c : UInt8) : Layout :=
  if c = 10 then ⟨l.above ++ [l.current], []⟩
  else if c = 8 then ⟨l.above, l.current.dropLast⟩
  else if 32 ≤ c ∧ c ≤ 126 then
    if 75 ≤ l.current.length + 1 then ⟨l.above ++ [l.current ++ [c]], []⟩
    else ⟨l.above, l.current ++ [c]⟩
  else l

def print (l : Layout) (str : List UInt8) : Layout := str.foldl put l

/-- The last 30 rows. -/
def lastRows (l : Layout) : List (List UInt8) := l.rows.drop (l.rows.length - 30)

/-- The character in a row and a column of the layout; NUL where there is none. -/
def cell (l : Layout) (r k : Nat) : UInt8 := (l.rows.getD r []).getD k 0

end Layout

/-- The grid shows the last rows of the layout, and nothing from the cursor on. -/
structure ShowsTail (t : TermIo) (l : Layout) : Prop where
  row : t.row < 30
  col : t.col < 75
  blank : ∀ r k, r < 30 → k < 75 → t.row < r ∨ (t.row = r ∧ t.col ≤ k) → t.output r k = 0
  shown : ∀ r k, r < 30 → k < 75 → t.output r k = (l.lastRows.getD r []).getD k 0

/-! ## Rows -/

theorem getD_concat {α : Type} (xs : List α) (a d : α) (k : Nat) :
    (xs ++ [a]).getD k d = if k = xs.length then a else xs.getD k d := by
  rcases Nat.lt_trichotomy k xs.length with hlt | rfl | hgt
  · rw [List.getD_append _ _ _ _ hlt, if_neg (Nat.ne_of_lt hlt)]
  · rw [List.getD_append_right _ _ _ _ (Nat.le_refl _), Nat.sub_self, if_pos rfl]
    rfl
  · have hlength : (xs ++ [a]).length ≤ k := by
      rw [List.length_append, List.length_singleton]
      omega
    rw [List.getD_eq_default _ _ hlength, if_neg (Nat.ne_of_gt hgt),
      List.getD_eq_default _ _ (Nat.le_of_lt hgt)]

theorem getD_dropLast (xs : List UInt8) (k : Nat) :
    xs.dropLast.getD k 0 = if k + 1 = xs.length then 0 else xs.getD k 0 := by
  cases hxs : xs.reverse with
  | nil =>
      obtain rfl := List.reverse_eq_nil_iff.mp hxs
      rfl
  | cons c ys =>
      obtain rfl : xs = ys.reverse ++ [c] := by
        rw [← List.reverse_cons, ← hxs, List.reverse_reverse]
      rw [List.dropLast_concat, getD_concat, List.length_append, List.length_singleton]
      by_cases hk : k = ys.reverse.length
      · rw [if_pos (by omega), hk, List.getD_eq_default _ _ (Nat.le_refl _)]
      · rw [if_neg (by omega), if_neg hk]

namespace Layout

theorem cell_eq (above : List (List UInt8)) (current : List UInt8) (r k : Nat) :
    cell ⟨above, current⟩ r k =
      if r = above.length then current.getD k 0 else (above.getD r []).getD k 0 := by
  rw [cell, rows, getD_concat]
  split <;> rfl

/-- A new row is empty. -/
theorem cell_newRow (above : List (List UInt8)) (current : List UInt8) (r k : Nat) :
    cell ⟨above ++ [current], []⟩ r k = cell ⟨above, current⟩ r k := by
  rw [cell_eq, cell_eq, getD_concat, List.length_append, List.length_singleton]
  by_cases hlast : r = above.length + 1
  · rw [if_pos hlast, if_neg (by omega), hlast, List.getD_eq_default _ _ (Nat.le_succ _)]
  · rw [if_neg hlast]
    split <;> rfl

end Layout

/-! ## One character -/

/-- The grid as it is before it scrolls: the rows of the layout from `topLine` on, the
last of them possibly below the grid and then empty. -/
structure Pictures (t : TermIo) (l : Layout) : Prop where
  active : t.active = true
  row : t.topLine + t.row = l.above.length
  col : t.col = l.current.length
  width : l.current.length < 75
  rowLe : t.row ≤ 30
  below : t.row = 30 → l.current = []
  /-- rows have scrolled off only to make room for the last one -/
  tight : t.topLine = 0 ∨ 29 ≤ t.row
  shown : ∀ r k, r < 30 → k < 75 → t.output r k = l.cell (t.topLine + r) k

namespace Pictures

variable {t : TermIo} {l : Layout}

/-- A row scrolls off. -/
theorem scrollRow (h : Pictures t l) (hrow : t.row = 30) : Pictures t.scrollRow l := by
  have habove := h.row
  refine ⟨h.active, ?_, h.col, h.width, ?_, fun hthirty => ?_, .inr ?_, fun r k hr hk => ?_⟩
  · simp only [TermIo.scrollRow]
    omega
  · simp only [TermIo.scrollRow]
    omega
  · simp only [TermIo.scrollRow] at hthirty
    omega
  · simp only [TermIo.scrollRow]
    omega
  · simp only [TermIo.scrollRow]
    by_cases hlast : r < 29
    · rw [if_pos hlast, h.shown (r + 1) k (by omega) hk]
      congr 1
      omega
    · rw [if_neg hlast, if_pos (by omega), Layout.cell, Layout.rows, getD_concat, if_pos (by omega),
        h.below hrow]
      rfl

/-- Scrolling brings the last row back on the grid. -/
theorem scrollLoop (h : Pictures t l) :
    Pictures (TermIo.scrollLoop t.row t) l ∧ (TermIo.scrollLoop t.row t).row < 30 := by
  rcases Nat.lt_or_eq_of_le h.rowLe with hlt | heq
  · rw [TermIo.scrollLoop_of_lt _ hlt]
    exact ⟨h, hlt⟩
  · rw [TermIo.scrollLoop_of_eq heq]
    refine ⟨h.scrollRow heq, ?_⟩
    simp only [TermIo.scrollRow]
    omega

/-- The last row of the layout and that of the grid are changed in the same place. -/
theorem store (h : Pictures t l) {col : Nat} {c : UInt8} {current : List UInt8}
    (hcell : ∀ k, current.getD k 0 = if k = col then c else l.current.getD k 0) :
    ∀ r k, r < 30 → k < 75 → (t.store t.row col c).output r k =
      Layout.cell ⟨l.above, current⟩ (t.topLine + r) k := by
  have habove := h.row
  intro r k hr hk
  have hold := (h.shown r k hr hk).trans (Layout.cell_eq _ _ _ _)
  have hnew := Layout.cell_eq l.above current (t.topLine + r) k
  simp only [TermIo.store]
  by_cases hhere : r = t.row
  · rw [if_pos (by omega)] at hold hnew
    rw [hnew, hcell, hold]
    simp only [hhere, true_and]
  · rw [if_neg (by omega)] at hold hnew
    rw [hnew, ← hold, if_neg fun hboth => hhere hboth.1]

/-- The cursor goes to a new row. -/
theorem newRow {current : List UInt8} {output : Nat → Nat → UInt8} (h : Pictures t l)
    (hrow : t.row < 30)
    (hshown : ∀ r k, r < 30 → k < 75 →
      output r k = Layout.cell ⟨l.above, current⟩ (t.topLine + r) k) :
    Pictures { t with output := output, row := t.row + 1, col := 0 }
      ⟨l.above ++ [current], []⟩ := by
  have habove := h.row
  have htight := h.tight
  refine ⟨h.active, ?_, rfl, Nat.succ_pos 74, hrow, fun _ => rfl, ?_, fun r k hr hk => ?_⟩
  · rw [List.length_append, List.length_singleton, ← habove, Nat.add_assoc]
  · simp only
    omega
  · rw [Layout.cell_newRow]
    exact hshown r k hr hk

/-- The last row changes, and the cursor stays on it. -/
theorem sameRow {current : List UInt8} {output : Nat → Nat → UInt8} {col : Nat}
    (h : Pictures t l) (hrow : t.row < 30) (hcol : col = current.length)
    (hwidth : current.length < 75)
    (hshown : ∀ r k, r < 30 → k < 75 →
      output r k = Layout.cell ⟨l.above, current⟩ (t.topLine + r) k) :
    Pictures { t with output := output, col := col } ⟨l.above, current⟩ :=
  ⟨h.active, h.row, hcol, hwidth, h.rowLe, fun heq => absurd heq (Nat.ne_of_lt hrow), h.tight,
    hshown⟩

/-- One character in the grid and in the layout. -/
theorem place (h : Pictures t l) (hrow : t.row < 30) (c : UInt8) :
    Pictures (t.place c) (l.put c) := by
  have hcol := h.col
  have hwidth := h.width
  unfold TermIo.place Layout.put
  by_cases hnl : c = 10
  · rw [if_pos hnl, if_pos hnl]
    exact h.newRow hrow h.shown
  · rw [if_neg hnl, if_neg hnl]
    by_cases hbs : c = 8
    · rw [if_pos hbs, if_pos hbs]
      by_cases hmargin : 0 < t.col
      · rw [if_pos hmargin]
        refine h.sameRow hrow ?_ ?_ (h.store fun k => ?_)
        · rw [List.length_dropLast, hcol]
        · rw [List.length_dropLast]
          omega
        · rw [getD_dropLast]
          congr 1
          exact propext (by omega)
      · -- At the left margin there is nothing to erase, in the layout either.
        have hempty : l.current = [] := List.eq_nil_of_length_eq_zero (by omega)
        have hsame : (⟨l.above, l.current.dropLast⟩ : Layout) = l := by
          rw [hempty, List.dropLast_nil, ← hempty]
        rw [if_neg hmargin, hsame]
        exact h
    · rw [if_neg hbs, if_neg hbs]
      by_cases hprintable : 32 ≤ c ∧ c ≤ 126
      · have hcell : ∀ k, (l.current ++ [c]).getD k 0 =
            if k = t.col then c else l.current.getD k 0 := by
          intro k
          rw [getD_concat, hcol]
        rw [if_pos hprintable, if_pos hprintable]
        by_cases hwrap : 75 ≤ t.col + 1
        · rw [if_pos hwrap, if_pos (hcol ▸ hwrap)]
          exact h.newRow hrow (h.store hcell)
        · rw [if_neg hwrap, if_neg (hcol ▸ hwrap)]
          refine h.sameRow hrow ?_ ?_ (h.store hcell)
          · rw [List.length_append, List.length_singleton, hcol]
          · rw [List.length_append, List.length_singleton]
            omega
      · rw [if_neg hprintable, if_neg hprintable]
        exact h

theorem putchar (h : Pictures t l) (hrow : t.row < 30) (c : UInt8) :
    Pictures (t.putchar c) (l.put c) ∧ (t.putchar c).row < 30 := by
  rw [TermIo.putchar, h.active]
  exact (h.place hrow c).scrollLoop

end Pictures

/-! ## Any number of characters -/

theorem pictures_init (t : TermIo) : Pictures t.init Layout.empty := by
  refine ⟨rfl, rfl, rfl, by decide, Nat.zero_le 30, fun _ => rfl, .inl rfl, fun r k _ _ => ?_⟩
  rw [Layout.empty, Layout.cell_eq]
  split <;> rfl

theorem pictures_print (str : List UInt8) : ∀ {t : TermIo} {l : Layout}, Pictures t l →
    t.row < 30 → Pictures (t.print str) (l.print str) ∧ (t.print str).row < 30 := by
  induction str with
  | nil => exact fun h hrow => ⟨h, hrow⟩
  | cons c rest ih =>
      intro t l h hrow
      obtain ⟨hnext, hnextRow⟩ := h.putchar hrow c
      exact ih hnext hnextRow

/-- A cell at or after the cursor is behind the end of its row, or in a row that does not
exist. -/
theorem Pictures.blank {t : TermIo} {l : Layout} (h : Pictures t l) {r k : Nat}
    (hafter : t.row < r ∨ (t.row = r ∧ t.col ≤ k)) : l.cell (t.topLine + r) k = 0 := by
  have habove := h.row
  have hcol := h.col
  rw [Layout.cell_eq l.above l.current]
  rcases hafter with hbelow | ⟨rfl, hright⟩
  · have hnone : l.above.getD (t.topLine + r) [] = [] := List.getD_eq_default _ _ (by omega)
    rw [if_neg (by omega), hnone]
    rfl
  · rw [if_pos (by omega), List.getD_eq_default _ _ (by omega)]

theorem Pictures.showsTail {t : TermIo} {l : Layout} (h : Pictures t l) (hrow : t.row < 30) :
    ShowsTail t l := by
  have habove := h.row
  have htight := h.tight
  have htop : l.rows.length - 30 = t.topLine := by
    rw [Layout.rows, List.length_append, List.length_singleton]
    omega
  refine ⟨hrow, h.col ▸ h.width, fun r k hr hk hafter => ?_, fun r k hr hk => ?_⟩
  · rw [h.shown r k hr hk]
    exact h.blank hafter
  · have hrowAt : l.lastRows.getD r [] = l.rows.getD (t.topLine + r) [] := by
      rw [Layout.lastRows, htop]
      simp only [List.getD_eq_getElem?_getD, List.getElem?_drop]
    rw [h.shown r k hr hk, hrowAt]
    rfl

/-- After `term_io_init` and any characters, the grid shows the last 30 rows of what was
printed, and nothing from the cursor on. -/
theorem print_showsTail (t : TermIo) (str : List UInt8) :
    ShowsTail (t.init.print str) (Layout.empty.print str) := by
  obtain ⟨hpictures, hrow⟩ := pictures_print str (pictures_init t) (Nat.succ_pos 29)
  exact hpictures.showsTail hrow

end FalastinOS.Gui
