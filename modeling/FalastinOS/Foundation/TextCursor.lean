/-
  Foundation/TextCursor.lean --- a text of lines with a cursor.

  The text is held open at the cursor: the lines above, the line of the cursor in
  two parts, and the lines below.  Editing then happens at the ends of lists.  The
  text as one sequence, with a separator between the lines, is what stands before
  the cursor followed by what stands after it (`flat_eq`), and the offset
  of the cursor is the length of the first part.

  Lines have at most `width` elements and there are at most `height` of them; an
  edit that would exceed a bound does nothing, except for a join, which cuts the
  joined line.  `eraseBefore_exact_iff` and `eraseAfter_exact_iff` say when an
  erasing edit removes one element of the sequence and nothing else.

  Nothing here mentions a particular program.
-/
import Mathlib.Data.List.GetD

set_option autoImplicit false

namespace FalastinOS.Foundation

/-- A text with a cursor. -/
structure TextCursor (α : Type) where
  above : List (List α)
  left : List α
  right : List α
  below : List (List α)
  deriving DecidableEq

namespace TextCursor

variable {α : Type} (t : TextCursor α) (sep : α) (width height : Nat)

/-- The line of the cursor. -/
def line : List α := t.left ++ t.right

/-- All lines. -/
def rows : List (List α) := t.above ++ t.line :: t.below

/-- The text before the cursor. -/
def before : List α := t.above.flatMap (fun row => row ++ [sep]) ++ t.left

/-- The text after the cursor. -/
def after : List α := t.right ++ t.below.flatMap fun row => sep :: row

/-- The text as one sequence. -/
def flat : List α := [sep].intercalate t.rows

theorem rows_length : t.rows.length = t.above.length + (t.below.length + 1) := by
  simp [rows]

theorem intercalate_cons_eq (row : List α) (below : List (List α)) :
    [sep].intercalate (row :: below) = row ++ below.flatMap fun row => sep :: row := by
  induction below generalizing row with
  | nil => simp
  | cons next below ih =>
      rw [List.intercalate_cons_cons, ih]
      simp

theorem intercalate_append_cons (above : List (List α)) (row : List α) (below : List (List α)) :
    [sep].intercalate (above ++ row :: below) =
      above.flatMap (fun row => row ++ [sep]) ++ [sep].intercalate (row :: below) := by
  induction above with
  | nil => simp
  | cons first above ih =>
      rw [List.cons_append, List.intercalate_cons_of_ne_nil (by simp), ih]
      simp

/-- The text is what stands before the cursor and what stands after it. -/
theorem flat_eq : t.flat sep = t.before sep ++ t.after sep := by
  rw [flat, rows, intercalate_append_cons, intercalate_cons_eq, before, after, line]
  simp only [List.append_assoc]

/-! ## Lines of a sequence -/

section Lines

variable [BEq α] [LawfulBEq α] {sep}

/-- A line is made of elements of the sequence other than the separator. -/
theorem mem_line_of_mem_splitOn {xs row : List α} (h : row ∈ xs.splitOn sep) {x : α}
    (hx : x ∈ row) : x ∈ xs ∧ x ≠ sep := by
  induction xs generalizing row x with
  | nil =>
      rw [List.splitOn_nil, List.mem_singleton] at h
      exact absurd hx (by simp [h])
  | cons y xs ih =>
      rw [List.splitOn_cons_eq_if_modifyHead] at h
      split at h
      · rcases List.mem_cons.mp h with rfl | hrow
        · exact absurd hx List.not_mem_nil
        · exact ⟨List.mem_cons_of_mem _ (ih hrow hx).1, (ih hrow hx).2⟩
      · rename_i hy
        cases hsplit : xs.splitOn sep with
        | nil => exact absurd hsplit (List.splitOn_ne_nil sep xs)
        | cons first rest =>
            rw [hsplit, List.modifyHead_cons] at h
            rw [hsplit] at ih
            rcases List.mem_cons.mp h with rfl | hrow
            · rcases List.mem_cons.mp hx with rfl | hx
              · exact ⟨List.mem_cons_self, fun heq => hy (by simp [heq])⟩
              · obtain ⟨hmem, hne⟩ := ih List.mem_cons_self hx
                exact ⟨List.mem_cons_of_mem _ hmem, hne⟩
            · obtain ⟨hmem, hne⟩ := ih (List.mem_cons_of_mem _ hrow) hx
              exact ⟨List.mem_cons_of_mem _ hmem, hne⟩

/-- Lines with a separator behind each of them. -/
theorem splitOn_flatMap {rows : List (List α)} (h : ∀ row ∈ rows, sep ∉ row) :
    (rows.flatMap fun row => row ++ [sep]).splitOn sep = rows ++ [[]] := by
  induction rows with
  | nil => simp
  | cons row rows ih =>
      rw [List.flatMap_cons, List.append_assoc, List.singleton_append,
        List.splitOn_append_cons_self_of_not_mem (h row List.mem_cons_self),
        ih fun r hr => h r (List.mem_cons_of_mem _ hr), List.cons_append]

theorem splitOn_append_replicate (xs : List α) (k : Nat) :
    (xs ++ List.replicate k sep).splitOn sep = xs.splitOn sep ++ List.replicate k [] := by
  induction k generalizing xs with
  | zero => simp
  | succ k ih =>
      have hnil : (List.replicate k sep).splitOn sep = [] :: List.replicate k [] := by
        simpa using ih []
      rw [List.replicate_succ, List.splitOn_append_cons_self, hnil, List.replicate_succ]

/-- The sequence put together from its lines. -/
theorem eq_flatMap_of_splitOn {xs : List α} {init : List (List α)} {last : List α}
    (h : xs.splitOn sep = init ++ [last]) :
    xs = init.flatMap (fun row => row ++ [sep]) ++ last := by
  have hjoin : [sep].intercalate (xs.splitOn sep) = xs := List.intercalate_splitOn sep
  rw [h, intercalate_append_cons, List.intercalate_singleton] at hjoin
  exact hjoin.symm

end Lines

/-! ## Edits -/

/-- Insert an element at the cursor. -/
def insert (x : α) : TextCursor α :=
  if width ≤ t.line.length then t else { t with left := t.left ++ [x] }

/-- Break the line at the cursor. -/
def split : TextCursor α :=
  if height ≤ t.rows.length then t else ⟨t.above ++ [t.left], [], t.right, t.below⟩

/-- Erase what stands before the cursor: an element of the line, or at its start the
line break. -/
def eraseBefore : TextCursor α :=
  if t.left = [] then
    match t.above.getLast? with
    | none => t
    | some previous =>
        ⟨t.above.dropLast, previous, t.right.take (width - previous.length), t.below⟩
  else { t with left := t.left.dropLast }

/-- Erase what stands after the cursor. -/
def eraseAfter : TextCursor α :=
  match t.right, t.below with
  | _ :: right, below => ⟨t.above, t.left, right, below⟩
  | [], next :: below => ⟨t.above, t.left, next.take (width - t.left.length), below⟩
  | [], [] => t

/-- The cursor put elsewhere. -/
def moveTo (row col : Nat) : TextCursor α :=
  ⟨t.rows.take row, (t.rows.getD row []).take col, (t.rows.getD row []).drop col,
    t.rows.drop (row + 1)⟩

theorem rows_moveTo {row : Nat} (h : row < t.rows.length) (col : Nat) :
    (t.moveTo row col).rows = t.rows := by
  simp only [moveTo, rows, line, List.take_append_drop]
  have hget : t.rows.getD row [] = t.rows[row] := List.getD_eq_getElem _ _ h
  rw [show t.above ++ (t.left ++ t.right) :: t.below = t.rows from rfl, hget,
    List.getElem_cons_drop, List.take_append_drop]

theorem mem_rows {row : List α} :
    row ∈ t.rows ↔ row ∈ t.above ∨ row = t.line ∨ row ∈ t.below := by
  simp [rows]

theorem rows_getElem? (i : Nat) : t.rows[i]? =
    if i < t.above.length then t.above[i]?
    else if i = t.above.length then some t.line else t.below[i - t.above.length - 1]? := by
  rw [rows, List.getElem?_append]
  split
  · rfl
  · split
    · rename_i heq
      rw [heq, Nat.sub_self, List.getElem?_cons_zero]
    · rw [List.getElem?_cons, if_neg (by omega)]

theorem getLast?_eq_some {l : List (List α)} {row : List α} (h : l.getLast? = some row) :
    l = l.dropLast ++ [row] := by
  obtain ⟨init, hinit⟩ := List.getLast?_eq_some_iff.mp h
  rw [hinit, List.dropLast_concat]

/-! ## Bounds -/

/-- A line that keeps the bound and is made of elements with the property `P`. -/
def Fits (P : α → Prop) (row : List α) : Prop := row.length ≤ width ∧ ∀ x ∈ row, P x

/-- A text that keeps its bounds. -/
structure Bounded (P : α → Prop) : Prop where
  count : t.above.length + (t.below.length + 1) ≤ height
  above : ∀ row ∈ t.above, Fits width P row
  line : Fits width P t.line
  below : ∀ row ∈ t.below, Fits width P row

section Bounded

variable {t width height} {P : α → Prop}

theorem Bounded.row (h : t.Bounded width height P) {row : List α} (hrow : row ∈ t.rows) :
    Fits width P row := by
  rcases t.mem_rows.mp hrow with habove | rfl | hbelow
  · exact h.above row habove
  · exact h.line
  · exact h.below row hbelow

/-- A line whose elements all stand in another one. -/
theorem Fits.of_subset {row row' : List α} (h : Fits width P row) (hlen : row'.length ≤ width)
    (hsub : row' ⊆ row) : Fits width P row' :=
  ⟨hlen, fun x hx => h.2 x (hsub hx)⟩

theorem Bounded.insert (h : t.Bounded width height P) {x : α} (hx : P x) :
    (t.insert width x).Bounded width height P := by
  unfold TextCursor.insert
  split
  · exact h
  · rename_i hroom
    refine ⟨h.count, h.above, ⟨?_, fun y hy => ?_⟩, h.below⟩
    · simp only [TextCursor.line, List.length_append, List.length_cons, List.length_nil] at hroom ⊢
      omega
    · simp only [TextCursor.line, List.mem_append, List.mem_singleton] at hy
      rcases hy with (hleft | rfl) | hright
      · exact h.line.2 y (List.mem_append_left _ hleft)
      · exact hx
      · exact h.line.2 y (List.mem_append_right _ hright)

theorem Bounded.split (h : t.Bounded width height P) :
    (t.split height).Bounded width height P := by
  unfold TextCursor.split
  split
  · exact h
  · rename_i hroom
    have hline := h.line.1
    rw [TextCursor.line, List.length_append] at hline
    rw [rows_length] at hroom
    have hleft : Fits width P t.left := h.line.of_subset (by omega) (List.subset_append_left _ _)
    have hright : Fits width P ([] ++ t.right) :=
      h.line.of_subset (by rw [List.nil_append]; omega) (List.subset_append_right _ _)
    refine ⟨?_, fun row hrow => ?_, hright, h.below⟩
    · simp only [List.length_append, List.length_cons, List.length_nil]
      omega
    · rcases List.mem_append.mp hrow with habove | hlast
      · exact h.above row habove
      · rw [List.mem_singleton.mp hlast]
        exact hleft

/-- Two lines joined, the second cut to the room there is. -/
theorem Fits.join {first second : List α} (h : Fits width P first) (h' : Fits width P second) :
    Fits width P (first ++ second.take (width - first.length)) := by
  refine ⟨?_, fun x hx => ?_⟩
  · have := h.1
    simp only [List.length_append, List.length_take]
    omega
  · rcases List.mem_append.mp hx with hfirst | hsecond
    · exact h.2 x hfirst
    · exact h'.2 x (List.mem_of_mem_take hsecond)

theorem Bounded.eraseBefore (h : t.Bounded width height P) :
    (t.eraseBefore width).Bounded width height P := by
  unfold TextCursor.eraseBefore
  split
  · rename_i hleft
    split
    · exact h
    · rename_i previous hprevious
      have habove := getLast?_eq_some hprevious
      have hmem : previous ∈ t.above := by rw [habove]; simp
      have hline : Fits width P t.right := by
        have := h.line
        rwa [TextCursor.line, hleft, List.nil_append] at this
      refine ⟨?_, fun row hrow => h.above row (List.dropLast_subset _ hrow),
        (h.above previous hmem).join hline, h.below⟩
      have := h.count
      simp only [List.length_dropLast]
      omega
  · refine ⟨h.count, h.above, h.line.of_subset ?_ ?_, h.below⟩
    · have := h.line.1
      simp only [TextCursor.line, List.length_append, List.length_dropLast] at this ⊢
      omega
    · exact List.append_subset.mpr
        ⟨fun x hx => List.mem_append_left _ (List.dropLast_subset _ hx),
          List.subset_append_right _ _⟩

theorem Bounded.eraseAfter (h : t.Bounded width height P) :
    (t.eraseAfter width).Bounded width height P := by
  obtain ⟨above, left, right, below⟩ := t
  have hcount := h.count
  have hline := h.line
  cases right with
  | cons x right =>
      refine ⟨hcount, h.above, hline.of_subset ?_ ?_, h.below⟩
      · have := hline.1
        simp only [TextCursor.eraseAfter, TextCursor.line, List.length_append,
          List.length_cons] at this ⊢
        omega
      · exact List.append_subset.mpr ⟨List.subset_append_left _ _,
          fun y hy => List.mem_append_right _ (List.mem_cons_of_mem _ hy)⟩
  | nil =>
      cases below with
      | nil => exact h
      | cons next below =>
          rw [TextCursor.line, List.append_nil] at hline
          refine ⟨?_, h.above, hline.join (h.below next List.mem_cons_self),
            fun row hrow => h.below row (List.mem_cons_of_mem _ hrow)⟩
          simp only [TextCursor.eraseAfter, List.length_cons] at hcount ⊢
          omega

theorem Bounded.moveTo (h : t.Bounded width height P) {row : Nat} (hrow : row < t.rows.length)
    (col : Nat) : (t.moveTo row col).Bounded width height P := by
  have hrows := t.rows_moveTo hrow col
  have hmem : ∀ line, line ∈ (t.moveTo row col).rows → Fits width P line :=
    fun line hline => h.row (hrows ▸ hline)
  have hlength := congrArg List.length hrows
  have hcount := h.count
  rw [rows_length, rows_length] at hlength
  exact ⟨by omega, fun line hline => hmem line ((mem_rows _).mpr (Or.inl hline)),
    hmem _ ((mem_rows _).mpr (Or.inr (Or.inl rfl))),
    fun line hline => hmem line ((mem_rows _).mpr (Or.inr (Or.inr hline)))⟩

end Bounded

/-! ## Erasing one element -/

section Erase

variable {t sep width}

/-- A line cut to the room there is keeps its length exactly if it fits. -/
theorem take_append_eq_iff {right rest : List α} {room : Nat} :
    right.take room ++ rest = right ++ rest ↔ right.length ≤ room := by
  rw [List.append_left_inj]
  constructor
  · intro h
    have := congrArg List.length h
    rw [List.length_take] at this
    omega
  · exact fun h => List.take_of_length_le h

/-- Erasing before the cursor takes the last element of what stands before it, if
nothing is cut off a joined line, and otherwise does not. -/
theorem eraseBefore_exact_iff (hpos : t.before sep ≠ [])
    (hwidth : ∀ previous ∈ t.above, previous.length ≤ width) :
    ((t.eraseBefore width).before sep = (t.before sep).dropLast ∧
      (t.eraseBefore width).after sep = t.after sep) ↔
    (t.left = [] → ∀ previous, t.above.getLast? = some previous →
      previous.length + t.right.length ≤ width) := by
  obtain ⟨above, left, right, below⟩ := t
  by_cases hleft : left = []
  · subst hleft
    cases hlast : above.getLast? with
    | none =>
        rw [List.getLast?_eq_none_iff] at hlast
        exact absurd (by simp [before, hlast]) hpos
    | some previous =>
        obtain ⟨init, rfl⟩ := List.getLast?_eq_some_iff.mp hlast
        have hprevious := hwidth previous (by simp)
        have hbefore : init.flatMap (fun row => row ++ [sep]) ++ previous =
            ((init ++ [previous]).flatMap (fun row => row ++ [sep]) ++ []).dropLast := by
          simp [← List.append_assoc]
        simp only [eraseBefore, if_true, hlast, before, after, List.dropLast_concat, hbefore,
          true_and, take_append_eq_iff, Option.some.injEq, forall_eq', true_implies]
        omega
  · refine iff_of_true ?_ (fun h => absurd h hleft)
    simp only [eraseBefore, if_neg hleft, before, after, and_true]
    rw [List.dropLast_append_of_ne_nil hleft]

/-- Erasing after the cursor takes the first element of what stands after it, if
nothing is cut off a joined line, and otherwise does not. -/
theorem eraseAfter_exact_iff (hpos : t.after sep ≠ []) (hwidth : t.left.length ≤ width) :
    ((t.eraseAfter width).before sep = t.before sep ∧
      (t.eraseAfter width).after sep = (t.after sep).tail) ↔
    (t.right = [] → ∀ next, t.below.head? = some next →
      t.left.length + next.length ≤ width) := by
  obtain ⟨above, left, right, below⟩ := t
  cases right with
  | cons x right =>
      refine iff_of_true ?_ (fun h => absurd h (by simp))
      simp [eraseAfter, before, after]
  | nil =>
      cases below with
      | nil => exact absurd (by simp [after]) hpos
      | cons next below =>
          simp only [eraseAfter, before, after, List.flatMap_cons, List.nil_append,
            List.cons_append, List.tail_cons, true_and, take_append_eq_iff, List.head?_cons,
            Option.some.injEq, forall_eq', true_implies]
          dsimp only at hwidth
          omega

theorem before_eq_nil_iff : t.before sep = [] ↔ t.above = [] ∧ t.left = [] := by
  rw [before, List.append_eq_nil_iff, List.flatMap_eq_nil_iff,
    List.eq_nil_iff_forall_not_mem (l := t.above)]
  simp

theorem after_eq_nil_iff : t.after sep = [] ↔ t.right = [] ∧ t.below = [] := by
  rw [after, List.append_eq_nil_iff, List.flatMap_eq_nil_iff,
    List.eq_nil_iff_forall_not_mem (l := t.below)]
  simp

/-- In the sequence, with the offset of the cursor: the element before the cursor is
gone, and nothing else. -/
theorem flat_eraseIdx_before_iff {t' : TextCursor α} (hpos : t.before sep ≠ []) :
    (t'.flat sep = (t.flat sep).eraseIdx ((t.before sep).length - 1) ∧
      (t'.before sep).length = (t.before sep).length - 1) ↔
    (t'.before sep = (t.before sep).dropLast ∧ t'.after sep = t.after sep) := by
  have hlength := List.length_pos_iff.mpr hpos
  rw [flat_eq, flat_eq, List.eraseIdx_append_of_lt_length (by omega),
    List.eraseIdx_length_sub_one]
  constructor
  · rintro ⟨hflat, hoffset⟩
    exact List.append_inj hflat (by rw [hoffset, List.length_dropLast])
  · rintro ⟨hbefore, hafter⟩
    rw [hbefore, hafter, List.length_dropLast]
    exact ⟨rfl, rfl⟩

theorem flat_eraseIdx_after_iff {t' : TextCursor α} :
    (t'.flat sep = (t.flat sep).eraseIdx (t.before sep).length ∧
      (t'.before sep).length = (t.before sep).length) ↔
    (t'.before sep = t.before sep ∧ t'.after sep = (t.after sep).tail) := by
  rw [flat_eq, flat_eq, List.eraseIdx_append_of_length_le (Nat.le_refl _), Nat.sub_self,
    List.eraseIdx_zero]
  constructor
  · rintro ⟨hflat, hoffset⟩
    exact List.append_inj hflat hoffset
  · rintro ⟨hbefore, hafter⟩
    rw [hbefore, hafter]
    exact ⟨rfl, rfl⟩

end Erase

/-! ## Inserting one element -/

section Insert

variable {t t' : TextCursor α} {sep x : α} {width height : Nat}

theorem insert_of_lt (h : t.line.length < width) (x : α) :
    t.insert width x = { t with left := t.left ++ [x] } :=
  if_neg (Nat.not_le.mpr h)

theorem split_of_lt (h : t.rows.length < height) :
    t.split height = ⟨t.above ++ [t.left], [], t.right, t.below⟩ :=
  if_neg (Nat.not_le.mpr h)

/-- In the sequence: an element put at the end of what stands before the cursor is an
element inserted at the offset of the cursor. -/
theorem flat_insertIdx (hbefore : t'.before sep = t.before sep ++ [x])
    (hafter : t'.after sep = t.after sep) :
    t'.flat sep = (t.flat sep).insertIdx (t.before sep).length x ∧
      (t'.before sep).length = (t.before sep).length + 1 := by
  constructor
  · rw [flat_eq, flat_eq, hbefore, hafter]
    generalize t.before sep = before
    induction before with
    | nil => rfl
    | cons y before ih =>
        rw [List.cons_append, List.cons_append, List.length_cons, List.cons_append,
          List.insertIdx_succ_cons, ih]
  · rw [hbefore, List.length_append, List.length_singleton]

theorem flat_insert (h : t.line.length < width) :
    (t.insert width x).flat sep = (t.flat sep).insertIdx (t.before sep).length x ∧
      ((t.insert width x).before sep).length = (t.before sep).length + 1 := by
  apply flat_insertIdx
  · rw [insert_of_lt h, before, before, List.append_assoc]
  · rw [insert_of_lt h, after, after]

theorem flat_split (h : t.rows.length < height) :
    (t.split height).flat sep = (t.flat sep).insertIdx (t.before sep).length sep ∧
      ((t.split height).before sep).length = (t.before sep).length + 1 := by
  apply flat_insertIdx
  · rw [split_of_lt h, before, before, List.append_nil, List.flatMap_append,
      List.flatMap_singleton, List.append_assoc]
  · rw [split_of_lt h, after, after]

/-- An inserted element is erased again. -/
theorem eraseBefore_insert (h : t.line.length < width) :
    (t.insert width x).eraseBefore width = t := by
  rw [insert_of_lt h, eraseBefore, if_neg (by simp)]
  simp only [List.dropLast_concat]

/-- A broken line is joined again, and fits. -/
theorem eraseBefore_split (h : t.rows.length < height) (hline : t.line.length ≤ width) :
    (t.split height).eraseBefore width = t := by
  rw [line, List.length_append] at hline
  rw [split_of_lt h, eraseBefore, if_pos rfl]
  simp only [List.getLast?_concat, List.dropLast_concat]
  rw [List.take_of_length_le (by omega)]

end Insert

end TextCursor

end FalastinOS.Foundation
