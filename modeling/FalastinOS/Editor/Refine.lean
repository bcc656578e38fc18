/-
  Editor/Refine.lean --- the operations of the editor do what the text says.

  First the accesses and the loops of `editor.c`: inside the table each loop has a
  result, which is written down as the table after it.  Then one theorem for each
  operation: on a buffer that stands for a text it completes, and the buffer it
  leaves stands for the edited text.
-/
import FalastinOS.Editor.Document

set_option autoImplicit false

namespace FalastinOS.Editor

open FalastinOS.Foundation

namespace Buffer

/-! ## Accesses -/

@[simp] theorem setRow_lines_self (b : Buffer) (r : Nat) (line : Mem) :
    (b.setRow r line).lines r = line := Function.update_self ..

theorem setRow_lines_of_ne (b : Buffer) {r i : Nat} (line : Mem) (h : i ≠ r) :
    (b.setRow r line).lines i = b.lines i := Function.update_of_ne h ..

@[simp] theorem setRow_setRow (b : Buffer) (r : Nat) (line line' : Mem) :
    (b.setRow r line).setRow r line' = b.setRow r line' := by
  simp [setRow, Function.update_idem]

theorem setRow_self (b : Buffer) (r : Nat) : b.setRow r (b.lines r) = b := by
  simp [setRow]

@[simp] theorem setRow_lineCount (b : Buffer) (r : Nat) (line : Mem) :
    (b.setRow r line).lineCount = b.lineCount := rfl

@[simp] theorem setRow_cursorRow (b : Buffer) (r : Nat) (line : Mem) :
    (b.setRow r line).cursorRow = b.cursorRow := rfl

@[simp] theorem setRow_cursorCol (b : Buffer) (r : Nat) (line : Mem) :
    (b.setRow r line).cursorCol = b.cursorCol := rfl

/-- The table replaced. -/
def setLines (b : Buffer) (lines : Nat → Mem) : Buffer := { b with lines := lines }

@[simp] theorem setLines_lines (b : Buffer) (lines : Nat → Mem) :
    (b.setLines lines).lines = lines := rfl

@[simp] theorem setLines_lineCount (b : Buffer) (lines : Nat → Mem) :
    (b.setLines lines).lineCount = b.lineCount := rfl

@[simp] theorem setLines_cursorRow (b : Buffer) (lines : Nat → Mem) :
    (b.setLines lines).cursorRow = b.cursorRow := rfl

@[simp] theorem setLines_cursorCol (b : Buffer) (lines : Nat → Mem) :
    (b.setLines lines).cursorCol = b.cursorCol := rfl

theorem setLines_self (b : Buffer) : b.setLines b.lines = b := rfl

theorem setRow_setLines (b : Buffer) (r : Nat) (line : Mem) (lines : Nat → Mem) :
    (b.setRow r line).setLines lines = b.setLines lines := rfl

theorem get_at (b : Buffer) {r c : Nat} (hr : r < 128) (hc : c < 121) :
    b.get r c = .ok (b.lines r c) := by
  rw [get, if_pos (by omega), Int.toNat_natCast, Int.toNat_natCast]

theorem put_at (b : Buffer) {r c : Nat} (v : UInt8) (hr : r < 128) (hc : c < 121) :
    b.put r c v = .ok (b.setRow r ((b.lines r).writeByte c v)) := by
  rw [put, if_pos (by omega), Int.toNat_natCast, Int.toNat_natCast]

theorem copyRow_at (b : Buffer) {dst src : Nat} (hdst : dst < 128) (hsrc : src < 128) :
    b.copyRow dst src = .ok (b.setRow dst (b.lines src)) := by
  rw [copyRow, if_pos (by omega), if_pos (by omega), Int.toNat_natCast, Int.toNat_natCast]

theorem lineLen_at {b : Buffer} {r : Nat} {s : List UInt8} (hr : (r : Int) < b.lineCount)
    (hr128 : r < 128) (h : HoldsString (b.lines r) s) (hs : FitsLine s) :
    b.lineLen r = .ok s.length := by
  rw [lineLen, if_neg (by omega), if_pos (by omega), Int.toNat_natCast, h.strlen hs]

/-! ## Loops in a line -/

/-- The bytes `c .. c + n - 1` of a line moved one place to the right. -/
theorem shiftRightLoop_eq {r : Nat} (hr : r < 128) (n : Nat) :
    ∀ (c : Nat) (b : Buffer), c + n < 121 →
      shiftRightLoop r n ((c + n : Nat) - 1 : Int) b = .ok (b.setRow r fun k =>
        if c < k ∧ k ≤ c + n then b.lines r (k - 1) else b.lines r k) := by
  induction n with
  | zero =>
      intro c b _
      rw [shiftRightLoop]
      have hsame : (fun k => if c < k ∧ k ≤ c + 0 then b.lines r (k - 1) else b.lines r k) =
          b.lines r := funext fun k => if_neg (by omega)
      rw [hsame, setRow_self]
  | succ n ih =>
      intro c b hc
      rw [shiftRightLoop, show ((c + (n + 1) : Nat) - 1 : Int) = (c + n : Nat) by omega,
        get_at b hr (by omega), ok_bind,
        show ((c + n : Nat) + 1 : Int) = (c + n + 1 : Nat) by omega, put_at b _ hr (by omega),
        ok_bind, ih c _ (by omega), setRow_setRow, setRow_lines_self]
      congr 2
      funext k
      by_cases hk : k = c + n + 1
      · subst hk
        rw [if_neg (by omega), if_pos (by omega), Mem.writeByte_self, Nat.add_sub_cancel]
      · rw [Mem.writeByte_of_ne _ _ hk]
        by_cases hin : c < k ∧ k ≤ c + n
        · rw [if_pos hin, if_pos (by omega), Mem.writeByte_of_ne _ _ (by omega)]
        · rw [if_neg hin, if_neg (by omega)]

/-- The bytes `c + 1 .. c + n` of a line moved one place to the left. -/
theorem shiftLeftLoop_eq {r : Nat} (hr : r < 128) (n : Nat) :
    ∀ (c : Nat) (b : Buffer), c + n < 121 →
      shiftLeftLoop r n c b = .ok (b.setRow r fun k =>
        if c ≤ k ∧ k < c + n then b.lines r (k + 1) else b.lines r k) := by
  induction n with
  | zero =>
      intro c b _
      rw [shiftLeftLoop]
      have hsame : (fun k => if c ≤ k ∧ k < c + 0 then b.lines r (k + 1) else b.lines r k) =
          b.lines r := funext fun k => if_neg (by omega)
      rw [hsame, setRow_self]
  | succ n ih =>
      intro c b hc
      rw [shiftLeftLoop, show (c + 1 : Int) = (c + 1 : Nat) by omega, get_at b hr (by omega),
        ok_bind, put_at b _ hr (by omega), ok_bind, ih (c + 1) _ (by omega), setRow_setRow,
        setRow_lines_self]
      congr 2
      funext k
      by_cases hk : k = c
      · subst hk
        rw [if_neg (by omega), if_pos (by omega), Mem.writeByte_self]
      · rw [Mem.writeByte_of_ne _ _ hk]
        by_cases hin : c + 1 ≤ k ∧ k < c + 1 + n
        · rw [if_pos hin, if_pos (by omega), Mem.writeByte_of_ne _ _ (by omega)]
        · rw [if_neg hin, if_neg (by omega)]

/-- The bytes `i .. i + n - 1` of line `r + 1` copied behind column `start` of the line
above. -/
theorem joinLoop_eq {r start : Nat} (hr : r + 1 < 128) (n : Nat) :
    ∀ (i : Nat) (b : Buffer), start + i + n < 121 →
      joinLoop (r + 1 : Nat) start n i b = .ok (b.setRow r fun k =>
        if start + i ≤ k ∧ k < start + i + n then b.lines (r + 1) (k - start)
        else b.lines r k) := by
  induction n with
  | zero =>
      intro i b _
      rw [joinLoop]
      have hsame : (fun k => if start + i ≤ k ∧ k < start + i + 0 then b.lines (r + 1) (k - start)
          else b.lines r k) = b.lines r := funext fun k => if_neg (by omega)
      rw [hsame, setRow_self]
  | succ n ih =>
      intro i b hi
      rw [joinLoop, get_at b hr (by omega), ok_bind,
        show ((r + 1 : Nat) - 1 : Int) = r by omega,
        show ((start : Int) + i) = (start + i : Nat) by omega, put_at b _ (by omega) (by omega),
        ok_bind, show (i + 1 : Int) = (i + 1 : Nat) by omega, ih (i + 1) _ (by omega),
        setRow_setRow, setRow_lines_self, setRow_lines_of_ne _ _ (by omega)]
      congr 2
      funext k
      by_cases hk : k = start + i
      · subst hk
        rw [if_neg (by omega), if_pos (by omega), Mem.writeByte_self, Nat.add_sub_cancel_left]
      · rw [Mem.writeByte_of_ne _ _ hk]
        by_cases hin : start + (i + 1) ≤ k ∧ k < start + (i + 1) + n
        · rw [if_pos hin, if_pos (by omega)]
        · rw [if_neg hin, if_neg (by omega)]

/-- The string of `len` bytes at column `col` of line `src`, from its index `i` on,
copied to the start of line `dst`. -/
theorem copyStringLoop_eq {dst src col len : Nat} (hdst : dst < 128) (hsrc : src < 128)
    (hne : src ≠ dst) (hlen : col + len < 121) (n : Nat) :
    ∀ (i : Nat) (b : Buffer), i + n = 120 → i ≤ len → b.lines src (col + len) = 0 →
      (∀ k, i ≤ k → k < len → b.lines src (col + k) ≠ 0) →
      copyStringLoop dst src col n i b = .ok (b.setRow dst fun k =>
        if i ≤ k ∧ k < len then b.lines src (col + k)
        else if k = len then 0 else b.lines dst k) := by
  have hstop : ∀ (b : Buffer), b.setRow dst ((b.lines dst).writeByte len 0) =
      b.setRow dst fun k => if len ≤ k ∧ k < len then b.lines src (col + k)
        else if k = len then 0 else b.lines dst k := by
    intro b
    congr 1
    funext k
    rw [if_neg (by omega), Mem.writeByte]
  induction n with
  | zero =>
      intro i b hi hle hzero _
      obtain rfl : i = len := by omega
      rw [copyStringLoop, show ((col : Int) + i) = (col + i : Nat) by omega, get_at b hsrc hlen,
        ok_bind, put_at b _ hdst (by omega), hstop]
  | succ n ih =>
      intro i b hi hle hzero hbytes
      rw [copyStringLoop, show ((col : Int) + i) = (col + i : Nat) by omega,
        get_at b hsrc (by omega), ok_bind]
      rcases Nat.lt_or_eq_of_le hle with hlt | rfl
      · rw [if_neg (hbytes i (Nat.le_refl i) hlt), put_at b _ hdst (by omega), ok_bind,
          show (i + 1 : Int) = (i + 1 : Nat) by omega, ih (i + 1) _ (by omega) hlt]
        · rw [setRow_setRow, setRow_lines_self, setRow_lines_of_ne _ _ hne]
          congr 2
          funext k
          by_cases hk : k = i
          · subst hk
            rw [if_neg (by omega), if_neg (by omega), if_pos (by omega), Mem.writeByte_self]
          · rw [Mem.writeByte_of_ne _ _ hk]
            by_cases hin : i + 1 ≤ k ∧ k < len
            · rw [if_pos hin, if_pos (by omega)]
            · rw [if_neg hin, if_neg (show ¬ (i ≤ k ∧ k < len) by omega)]
        · rw [setRow_lines_of_ne _ _ hne, hzero]
        · intro k hk hkl
          rw [setRow_lines_of_ne _ _ hne]
          exact hbytes k (by omega) hkl
      · rw [if_pos hzero, put_at b _ hdst (by omega), hstop]

/-! ## Loops over lines -/

/-- The lines `c .. c + n - 1` moved one place down. -/
theorem rowsDownLoop_eq (n : Nat) :
    ∀ (c : Nat) (b : Buffer), c + n < 128 →
      rowsDownLoop n (c + n : Nat) b = .ok (b.setLines fun j =>
        if c < j ∧ j ≤ c + n then b.lines (j - 1) else b.lines j) := by
  induction n with
  | zero =>
      intro c b _
      rw [rowsDownLoop]
      have hsame : (fun j => if c < j ∧ j ≤ c + 0 then b.lines (j - 1) else b.lines j) =
          b.lines := funext fun j => if_neg (by omega)
      rw [hsame, setLines_self]
  | succ n ih =>
      intro c b hc
      rw [rowsDownLoop, show ((c + (n + 1) : Nat) - 1 : Int) = (c + n : Nat) by omega,
        copyRow_at b hc (by omega), ok_bind, ih c _ (by omega)]
      rw [setRow_setLines]
      congr 2
      funext j
      by_cases hj : j = c + (n + 1)
      · subst hj
        rw [if_neg (by omega), if_pos (by omega), setRow_lines_self]
        rfl
      · rw [setRow_lines_of_ne _ _ hj]
        by_cases hin : c < j ∧ j ≤ c + n
        · rw [if_pos hin, if_pos (by omega), setRow_lines_of_ne _ _ (by omega)]
        · rw [if_neg hin, if_neg (by omega)]

/-- The lines `c + 1 .. c + n` moved one place up. -/
theorem rowsUpLoop_eq (n : Nat) :
    ∀ (c : Nat) (b : Buffer), c + n < 128 →
      rowsUpLoop n c b = .ok (b.setLines fun j =>
        if c ≤ j ∧ j < c + n then b.lines (j + 1) else b.lines j) := by
  induction n with
  | zero =>
      intro c b _
      rw [rowsUpLoop]
      have hsame : (fun j => if c ≤ j ∧ j < c + 0 then b.lines (j + 1) else b.lines j) =
          b.lines := funext fun j => if_neg (by omega)
      rw [hsame, setLines_self]
  | succ n ih =>
      intro c b hc
      rw [rowsUpLoop, show (c + 1 : Int) = (c + 1 : Nat) by omega,
        copyRow_at b (by omega) (by omega), ok_bind, ih (c + 1) _ (by omega)]
      rw [setRow_setLines]
      congr 2
      funext j
      by_cases hj : j = c
      · subst hj
        rw [if_neg (by omega), if_pos (by omega), setRow_lines_self]
      · rw [setRow_lines_of_ne _ _ hj]
        by_cases hin : c + 1 ≤ j ∧ j < c + 1 + n
        · rw [if_pos hin, if_pos (by omega), setRow_lines_of_ne _ _ (by omega)]
        · rw [if_neg hin, if_neg (by omega)]

/-! ## Operations -/

/-- What an operation owes: it completes, the buffer it leaves stands for `t'`, what
is scrolled does not change, and the buffer is marked as changed unless neither its
text nor its mark changed. -/
def Performs (r : Except Fault Buffer) (b : Buffer) (t' : Text) : Prop :=
  ∃ b', r = .ok b' ∧ Represents b' t' ∧ b'.topLine = b.topLine ∧
    (b'.dirty = true ∨ b'.dirty = b.dirty ∧ b'.rows = b.rows)

theorem performs_nothing {b : Buffer} {t : Text} (h : Represents b t) : Performs (.ok b) b t :=
  ⟨b, rfl, h, rfl, Or.inr ⟨rfl, rfl⟩⟩

section Operations

variable {b : Buffer} {t : Text}

/-- The line of the cursor and its length. -/
theorem lineLen_cursor (h : Represents b t) : b.lineLen b.cursorRow = .ok t.line.length := by
  have hcount := h.bounded.count
  rw [show maxLines = 128 from rfl] at hcount
  rw [h.cursorRow]
  refine lineLen_at ?_ (by omega) h.line h.bounded.line
  rw [h.lineCount, t.rows_length]
  omega

theorem insertChar_performs (h : Represents b t) {c : UInt8} (hc : c ≠ 0) :
    Performs (b.insertChar c) b (t.insert maxLineLen c) := by
  have hcount : t.above.length + (t.below.length + 1) ≤ 128 := h.bounded.count
  have hlen : t.line.length = t.left.length + t.right.length := List.length_append
  rw [insertChar, lineLen_cursor h, ok_bind, TextCursor.insert]
  by_cases hfull : 120 ≤ t.line.length
  · rw [if_pos (by omega), if_pos (show maxLineLen ≤ _ from hfull)]
    exact performs_nothing h
  · have hbounded := h.bounded.insert hc
    rw [TextCursor.insert, if_neg (show ¬ maxLineLen ≤ _ from hfull)] at hbounded
    rw [if_neg (by omega), if_neg (show ¬ maxLineLen ≤ _ from hfull), h.cursorRow, h.cursorCol]
    have hloop := shiftRightLoop_eq (r := t.above.length) (by omega) (t.right.length + 1)
      t.left.length b (by omega)
    rw [show ((t.left.length + (t.right.length + 1) : Nat) - 1 : Int) = t.line.length by omega]
      at hloop
    rw [show ((t.line.length : Int) + 1 - t.left.length).toNat = t.right.length + 1 by omega, hloop,
      ok_bind, setRow_cursorRow, setRow_cursorCol, h.cursorRow, h.cursorCol,
      put_at _ _ (by omega) (by omega), ok_bind, setRow_lines_self, setRow_setRow]
    refine ⟨_, rfl, h.edit_line hbounded rfl rfl rfl rfl ?_ ?_ ?_, rfl, Or.inl rfl⟩
    · simp only [setRow_cursorCol, h.cursorCol, List.length_append, List.length_cons,
        List.length_nil]
      omega
    · exact fun i hi => setRow_lines_of_ne _ _ hi
    · rw [setRow_lines_self]
      refine HoldsString.insert h.line fun k hk => ?_
      dsimp only at hk
      by_cases hcol : k = t.left.length
      · rw [hcol, Mem.writeByte_self, if_neg (Nat.lt_irrefl _), if_pos rfl]
      · rw [Mem.writeByte_of_ne _ _ hcol]
        by_cases hin : t.left.length < k
        · rw [if_pos (by omega), if_neg (by omega), if_neg hcol]
        · rw [if_neg (by omega), if_pos (by omega)]

/-- A character of the line of the cursor erased: the loop both erasing operations
run from column `l.length` on. -/
theorem shiftLeft_performs (h : Represents b t) {l r : List UInt8} {c : UInt8}
    (hline : t.line = l ++ c :: r) {t' : Text} (hbounded : t'.Bounded maxLineLen maxLines (· ≠ 0))
    (habove : t'.above = t.above) (hbelow : t'.below = t.below) (hline' : t'.line = l ++ r)
    {col : Int} (hcol : col = (t'.left.length : Int)) :
    ∃ b', shiftLeftLoop b.cursorRow (r.length + 1) l.length b = .ok b' ∧
      b'.cursorCol = b.cursorCol ∧
      Represents { b' with cursorCol := col, dirty := true } t' ∧ b'.topLine = b.topLine := by
  have hcount : t.above.length + (t.below.length + 1) ≤ 128 := h.bounded.count
  have hwidth : t.line.length ≤ 120 := h.bounded.line.1
  have hlen : t.line.length = l.length + (r.length + 1) := by
    rw [hline, List.length_append, List.length_cons]
  have hold := h.line
  rw [hline] at hold
  rw [h.cursorRow, shiftLeftLoop_eq (by omega) _ _ _ (by omega)]
  refine ⟨_, rfl, rfl, h.edit_line hbounded habove hbelow rfl rfl hcol ?_ ?_, rfl⟩
  · exact fun i hi => setRow_lines_of_ne _ _ hi
  · rw [hline']
    refine hold.erase fun k hk => ?_
    dsimp only
    rw [setRow_lines_self]
    by_cases hin : k < l.length
    · rw [if_neg (by omega), if_pos hin]
    · rw [if_pos (by omega), if_neg hin]

/-- A line with `n` bytes of another one and a terminator from index `start` on. -/
def joinedLine (first second : Mem) (start n : Nat) : Mem :=
  Mem.writeByte (fun k => if start ≤ k ∧ k < start + n then second (k - start) else first k)
    (start + n) 0

/-- The table with line `r` replaced and the `m` lines behind line `r + 1` moved up. -/
def joinedLines (b : Buffer) (r m : Nat) (line : Mem) : Nat → Mem := fun j =>
  if r + 1 ≤ j ∧ j < r + 1 + m then (b.setRow r line).lines (j + 1) else (b.setRow r line).lines j

/-- How much of a line `backspace_char` copies: as much as there is room for. -/
theorem copyLen_eq {previous : List UInt8} (hprevious : previous.length ≤ 120)
    (right : List UInt8) : ∃ n : Nat, n ≤ right.length ∧ previous.length + n ≤ 120 ∧
      right.take (maxLineLen - previous.length) = right.take n ∧
      (if 120 - (previous.length : Int) > right.length then (right.length : Int)
        else 120 - previous.length) = n := by
  by_cases hfits : previous.length + right.length ≤ 120
  · refine ⟨right.length, Nat.le_refl _, hfits, ?_, ?_⟩
    · rw [List.take_length, List.take_of_length_le (by unfold maxLineLen; omega)]
    · split <;> omega
  · refine ⟨120 - previous.length, by omega, by omega, rfl, ?_⟩
    rw [if_neg (by omega)]
    omega

/-- What `backspace_char` does at the start of line `r + 1`. -/
theorem backspaceChar_start {r m n : Nat} {previous right : List UInt8}
    (hrow : b.cursorRow = (r + 1 : Nat)) (hcol : b.cursorCol = 0)
    (hlineCount : b.lineCount = (r + 1 + (m + 1) : Nat)) (hcount : r + 1 + (m + 1) ≤ 128)
    (hprevious : HoldsString (b.lines r) previous) (hfitsPrevious : FitsLine previous)
    (hright : HoldsString (b.lines (r + 1)) right) (hfitsRight : FitsLine right)
    (hroom : previous.length + n ≤ 120)
    (hcopy : (if 120 - (previous.length : Int) > right.length then (right.length : Int)
      else 120 - previous.length) = n) :
    b.backspaceChar = .ok { b with
      lines := b.joinedLines r m (joinedLine (b.lines r) (b.lines (r + 1)) previous.length n)
      lineCount := (r + 1 + m : Nat)
      cursorRow := r
      cursorCol := previous.length
      dirty := true } := by
  rw [backspaceChar, if_neg (by omega), if_pos (by omega), hrow,
    show ((r + 1 : Nat) - 1 : Int) = r by omega,
    lineLen_at (by omega) (by omega) hprevious hfitsPrevious, ok_bind,
    lineLen_at (by omega) (by omega) hright hfitsRight, ok_bind, hcopy]
  dsimp only
  rw [Int.toNat_natCast, show (0 : Int) = (0 : Nat) from rfl,
    joinLoop_eq (by omega) n 0 b (by omega), ok_bind, setRow_cursorRow, hrow,
    show ((r + 1 : Nat) - 1 : Int) = r by omega,
    show ((previous.length : Int) + n) = (previous.length + n : Nat) by omega,
    put_at _ _ (by omega) (by omega), ok_bind, setRow_setRow, setRow_lines_self,
    setRow_lineCount, setRow_cursorRow, hlineCount, hrow,
    show ((r + 1 + (m + 1) : Nat) - 1 - (r + 1 : Nat) : Int).toNat = m by omega,
    rowsUpLoop_eq m (r + 1) _ (by omega), ok_bind, setRow_setLines, setLines_lineCount,
    setLines_cursorRow, hlineCount, hrow, show ((r + 1 : Nat) - 1 : Int) = r by omega,
    show ((r + 1 + (m + 1) : Nat) - 1 : Int) = (r + 1 + m : Nat) by omega]
  rfl

/-- The line of the cursor joined to the one above. -/
theorem backspaceChar_join {init below : List (List UInt8)} {previous right : List UInt8}
    (h : Represents b ⟨init ++ [previous], [], right, below⟩) :
    Performs b.backspaceChar b
      ⟨init, previous, right.take (maxLineLen - previous.length), below⟩ := by
  have hcount : (init ++ [previous]).length + (below.length + 1) ≤ 128 := h.bounded.count
  have hbounded := h.bounded.eraseBefore
  have hprevious : HoldsString (b.lines init.length) previous := h.above (by simp)
  have hright : HoldsString (b.lines (init.length + 1)) right := by
    have hline := h.line
    rwa [TextCursor.line, List.nil_append, List.length_append] at hline
  have hfitsPrevious : FitsLine previous := h.bounded.above previous (by simp)
  have hfitsRight : FitsLine right := h.bounded.line
  have hrow : b.cursorRow = (init.length + 1 : Nat) := by
    rw [h.cursorRow, List.length_append, List.length_cons, List.length_nil]
  have hlineCount : b.lineCount = (init.length + 1 + (below.length + 1) : Nat) := by
    rw [h.lineCount, TextCursor.rows_length]
    simp
  rw [List.length_append, List.length_cons, List.length_nil] at hcount
  obtain ⟨n, hn, hroom, htake, hcopy⟩ := copyLen_eq hfitsPrevious.length_le right
  rw [backspaceChar_start hrow h.cursorCol hlineCount hcount hprevious hfitsPrevious hright
    hfitsRight hroom hcopy, htake]
  refine ⟨_, rfl, Represents.of_parts ?_ ?_ rfl rfl ?_ ?_ ?_, rfl, Or.inl rfl⟩
  · simpa [TextCursor.eraseBefore, htake] using hbounded
  · dsimp only
    omega
  · intro i s hi
    have hlt : i < init.length := (List.getElem?_eq_some_iff.mp hi).1
    dsimp only
    rw [joinedLines, if_neg (by omega), setRow_lines_of_ne _ _ (by omega)]
    exact h.above (by rw [List.getElem?_append_left hlt]; exact hi)
  · dsimp only
    rw [joinedLines, if_neg (by omega), setRow_lines_self]
    refine hprevious.join hright hn (fun k hk => ?_) (fun k hk => ?_) ?_
    · rw [joinedLine, Mem.writeByte_of_ne _ _ (by omega), if_neg (by omega)]
    · rw [joinedLine, Mem.writeByte_of_ne _ _ (by omega), if_pos (by omega),
        Nat.add_sub_cancel_left]
    · rw [joinedLine, Mem.writeByte_self]
  · intro j s hj
    have hlt : j < below.length := (List.getElem?_eq_some_iff.mp hj).1
    have hold := h.below (j := j) hj
    rw [List.length_append, List.length_cons, List.length_nil] at hold
    dsimp only
    rw [joinedLines, if_pos (by omega), setRow_lines_of_ne _ _ (by omega)]
    rwa [show init.length + 1 + j + 1 = init.length + (0 + 1) + 1 + j by omega]

theorem backspaceChar_performs (h : Represents b t) :
    Performs b.backspaceChar b (t.eraseBefore maxLineLen) := by
  obtain ⟨above, left, right, below⟩ := t
  have hbounded := h.bounded.eraseBefore
  rw [TextCursor.eraseBefore] at hbounded ⊢
  rcases List.eq_nil_or_concat left with rfl | ⟨l, c, rfl⟩
  · rcases List.eq_nil_or_concat above with rfl | ⟨init, previous, rfl⟩
    · -- the cursor stands at the start of the text
      have hrow : b.cursorRow = 0 := h.cursorRow
      have hcol : b.cursorCol = 0 := h.cursorCol
      rw [backspaceChar, if_neg (by omega), if_neg (by omega)]
      exact performs_nothing h
    · rw [List.concat_eq_append] at h ⊢
      simpa using backspaceChar_join h
  · rw [List.concat_eq_append] at h hbounded ⊢
    have hcol : b.cursorCol = (l.length + 1 : Nat) := by
      rw [h.cursorCol, List.length_append, List.length_cons, List.length_nil]
    have hline : TextCursor.line ⟨above, l ++ [c], right, below⟩ = l ++ c :: right := by
      simp [TextCursor.line]
    simp only [List.append_eq_nil_iff, List.cons_ne_nil, and_false, if_false,
      List.dropLast_concat] at hbounded ⊢
    obtain ⟨b', hloop, hsame, hrep, htop⟩ := shiftLeft_performs h hline hbounded rfl rfl rfl
      (show (l.length : Int) = _ from rfl)
    rw [backspaceChar, if_pos (by omega), lineLen_cursor h, ok_bind, hline, List.length_append,
      List.length_cons, hcol, show ((l.length + 1 : Nat) - 1 : Int) = l.length by omega,
      show (((l.length + (right.length + 1) : Nat) : Int) - l.length).toNat = right.length + 1 by
        omega, hloop, ok_bind, hsame, hcol]
    rw [show ((l.length + 1 : Nat) - 1 : Int) = l.length by omega]
    exact ⟨_, rfl, hrep, htop, Or.inl rfl⟩

/-- The cursor anywhere in the text. -/
theorem represents_moveTo (h : Represents b t) {row col : Nat} (hrow : row < t.rows.length)
    (hcol : col ≤ (t.rows.getD row []).length) :
    Represents { b with cursorRow := row, cursorCol := col } (t.moveTo row col) := by
  have hrows := t.rows_moveTo hrow col
  refine ⟨h.bounded.moveTo hrow col, ?_, ?_, ?_, ?_⟩
  · rw [hrows]
    exact h.lineCount
  · simp only [TextCursor.moveTo, List.length_take]
    omega
  · simp only [TextCursor.moveTo, List.length_take]
    omega
  · rw [hrows]
    exact h.lines

/-- The cursor at the start of the next line, where the line break is the one before it. -/
theorem represents_nextLine {above below : List (List UInt8)} {left next : List UInt8}
    (h : Represents b ⟨above, left, [], next :: below⟩) :
    Represents { b with cursorRow := b.cursorRow + 1, cursorCol := 0 }
      ⟨above ++ [left], [], next, below⟩ := by
  have hrows : TextCursor.rows ⟨above, left, [], next :: below⟩ =
      (above ++ [left]) ++ next :: below := by
    simp [TextCursor.rows, TextCursor.line]
  have hlength : (above ++ [left]).length = above.length + 1 := by simp
  have hmoved := represents_moveTo h (show above.length + 1 < _ by rw [hrows]; simp)
    (Nat.zero_le _)
  have htext : TextCursor.moveTo ⟨above, left, [], next :: below⟩ (above.length + 1) 0 =
      ⟨above ++ [left], [], next, below⟩ := by
    rw [TextCursor.moveTo, hrows, ← hlength, List.take_left, List.getD_append_right _ _ _ _
      (Nat.le_refl _), Nat.sub_self, ← List.drop_drop, List.drop_left]
    rfl
  rw [htext] at hmoved
  rw [h.cursorRow]
  exact hmoved

theorem deleteChar_performs (h : Represents b t) :
    Performs b.deleteChar b (t.eraseAfter maxLineLen) := by
  obtain ⟨above, left, right, below⟩ := t
  have hcol : b.cursorCol = (left.length : Int) := h.cursorCol
  have hrow : b.cursorRow = (above.length : Int) := h.cursorRow
  have hlineCount : b.lineCount = (above.length + (below.length + 1) : Nat) := by
    rw [h.lineCount, TextCursor.rows_length]
  rw [deleteChar, lineLen_cursor h, ok_bind, TextCursor.line, List.length_append]
  dsimp only
  cases right with
  | cons c right =>
      have hbounded : (⟨above, left, right, below⟩ : Text).Bounded maxLineLen maxLines (· ≠ 0) :=
        h.bounded.eraseAfter
      obtain ⟨b', hloop, hsame, hrep, htop⟩ := shiftLeft_performs h (l := left) (c := c)
        (r := right) rfl hbounded rfl rfl rfl (show (left.length : Int) = _ from rfl)
      rw [if_pos (by rw [hcol, List.length_cons]; omega), hcol, List.length_cons,
        show (((left.length + (right.length + 1) : Nat) : Int) - left.length).toNat
          = right.length + 1 by omega, hloop, ok_bind]
      refine ⟨_, rfl, ?_, htop, Or.inl rfl⟩
      rw [← hcol, ← hsame] at hrep
      exact hrep
  | nil =>
      rw [if_neg (by rw [hcol]; simp)]
      cases below with
      | nil =>
          rw [List.length_nil] at hlineCount
          rw [if_neg (by omega)]
          exact performs_nothing h
      | cons next below =>
          rw [List.length_cons] at hlineCount
          rw [if_pos (by omega)]
          exact backspaceChar_join (represents_nextLine h)

/-- The table after line `r` is broken at column `col`, `len` bytes behind it, with `m`
lines below. -/
def splitLines (b : Buffer) (r col len m : Nat) : Nat → Mem := fun j =>
  if r + 1 < j ∧ j ≤ r + 1 + m then b.lines (j - 1)
  else if j = r + 1 then fun k =>
    if k < len then b.lines r (col + k) else if k = len then 0 else b.lines j k
  else if j = r then (b.lines r).writeByte col 0
  else b.lines j

/-- What `insert_newline` does in line `r` with `m` lines below it. -/
theorem insertNewline_eq {r m : Nat} {left right : List UInt8} (hrow : b.cursorRow = r)
    (hcol : b.cursorCol = left.length) (hlineCount : b.lineCount = (r + 1 + m : Nat))
    (hroom : r + 1 + m < 128) (hline : HoldsString (b.lines r) (left ++ right))
    (hfits : FitsLine (left ++ right)) :
    b.insertNewline = .ok { b with
      lines := b.splitLines r left.length right.length m
      lineCount := (r + 1 + m : Nat) + 1
      cursorRow := r + 1
      cursorCol := 0
      dirty := true } := by
  have hwidth := hfits.length_le
  have hlen : (left ++ right).length = left.length + right.length := List.length_append
  have hend : b.lines r (left.length + right.length) = 0 := by
    rw [← hlen]
    exact hline.terminator
  have hbytes : ∀ k, 0 ≤ k → k < right.length → b.lines r (left.length + k) ≠ 0 :=
    fun k _ hk => hline.byte_ne_zero hfits (by omega)
  rw [insertNewline, if_neg (by omega), hrow, lineLen_at (by omega) (by omega) hline hfits, ok_bind,
    hlineCount, show (((r + 1 + m : Nat) : Int) - (r + 1)).toNat = m by omega,
    rowsDownLoop_eq m (r + 1) b (by omega), ok_bind, setLines_cursorRow, setLines_cursorCol, hrow,
    hcol, show ((r : Int) + 1) = (r + 1 : Nat) by omega, show (0 : Int) = (0 : Nat) from rfl,
    copyStringLoop_eq (by omega) (by omega) (by omega)
      (show left.length + right.length < 121 by omega) maxLineLen 0 _ rfl (by omega)
      (by rw [setLines_lines, if_neg (by omega), hend])
      (by rw [setLines_lines, if_neg (by omega)]; exact hbytes),
    ok_bind, setRow_cursorRow, setRow_cursorCol, setLines_cursorRow, setLines_cursorCol, hrow,
    hcol, put_at _ _ (by omega) (by omega), ok_bind]
  simp only [setRow_lineCount, setLines_lineCount, hlineCount, setRow_cursorRow,
    setLines_cursorRow, hrow]
  refine congrArg Except.ok ?_
  congr 1
  -- the two tables, line by line
  funext j
  rw [splitLines]
  by_cases hcut : j = r
  · subst hcut
    rw [setRow_lines_self, setRow_lines_of_ne _ _ (by omega), setLines_lines, if_neg (by omega),
      if_neg (by omega), if_neg (by omega), if_pos rfl]
  · rw [setRow_lines_of_ne _ _ hcut]
    by_cases hnew : j = r + 1
    · subst hnew
      rw [setRow_lines_self, if_neg (by omega), if_pos rfl, setLines_lines, if_neg (by omega),
        if_neg (by omega)]
      simp only [Nat.zero_le, true_and]
    · rw [setRow_lines_of_ne _ _ hnew, setLines_lines, if_neg hnew, if_neg hcut]

theorem insertNewline_performs (h : Represents b t) :
    Performs b.insertNewline b (t.split maxLines) := by
  have hbounded := h.bounded.split
  have hrows := t.rows_length
  have hlineCount := h.lineCount
  rw [TextCursor.split] at hbounded ⊢
  by_cases hfull : 128 ≤ t.rows.length
  · rw [insertNewline, if_pos (by omega), if_pos (show maxLines ≤ _ from hfull)]
    exact performs_nothing h
  · rw [if_neg (show ¬ maxLines ≤ _ from hfull)] at hbounded ⊢
    have hline : HoldsString (b.lines t.above.length) (t.left ++ t.right) := h.line
    rw [insertNewline_eq (m := t.below.length) h.cursorRow h.cursorCol (by omega) (by omega) hline
      h.bounded.line]
    refine ⟨_, rfl, Represents.of_parts hbounded ?_ ?_ rfl ?_ ?_ ?_, rfl, Or.inl rfl⟩
    · simp only [List.length_append, List.length_cons, List.length_nil]
      omega
    · simp only [List.length_append, List.length_cons, List.length_nil]
      omega
    · intro i s hi
      dsimp only at hi ⊢
      rcases Nat.lt_or_eq_of_le (Nat.le_of_lt_succ (show i < t.above.length + 1 by
        simpa using (List.getElem?_eq_some_iff.mp hi).1)) with hlt | rfl
      · rw [splitLines, if_neg (by omega), if_neg (by omega), if_neg (by omega)]
        exact h.above (by rw [← hi, List.getElem?_append_left hlt])
      · -- the line of the cursor, cut
        rw [List.getElem?_concat_length] at hi
        obtain rfl := Option.some.inj hi
        rw [splitLines, if_neg (by omega), if_neg (by omega), if_pos rfl]
        exact hline.left (fun k hk => Mem.writeByte_of_ne _ _ (Nat.ne_of_lt hk))
          (Mem.writeByte_self ..)
    · -- the rest of it, copied
      simp only [List.length_append, List.length_cons, List.length_nil, Nat.zero_add]
      rw [splitLines, if_neg (by omega), if_pos rfl]
      refine hline.right fun k hk => ?_
      rcases Nat.lt_or_eq_of_le hk with hlt | rfl
      · rw [if_pos hlt]
      · rw [if_neg (Nat.lt_irrefl _), if_pos rfl, ← List.length_append, hline.terminator]
    · intro j s hj
      have hlt : j < t.below.length := (List.getElem?_eq_some_iff.mp hj).1
      simp only [List.length_append, List.length_cons, List.length_nil, Nat.zero_add]
      rw [splitLines, if_pos (by omega),
        show t.above.length + 1 + 1 + j - 1 = t.above.length + 1 + j by omega]
      exact h.below hj

/-- The text with the cursor moved by so many lines and columns, as far as it goes. -/
def moveText (t : Text) (drow dcol : Int) : Text :=
  let row := min (t.above.length + drow).toNat (t.rows.length - 1)
  t.moveTo row (min (t.left.length + dcol).toNat (t.rows.getD row []).length)

theorem moveCursor_performs (h : Represents b t) (drow dcol : Int) :
    Performs (b.moveCursor drow dcol) b (moveText t drow dcol) := by
  have hcount : t.above.length + (t.below.length + 1) ≤ 128 := h.bounded.count
  have hrows := t.rows_length
  have hlineCount := h.lineCount
  have hcursorRow := h.cursorRow
  have hcursorCol := h.cursorCol
  obtain ⟨row, hrow⟩ : ∃ row, row = min (t.above.length + drow).toNat (t.rows.length - 1) :=
    ⟨_, rfl⟩
  have hlt : row < t.rows.length := by omega
  have hget : t.rows[row]? = some (t.rows.getD row []) := by
    rw [List.getElem?_eq_getElem hlt, List.getD_eq_getElem _ _ hlt]
  have hfits : FitsLine (t.rows.getD row []) := h.bounded.row (List.mem_of_getElem? hget)
  have hclamp : (if (if b.cursorRow + drow < 0 then 0 else b.cursorRow + drow) ≥ b.lineCount
      then b.lineCount - 1 else if b.cursorRow + drow < 0 then 0 else b.cursorRow + drow) =
      (row : Int) := by
    split <;> split at * <;> omega
  rw [moveCursor, moveText, ← hrow]
  dsimp only
  rw [hclamp, lineLen_at (by omega) (by omega) (h.lines row _ hget) hfits, ok_bind]
  have hcol : (if (if b.cursorCol + dcol < 0 then 0 else b.cursorCol + dcol) >
      ((t.rows.getD row []).length : Int) then ((t.rows.getD row []).length : Int)
      else if b.cursorCol + dcol < 0 then 0 else b.cursorCol + dcol) =
      (min (t.left.length + dcol).toNat (t.rows.getD row []).length : Nat) := by
    split <;> split at * <;> omega
  rw [hcol]
  exact ⟨_, rfl, represents_moveTo h hlt (Nat.min_le_right ..), rfl, Or.inr ⟨rfl, rfl⟩⟩

end Operations

end Buffer

end FalastinOS.Editor
