/-
  Editor/Buffer.lean --- the text buffer of `editor.c` and its operations.

  The buffer is a table of 128 lines of 121 bytes, each a C string; behind the
  terminator of a line, and in the lines behind the last one, stale bytes remain.
  The counters are C `int`s; they stay small, so they are integers.

  Every access to the table is checked: an index outside it, and a line without a
  terminator given to `strlen`, have no defined outcome.  What the operations mean
  is said in `Editor/Document.lean`, and that they mean it in `Editor/Refine.lean`.
-/
import FalastinOS.Foundation.Execution
import FalastinOS.Foundation.Memory
import Mathlib.Logic.Function.Basic

set_option autoImplicit false

namespace FalastinOS.Editor

open FalastinOS.Foundation

/-- `EDIT_ROWS`. -/
def editRows : Int := 22

/-- `EDIT_COLS`. -/
def editCols : Nat := 80

/-- `MAX_LINES`. -/
def maxLines : Nat := 128

/-- `MAX_LINE_LEN`. -/
def maxLineLen : Nat := 120

/-- `FILE_BUFFER_SIZE - 1`. -/
def fileBufferMax : Nat := 16383

/-- The character '\n'. -/
def newline : UInt8 := 10

/-- The character '\r'. -/
def carriageReturn : UInt8 := 13

/-- Why an operation has no defined outcome. -/
inductive Fault where
  /-- an access to `lines[row][col]` outside the table -/
  | cell (row col : Int)
  /-- `strlen` of a line without a terminator -/
  | unterminated (row : Int)
  /-- the file system was left without an outcome -/
  | fileSystem
  deriving DecidableEq, Repr

/-- The static variables of `editor.c`, the file name apart. -/
structure Buffer where
  lines : Nat → Mem
  lineCount : Int
  cursorRow : Int
  cursorCol : Int
  topLine : Int
  dirty : Bool

namespace Buffer

/-! ## The table -/

/-- The row `r` replaced. -/
def setRow (b : Buffer) (r : Nat) (line : Mem) : Buffer :=
  { b with lines := Function.update b.lines r line }

/-- `lines[row][col]`. -/
def get (b : Buffer) (row col : Int) : Except Fault UInt8 :=
  if 0 ≤ row ∧ row < 128 ∧ 0 ≤ col ∧ col < 121 then .ok (b.lines row.toNat col.toNat)
  else .error (.cell row col)

/-- `lines[row][col] = c`. -/
def put (b : Buffer) (row col : Int) (c : UInt8) : Except Fault Buffer :=
  if 0 ≤ row ∧ row < 128 ∧ 0 ≤ col ∧ col < 121 then
    .ok (b.setRow row.toNat ((b.lines row.toNat).writeByte col.toNat c))
  else .error (.cell row col)

/-- `memcpy(lines[dst], lines[src], MAX_LINE_LEN + 1)`. -/
def copyRow (b : Buffer) (dst src : Int) : Except Fault Buffer :=
  if 0 ≤ dst ∧ dst < 128 then
    if 0 ≤ src ∧ src < 128 then .ok (b.setRow dst.toNat (b.lines src.toNat))
    else .error (.cell src 0)
  else .error (.cell dst 0)

/-- The loop of `strlen` from index `i` on, `n` bytes left in the line. -/
def strlenLoop (line : Mem) : Nat → Nat → Option Nat
  | 0, _ => none
  | n + 1, i => if line i = 0 then some i else strlenLoop line n (i + 1)

/-- `line_len(row)`. -/
def lineLen (b : Buffer) (row : Int) : Except Fault Int :=
  if row < 0 ∨ b.lineCount ≤ row then .ok 0
  else if row < 128 then
    match strlenLoop (b.lines row.toNat) 121 0 with
    | some len => .ok len
    | none => .error (.unterminated row)
  else .error (.cell row 0)

/-- `clear_editor_state()`. -/
def clearEditorState (b : Buffer) : Buffer where
  lines := fun row => if row < maxLines then (b.lines row).writeByte 0 0 else b.lines row
  lineCount := 1
  cursorRow := 0
  cursorCol := 0
  topLine := 0
  dirty := false

/-! ## Files -/

/-- The loop of `load_file` over the bytes of the file, at column `col`. -/
def loadLoop : List UInt8 → Int → Buffer → Except Fault Buffer
  | [], _, b => .ok b
  | c :: rest, col, b =>
      if ¬ b.lineCount ≤ 128 then .ok b
      else if c = carriageReturn then loadLoop rest col b
      else if c = newline then do
        let b ← b.put (b.lineCount - 1) col 0
        if b.lineCount < 128 then
          let b : Buffer := { b with lineCount := b.lineCount + 1 }
          let b ← b.put (b.lineCount - 1) 0 0
          loadLoop rest 0 b
        else loadLoop rest col b
      else if col < 120 then do
        let b ← b.put (b.lineCount - 1) col c
        let b ← b.put (b.lineCount - 1) (col + 1) 0
        loadLoop rest (col + 1) b
      else loadLoop rest col b

/-- `load_file(name)` on the bytes that `fs_read` stored; none when it returned 0 or
less. -/
def loadFile (b : Buffer) (bytes : List UInt8) : Except Fault Buffer :=
  let b := b.clearEditorState
  if bytes = [] then .ok b
  else do
    let b ← loadLoop bytes 0 { b with lineCount := 1 }
    return { b with cursorRow := 0, cursorCol := 0, topLine := 0, dirty := false }

/-- The inner loop of `save_file` from column `col` on, `n` bytes left in the line:
what the buffer holds after it. -/
def saveLine (b : Buffer) (row : Int) : Nat → Int → List UInt8 → Except Fault (List UInt8)
  | 0, col, _ => .error (.cell row col)
  | n + 1, col, out => do
      let c ← b.get row col
      if c ≠ 0 ∧ out.length < fileBufferMax then saveLine b row n (col + 1) (out ++ [c])
      else return out

/-- The outer loop of `save_file` from `row` on, `n` rows left. -/
def saveLoop (b : Buffer) : Nat → Int → List UInt8 → Except Fault (List UInt8)
  | 0, _, out => .ok out
  | n + 1, row, out =>
      if out.length < fileBufferMax then do
        let out ← saveLine b row 121 0 out
        let out := if out.length < fileBufferMax then out ++ [newline] else out
        saveLoop b n (row + 1) out
      else .ok out

/-- The bytes `save_file()` hands to `fs_write`. -/
def saveBytes (b : Buffer) : Except Fault (List UInt8) := saveLoop b b.lineCount.toNat 0 []

/-! ## Editing -/

/-- `for (i = len; i >= cursor_col; i--) lines[row][i + 1] = lines[row][i]` from `i`
on, `n` iterations left. -/
def shiftRightLoop (row : Int) : Nat → Int → Buffer → Except Fault Buffer
  | 0, _, b => .ok b
  | n + 1, i, b => do
      let c ← b.get row i
      let b ← b.put row (i + 1) c
      shiftRightLoop row n (i - 1) b

/-- `insert_char(c)`. -/
def insertChar (b : Buffer) (c : UInt8) : Except Fault Buffer := do
  let len ← b.lineLen b.cursorRow
  if len ≥ 120 then return b
  let b ← shiftRightLoop b.cursorRow (len + 1 - b.cursorCol).toNat len b
  let b ← b.put b.cursorRow b.cursorCol c
  return { b with cursorCol := b.cursorCol + 1, dirty := true }

/-- `for (row = line_count; row > cursor_row + 1; row--) memcpy(lines[row],
lines[row - 1], ..)` from `row` on, `n` iterations left. -/
def rowsDownLoop : Nat → Int → Buffer → Except Fault Buffer
  | 0, _, b => .ok b
  | n + 1, row, b => do
      let b ← b.copyRow row (row - 1)
      rowsDownLoop n (row - 1) b

/-- `copy_string(lines[dst], lines[src] + col, MAX_LINE_LEN + 1)` from index `i` on,
`n` characters of room left. -/
def copyStringLoop (dst src col : Int) : Nat → Int → Buffer → Except Fault Buffer
  | 0, i, b => do
      let _ ← b.get src (col + i)
      b.put dst i 0
  | n + 1, i, b => do
      let c ← b.get src (col + i)
      if c = 0 then b.put dst i 0
      else
        let b ← b.put dst i c
        copyStringLoop dst src col n (i + 1) b

/-- `insert_newline()`. -/
def insertNewline (b : Buffer) : Except Fault Buffer := do
  if b.lineCount ≥ 128 then return b
  let _ ← b.lineLen b.cursorRow
  let b ← rowsDownLoop (b.lineCount - (b.cursorRow + 1)).toNat b.lineCount b
  let b ← copyStringLoop (b.cursorRow + 1) b.cursorRow b.cursorCol maxLineLen 0 b
  let b ← b.put b.cursorRow b.cursorCol 0
  return { b with
    lineCount := b.lineCount + 1, cursorRow := b.cursorRow + 1, cursorCol := 0, dirty := true }

/-- `for (; i < len; i++) lines[row][i] = lines[row][i + 1]` from `i` on, `n`
iterations left. -/
def shiftLeftLoop (row : Int) : Nat → Int → Buffer → Except Fault Buffer
  | 0, _, b => .ok b
  | n + 1, i, b => do
      let c ← b.get row (i + 1)
      let b ← b.put row i c
      shiftLeftLoop row n (i + 1) b

/-- `lines[row - 1][at + i] = lines[row][i]` from `i` on, `n` iterations left. -/
def joinLoop (row start : Int) : Nat → Int → Buffer → Except Fault Buffer
  | 0, _, b => .ok b
  | n + 1, i, b => do
      let c ← b.get row i
      let b ← b.put (row - 1) (start + i) c
      joinLoop row start n (i + 1) b

/-- `for (; row < line_count - 1; row++) memcpy(lines[row], lines[row + 1], ..)` from
`row` on, `n` iterations left. -/
def rowsUpLoop : Nat → Int → Buffer → Except Fault Buffer
  | 0, _, b => .ok b
  | n + 1, row, b => do
      let b ← b.copyRow row (row + 1)
      rowsUpLoop n (row + 1) b

/-- `backspace_char()`. -/
def backspaceChar (b : Buffer) : Except Fault Buffer := do
  if b.cursorCol > 0 then
    let len ← b.lineLen b.cursorRow
    let b ← shiftLeftLoop b.cursorRow (len - (b.cursorCol - 1)).toNat (b.cursorCol - 1) b
    return { b with cursorCol := b.cursorCol - 1, dirty := true }
  if b.cursorRow > 0 then
    let prevLen ← b.lineLen (b.cursorRow - 1)
    let curLen ← b.lineLen b.cursorRow
    let copyLen := if 120 - prevLen > curLen then curLen else 120 - prevLen
    let b ← joinLoop b.cursorRow prevLen copyLen.toNat 0 b
    let b ← b.put (b.cursorRow - 1) (prevLen + copyLen) 0
    let b ← rowsUpLoop (b.lineCount - 1 - b.cursorRow).toNat b.cursorRow b
    return { b with
      lineCount := b.lineCount - 1, cursorRow := b.cursorRow - 1, cursorCol := prevLen,
      dirty := true }
  return b

/-- `delete_char()`. -/
def deleteChar (b : Buffer) : Except Fault Buffer := do
  let len ← b.lineLen b.cursorRow
  if b.cursorCol < len then
    let b ← shiftLeftLoop b.cursorRow (len - b.cursorCol).toNat b.cursorCol b
    return { b with dirty := true }
  if b.cursorRow < b.lineCount - 1 then
    backspaceChar { b with cursorRow := b.cursorRow + 1, cursorCol := 0 }
  else return b

/-- `move_cursor(drow, dcol)`. -/
def moveCursor (b : Buffer) (drow dcol : Int) : Except Fault Buffer := do
  let row := b.cursorRow + drow
  let row := if row < 0 then 0 else row
  let row := if row ≥ b.lineCount then b.lineCount - 1 else row
  let col := b.cursorCol + dcol
  let col := if col < 0 then 0 else col
  let len ← b.lineLen row
  let col := if col > len then len else col
  return { b with cursorRow := row, cursorCol := col }

/-! ## Drawing -/

/-- `ensure_cursor_visible()`. -/
def ensureCursorVisible (b : Buffer) : Buffer :=
  let top := if b.cursorRow < b.topLine then b.cursorRow else b.topLine
  let top := if b.cursorRow ≥ top + editRows then b.cursorRow - editRows + 1 else top
  let top := if top < 0 then 0 else top
  { b with topLine := top }

/-- The characters of a line that `draw_editor` puts on the screen, from column `col`
on, `n` columns left. -/
def drawLine (b : Buffer) (row : Int) : Nat → Int → Except Fault (List UInt8)
  | 0, _ => .ok []
  | n + 1, col => do
      let c ← b.get row col
      if c = 0 then return []
      let rest ← drawLine b row n (col + 1)
      return c :: rest

/-- The screen rows of `draw_editor` from line `row` on, `n` screen rows left. -/
def drawRows (b : Buffer) : Nat → Int → Except Fault (List (List UInt8))
  | 0, _ => .ok []
  | n + 1, row => do
      let shown ← if row < b.lineCount then drawLine b row editCols 0 else .ok []
      let rest ← drawRows b n (row + 1)
      return shown :: rest

/-- `draw_editor()`: the text of the screen, and the state after it. -/
def drawEditor (b : Buffer) : Except Fault (List (List UInt8) × Buffer) := do
  let b := b.ensureCursorVisible
  let screen ← drawRows b editRows.toNat b.topLine
  return (screen, b)

end Buffer

end FalastinOS.Editor
