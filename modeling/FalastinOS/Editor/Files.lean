/-
  Editor/Files.lean --- loading and saving.

  `load_file` reads the bytes of a file into the table and `save_file` writes the
  lines of the table to the file.  Both are first described as functions on lists of
  bytes: `loadRows` and `serialize`.  A saved line ends with a newline; a loaded
  newline starts another line, up to the last line of the table, and a character
  for which a line has no room is dropped.

  The two are not inverse to each other: see `Editor/RoundTrip.lean`.
-/
import FalastinOS.DiskFs.Contents
import FalastinOS.Editor.Refine

set_option autoImplicit false

namespace FalastinOS.Editor

open FalastinOS.Foundation FalastinOS.DiskFs

/-! ## Loading -/

/-- One byte of a file: `rows` are finished and `line` is being filled. -/
def loadStep (state : List (List UInt8) × List UInt8) (c : UInt8) :
    List (List UInt8) × List UInt8 :=
  if c = carriageReturn then state
  else if c = newline then
    if state.1.length + 1 < maxLines then (state.1 ++ [state.2], []) else state
  else if state.2.length < maxLineLen then (state.1, state.2 ++ [c])
  else state

/-- The bytes that `load_file` puts into the lines of the table. -/
def loadRows (bytes : List UInt8) : List (List UInt8) :=
  let state := bytes.foldl loadStep ([], [])
  state.1 ++ [state.2]

/-- A string ends at its first NUL. -/
def upToNul (row : List UInt8) : List UInt8 := row.takeWhile (· ≠ 0)

/-- The lines a file is shown as. -/
def shownRows (bytes : List UInt8) : List (List UInt8) := (loadRows bytes).map upToNul

/-- The text with the cursor at its start. -/
def startText : List (List UInt8) → Text
  | [] => ⟨[], [], [], []⟩
  | row :: rows => ⟨[], [], row, rows⟩

theorem rows_startText {rows : List (List UInt8)} (h : rows ≠ []) :
    (startText rows).rows = rows := by
  cases rows with
  | nil => exact absurd rfl h
  | cons row rows => rfl

/-- The table while a file is loaded. -/
structure Loading (b : Buffer) (state : List (List UInt8) × List UInt8) : Prop where
  lineCount : b.lineCount = (state.1.length + 1 : Nat)
  count_le : state.1.length + 1 ≤ 128
  width : ∀ row ∈ state.1 ++ [state.2], row.length ≤ 120
  lines : ∀ i row, (state.1 ++ [state.2])[i]? = some row → HoldsString (b.lines i) row

namespace Loading

variable {b : Buffer} {rows : List (List UInt8)} {line : List UInt8}

theorem current (h : Loading b (rows, line)) :
    line.length ≤ 120 ∧ HoldsString (b.lines rows.length) line :=
  ⟨h.width line (by simp), h.lines _ _ (by simp)⟩

/-- Rows before the current one. -/
theorem earlier (h : Loading b (rows, line)) {i : Nat} {row : List UInt8}
    (hi : rows[i]? = some row) : HoldsString (b.lines i) row :=
  h.lines i row (by
    rw [List.getElem?_append_left (List.getElem?_eq_some_iff.mp hi).1]
    exact hi)

/-- Another string in the current line. -/
theorem setCurrent (h : Loading b (rows, line)) {cells : Mem} {s : List UInt8}
    (hlen : s.length ≤ 120) (hs : HoldsString cells s) :
    Loading (b.setRow rows.length cells) (rows, s) := by
  refine ⟨h.lineCount, h.count_le, fun row hrow => ?_, fun i row hi => ?_⟩
  · rcases List.mem_append.mp hrow with hearlier | hlast
    · exact h.width row (List.mem_append_left _ hearlier)
    · rw [List.mem_singleton.mp hlast]
      exact hlen
  · rw [List.getElem?_append] at hi
    split at hi
    · rename_i hlt
      rw [Buffer.setRow_lines_of_ne _ _ (Nat.ne_of_lt hlt)]
      exact h.earlier hi
    · obtain ⟨hlt, hrow⟩ := List.getElem?_eq_some_iff.mp hi
      simp only [List.length_cons, List.length_nil] at hlt
      obtain rfl : i = rows.length := by dsimp only at *; omega
      simp only [Nat.sub_self, List.getElem_cons_zero] at hrow
      rw [Buffer.setRow_lines_self, ← hrow]
      exact hs

/-- Another line after the current one. -/
theorem newLine (h : Loading b (rows, line)) (hroom : rows.length + 1 < 128) {cells : Mem}
    (hempty : cells 0 = 0) :
    Loading ({ b with lineCount := b.lineCount + 1 }.setRow (rows.length + 1) cells)
      (rows ++ [line], []) := by
  refine ⟨?_, ?_, fun row hrow => ?_, fun i row hi => ?_⟩
  · simp only [Buffer.setRow_lineCount, h.lineCount, List.length_append, List.length_cons,
      List.length_nil]
    omega
  · simp only [List.length_append, List.length_cons, List.length_nil]
    omega
  · rcases List.mem_append.mp hrow with hearlier | hlast
    · exact h.width row hearlier
    · rw [List.mem_singleton.mp hlast]
      exact Nat.zero_le _
  · dsimp only at hi
    rw [List.getElem?_append] at hi
    split at hi
    · rename_i hlt
      rw [List.length_append, List.length_cons, List.length_nil] at hlt
      rw [Buffer.setRow_lines_of_ne _ _ (by omega)]
      exact h.lines i row hi
    · rename_i hge
      obtain ⟨hlt, hrow⟩ := List.getElem?_eq_some_iff.mp hi
      simp only [List.length_append, List.length_cons, List.length_nil] at hlt hge
      obtain rfl : i = rows.length + 1 := by omega
      simp only [List.length_append, List.length_cons, List.length_nil, Nat.zero_add,
        Nat.sub_self, List.getElem_cons_zero] at hrow
      rw [Buffer.setRow_lines_self, ← hrow]
      intro k hk
      obtain rfl : k = 0 := Nat.le_zero.mp hk
      exact hempty

end Loading

/-- A character and a terminator stored behind a string. -/
theorem HoldsString.push {cells : Mem} {s : List UInt8} {c : UInt8} (h : HoldsString cells s) :
    HoldsString ((cells.writeByte s.length c).writeByte (s.length + 1) 0) (s ++ [c]) := by
  intro k hk
  rw [List.length_append, List.length_cons, List.length_nil] at hk
  rcases Nat.lt_or_eq_of_le hk with hlt | rfl
  · rw [Mem.writeByte_of_ne _ _ (by omega)]
    rcases Nat.lt_or_eq_of_le (Nat.le_of_lt_succ hlt) with hlt | rfl
    · rw [Mem.writeByte_of_ne _ _ (Nat.ne_of_lt hlt), h k (Nat.le_of_lt hlt),
        List.getD_append _ _ _ _ hlt]
    · rw [Mem.writeByte_self, List.getD_append_right _ _ _ _ (Nat.le_refl _), Nat.sub_self]
      rfl
  · rw [Mem.writeByte_self, List.getD_eq_default _ _ (by simp)]

/-- The loop of `load_file` fills the table as the list function says. -/
theorem loadLoop_loads (bytes : List UInt8) :
    ∀ (b : Buffer) (rows : List (List UInt8)) (line : List UInt8), Loading b (rows, line) →
      ∃ b', Buffer.loadLoop bytes line.length b = .ok b' ∧
        Loading b' (bytes.foldl loadStep (rows, line)) := by
  induction bytes with
  | nil => exact fun b rows line h => ⟨b, rfl, h⟩
  | cons c bytes ih =>
      intro b rows line h
      have hcount := h.lineCount
      have hle := h.count_le
      obtain ⟨hlen, hline⟩ := h.current
      dsimp only at hcount hle
      rw [Buffer.loadLoop, if_neg (by omega), List.foldl_cons, loadStep]
      by_cases hcr : c = carriageReturn
      · rw [if_pos hcr, if_pos hcr]
        exact ih b rows line h
      rw [if_neg hcr, if_neg hcr]
      have hrow : b.lineCount - 1 = (rows.length : Nat) := by omega
      by_cases hnl : c = newline
      · rw [if_pos hnl, if_pos hnl, hrow, b.put_at _ (by omega) (by omega), ok_bind,
          Buffer.setRow_lineCount]
        have hended : HoldsString ((b.lines rows.length).writeByte line.length 0) line := by
          refine hline.congr fun k hk => ?_
          by_cases hk' : k = line.length
          · rw [hk', Mem.writeByte_self, hline.terminator]
          · rw [Mem.writeByte_of_ne _ _ hk']
        have hcurrent := h.setCurrent hlen hended
        by_cases hroom : rows.length + 1 < 128
        · rw [if_pos (by omega), if_pos (show _ < maxLines from hroom)]
          dsimp only
          rw [show b.lineCount + 1 - 1 = (rows.length + 1 : Nat) by omega,
            show (0 : Int) = (0 : Nat) from rfl, Buffer.put_at _ _ hroom (by omega), ok_bind]
          exact ih _ _ [] (hcurrent.newLine hroom (Mem.writeByte_self ..))
        · rw [if_neg (by omega), if_neg (show ¬ _ < maxLines from hroom)]
          exact ih _ rows line hcurrent
      · rw [if_neg hnl, if_neg hnl]
        by_cases hroom : line.length < 120
        · rw [if_pos (by omega), if_pos (show _ < maxLineLen from hroom), hrow,
            b.put_at _ (by omega) (by omega), ok_bind, Buffer.setRow_lineCount, hrow,
            show ((line.length : Int) + 1) = (line.length + 1 : Nat) by omega,
            Buffer.put_at _ _ (by omega) (by omega), ok_bind, Buffer.setRow_lines_self,
            Buffer.setRow_setRow]
          have hlonger : (line ++ [c]).length = line.length + 1 := by
            rw [List.length_append, List.length_cons, List.length_nil]
          have := ih _ rows (line ++ [c]) (h.setCurrent (by omega) hline.push)
          rwa [hlonger] at this
        · rw [if_neg (by omega), if_neg (show ¬ _ < maxLineLen from hroom)]
          exact ih b rows line h

theorem shownRows_ne_nil (bytes : List UInt8) : shownRows bytes ≠ [] := by
  simp [shownRows, loadRows]

theorem HoldsString.upToNul {cells : Mem} {row : List UInt8} (h : HoldsString cells row) :
    HoldsString cells (upToNul row) := by
  have hprefix : Editor.upToNul row <+: row := List.takeWhile_prefix _
  intro k hk
  rcases Nat.lt_or_eq_of_le hk with hlt | heq
  · rw [h k (Nat.le_of_lt (Nat.lt_of_lt_of_le hlt hprefix.length_le)),
      List.getD_eq_getElem _ _ hlt,
      List.getD_eq_getElem _ _ (Nat.lt_of_lt_of_le hlt hprefix.length_le), hprefix.getElem hlt]
  · -- the string ends with the row, or at a NUL in it
    have hsplit : Editor.upToNul row ++ row.dropWhile (· ≠ 0) = row :=
      List.takeWhile_append_dropWhile
    rw [heq, List.getD_eq_default _ _ (Nat.le_refl _), h _ hprefix.length_le]
    cases hrest : row.dropWhile (· ≠ 0) with
    | nil =>
        rw [hrest, List.append_nil] at hsplit
        rw [hsplit, List.getD_eq_default _ _ (Nat.le_refl _)]
    | cons d rest =>
        have hnul := List.head?_dropWhile_not (· ≠ 0) row
        rw [hrest] at hnul hsplit
        have hd : d = 0 := by simpa using hnul
        have hget : (Editor.upToNul row ++ d :: rest).getD (Editor.upToNul row).length 0 = 0 := by
          rw [List.getD_append_right _ _ _ _ (Nat.le_refl _), Nat.sub_self, hd]
          rfl
        rwa [hsplit] at hget

theorem fitsLine_upToNul {row : List UInt8} (h : row.length ≤ 120) : FitsLine (upToNul row) := by
  refine ⟨Nat.le_trans (List.takeWhile_prefix _).length_le h, fun x hx => ?_⟩
  have := List.mem_takeWhile_imp hx
  simpa using this

/-- A buffer with the cursor at its start stands for its lines. -/
theorem represents_startText {b : Buffer} {rows : List (List UInt8)} (hne : rows ≠ [])
    (hfits : ∀ row ∈ rows, FitsLine row) (hcount : rows.length ≤ 128)
    (lineCount : b.lineCount = (rows.length : Int)) (cursorRow : b.cursorRow = 0)
    (cursorCol : b.cursorCol = 0)
    (lines : ∀ i row, rows[i]? = some row → HoldsString (b.lines i) row) :
    Represents b (startText rows) := by
  have hrows := rows_startText hne
  cases rows with
  | nil => exact absurd rfl hne
  | cons row rows =>
      refine ⟨⟨?_, fun _ h => absurd h List.not_mem_nil, hfits row List.mem_cons_self,
        fun r hr => hfits r (List.mem_cons_of_mem _ hr)⟩, ?_, cursorRow, cursorCol, ?_⟩
      · rw [List.length_cons] at hcount
        simpa [startText] using show rows.length + 1 ≤ maxLines from hcount
      · rw [hrows, lineCount]
      · rw [hrows]
        exact lines

theorem loading_clear (b : Buffer) : Loading b.clearEditorState ([], []) := by
  refine ⟨rfl, by decide, fun row hrow => ?_, fun i row hi => ?_⟩
  · rw [List.mem_singleton.mp hrow]
    exact Nat.zero_le _
  · obtain ⟨hlt, hrow⟩ := List.getElem?_eq_some_iff.mp hi
    simp only [List.nil_append, List.length_cons, List.length_nil] at hlt
    obtain rfl : i = 0 := by omega
    rw [← hrow]
    intro k hk
    obtain rfl : k = 0 := Nat.le_zero.mp hk
    rfl

/-- `load_file` leaves the buffer standing for the lines of the file, with the cursor
at the start and no change to save. -/
theorem loadFile_represents (b : Buffer) (bytes : List UInt8) :
    ∃ b', b.loadFile bytes = .ok b' ∧ Represents b' (startText (shownRows bytes)) ∧
      b'.topLine = 0 ∧ b'.dirty = false := by
  obtain ⟨b', hloop, hloaded⟩ := loadLoop_loads bytes _ [] [] (loading_clear b)
  have hload : b.loadFile bytes =
      .ok { b' with cursorRow := 0, cursorCol := 0, topLine := 0, dirty := false } := by
    rw [Buffer.loadFile]
    split
    · rename_i hempty
      subst hempty
      obtain rfl := Except.ok.inj hloop
      rfl
    · rw [show ({ b.clearEditorState with lineCount := 1 } : Buffer) = b.clearEditorState from rfl,
        show (0 : Int) = (([] : List UInt8).length : Int) from rfl, hloop, ok_bind]
      rfl
  have hne := shownRows_ne_nil bytes
  have hlength : (shownRows bytes).length = (bytes.foldl loadStep ([], [])).1.length + 1 := by
    simp [shownRows, loadRows]
  have hfits : ∀ row ∈ shownRows bytes, FitsLine row := by
    intro row hrow
    obtain ⟨raw, hraw, rfl⟩ := List.mem_map.mp hrow
    exact fitsLine_upToNul (hloaded.width raw hraw)
  refine ⟨_, hload, represents_startText hne hfits ?_ ?_ rfl rfl ?_, rfl, rfl⟩
  · rw [hlength]
    exact hloaded.count_le
  · rw [hlength]
    exact hloaded.lineCount
  · intro i row hi
    rw [shownRows, List.getElem?_map, Option.map_eq_some_iff] at hi
    obtain ⟨raw, hraw, rfl⟩ := hi
    exact (hloaded.lines i raw hraw).upToNul

/-! ## Saving -/

/-- Lines as they stand in a file, each with a newline behind it. -/
def serialize (rows : List (List UInt8)) : List UInt8 := rows.flatMap fun row => row ++ [newline]

theorem saveLine_eq {b : Buffer} {r : Nat} {s : List UInt8} (hr : r < 128)
    (h : HoldsString (b.lines r) s) (hs : FitsLine s) (n : Nat) :
    ∀ (col : Nat) (out : List UInt8), col + n = 121 → col ≤ s.length →
      out.length + s.length < fileBufferMax + col →
      b.saveLine r n col out = .ok (out ++ s.drop col) := by
  have hlen := hs.length_le
  induction n with
  | zero => exact fun col out hcol hle _ => absurd hcol (by omega)
  | succ n ih =>
      intro col out hcol hle hroom
      rw [Buffer.saveLine, b.get_at hr (by omega), ok_bind]
      rcases Nat.lt_or_eq_of_le hle with hlt | rfl
      · have hbyte : b.lines r col = s[col] := by
          rw [h col hle, List.getD_eq_getElem _ _ hlt]
        have hout : (out ++ [s[col]]).length = out.length + 1 := by simp
        rw [if_pos ⟨h.byte_ne_zero hs hlt, by omega⟩, hbyte,
          show (col + 1 : Int) = (col + 1 : Nat) by omega, ih (col + 1) _ (by omega) hlt (by omega),
          List.append_assoc, List.singleton_append, List.getElem_cons_drop]
      · rw [if_neg (fun hgo => hgo.1 h.terminator), List.drop_length, List.append_nil]
        rfl

/-- The rows from `i` on, behind what was written before. -/
theorem saveLoop_eq {b : Buffer} {t : Text} (h : Represents b t) (n : Nat) :
    ∀ (i : Nat) (out : List UInt8), i + n = t.rows.length → out.length + 121 * n < fileBufferMax →
      b.saveLoop n i out = .ok (out ++ serialize (t.rows.drop i)) := by
  have hcount : t.above.length + (t.below.length + 1) ≤ 128 := h.bounded.count
  have hrows := t.rows_length
  induction n with
  | zero =>
      intro i out hi _
      rw [Buffer.saveLoop, List.drop_eq_nil_of_le (by omega), serialize, List.flatMap_nil,
        List.append_nil]
  | succ n ih =>
      intro i out hi hroom
      have hlt : i < t.rows.length := by omega
      have hfits : FitsLine t.rows[i] := h.bounded.row (List.getElem_mem hlt)
      have hlen := hfits.length_le
      rw [Buffer.saveLoop, if_pos (by omega), show (0 : Int) = (0 : Nat) from rfl,
        saveLine_eq (by omega) (h.lines i _ (List.getElem?_eq_getElem hlt)) hfits 121 0 out rfl
          (Nat.zero_le _) (by omega), ok_bind, List.drop_zero]
      have hwritten : (out ++ t.rows[i]).length = out.length + t.rows[i].length :=
        List.length_append
      have hended : (out ++ t.rows[i] ++ [newline]).length = out.length + t.rows[i].length + 1 := by
        rw [List.length_append, hwritten, List.length_cons, List.length_nil]
      rw [if_pos (by omega), show (i + 1 : Int) = (i + 1 : Nat) by omega,
        ih (i + 1) _ (by omega) (by omega), ← List.getElem_cons_drop hlt, serialize, serialize,
        List.flatMap_cons]
      simp only [List.append_assoc]

/-- The buffer for the file never fills up. -/
theorem saveBytes_eq {b : Buffer} {t : Text} (h : Represents b t) :
    b.saveBytes = .ok (serialize t.rows) := by
  have hcount : t.above.length + (t.below.length + 1) ≤ 128 := h.bounded.count
  have hrows := t.rows_length
  rw [Buffer.saveBytes, h.lineCount, Int.toNat_natCast]
  exact saveLoop_eq h _ 0 [] (Nat.zero_add _)
    (show 0 + 121 * t.rows.length < 16383 by omega)

/-! ## Files -/

/-- The bytes `fs_read(name, buffer, FILE_BUFFER_SIZE - 1)` stores. -/
def readFile (m : Machine) (name : CStr) : Except Fault (List UInt8) :=
  match diskfsRead m name 16383 with
  | .error _ => .error .fileSystem
  | .ok r => .ok r.buffer

/-- `load_file(name)`. -/
def openFile (b : Buffer) (m : Machine) (name : CStr) : Except Fault Buffer := do
  let bytes ← readFile m name
  b.loadFile bytes

/-- `save_file()`: whether it returned 1, the buffer and the file system after it. -/
def saveFile (b : Buffer) (m : Machine) (filename : CStr) :
    Except Fault (Bool × Buffer × Machine) := do
  let bytes ← b.saveBytes
  match diskfsWrite m filename (fun i => bytes.getD i 0) (Int32.ofNat bytes.length) with
  | .error _ => .error .fileSystem
  | .ok r =>
      if r.ret = 0 then return (true, { b with dirty := false }, r.machine)
      else return (false, b, r.machine)

theorem length_serialize_le {rows : List (List UInt8)} (h : ∀ row ∈ rows, row.length ≤ 120) :
    (serialize rows).length ≤ 121 * rows.length := by
  induction rows with
  | nil => exact Nat.le_refl 0
  | cons row rows ih =>
      have hrow := h row List.mem_cons_self
      have hrest := ih fun r hr => h r (List.mem_cons_of_mem _ hr)
      simp only [serialize, List.flatMap_cons, List.length_append, List.length_cons,
        List.length_nil] at hrest ⊢
      omega

/-- The editor reads back what it wrote. -/
theorem readFile_after_write {m : Machine} {name : CStr} {bytes : List UInt8} {r : Reply}
    (hwrite : diskfsWrite m name (fun i => bytes.getD i 0) (Int32.ofNat bytes.length) = .ok r)
    (hret : r.ret = 0) (hlen : bytes.length ≤ 16383) : readFile r.machine name = .ok bytes := by
  have hint := Int32.toInt_ofNat_of_lt (show bytes.length < 2 ^ 31 by omega)
  have hlow : 0 ≤ Int32.ofNat bytes.length := by
    rw [Int32.le_iff_toInt_le, hint]
    exact Int.natCast_nonneg _
  have hhigh : Int32.ofNat bytes.length ≤ 16383 := by
    rw [Int32.le_iff_toInt_le, hint, show (16383 : Int32).toInt = 16383 from rfl]
    omega
  obtain ⟨read, hread, hbuffer⟩ := diskfsRead_after_write hwrite hret hlow hhigh
  rw [bytesOf_getD (by omega)] at hbuffer
  rw [readFile, hread]
  exact congrArg Except.ok hbuffer

/-- The outcomes of `save_file`: it succeeded, only the mark changed, and the file
holds the lines; or it failed and the buffer is as before. -/
theorem saveFile_cases {b b' : Buffer} {t : Text} {m m' : Machine} {filename : CStr} {saved : Bool}
    (h : Represents b t) (hsave : saveFile b m filename = .ok (saved, b', m')) :
    (saved = true ∧ b' = { b with dirty := false } ∧
      readFile m' filename = .ok (serialize t.rows)) ∨ (saved = false ∧ b' = b) := by
  have hcount : t.above.length + (t.below.length + 1) ≤ 128 := h.bounded.count
  have hrows := t.rows_length
  have hle := length_serialize_le fun row hrow => FitsLine.length_le (h.bounded.row hrow)
  rw [saveFile, saveBytes_eq h, ok_bind] at hsave
  generalize serialize t.rows = bytes at hsave hle ⊢
  cases hwrite : diskfsWrite m filename (fun i => bytes.getD i 0) (Int32.ofNat bytes.length) with
  | error e =>
      rw [hwrite] at hsave
      exact absurd hsave (by simp)
  | ok r =>
      rw [hwrite] at hsave
      dsimp only at hsave
      split at hsave
      · rename_i hret
        obtain ⟨rfl, rfl, rfl⟩ : true = saved ∧ { b with dirty := false } = b' ∧
            r.machine = m' := by
          simpa using Except.ok.inj hsave
        exact Or.inl ⟨rfl, rfl, readFile_after_write hwrite hret (by omega)⟩
      · obtain ⟨rfl, rfl, rfl⟩ : false = saved ∧ b = b' ∧ r.machine = m' := by
          simpa using Except.ok.inj hsave
        exact Or.inr ⟨rfl, rfl⟩

/-- All that `save_file` does to the file system is one write. -/
theorem saveFile_write {b b' : Buffer} {t : Text} {m m' : Machine} {filename : CStr} {saved : Bool}
    (h : Represents b t) (hsave : saveFile b m filename = .ok (saved, b', m')) :
    ∃ data size r, diskfsWrite m filename data size = .ok r ∧ r.machine = m' := by
  rw [saveFile, saveBytes_eq h, ok_bind] at hsave
  split at hsave
  · exact absurd hsave (by simp)
  · rename_i r hwrite
    refine ⟨_, _, r, hwrite, ?_⟩
    split at hsave
    · exact (Prod.mk.inj (Prod.mk.inj (Except.ok.inj hsave)).2).2
    · exact (Prod.mk.inj (Prod.mk.inj (Except.ok.inj hsave)).2).2

/-- Only the file system can leave `save_file` without an outcome. -/
theorem saveFile_error {b : Buffer} {t : Text} {m : Machine} {filename : CStr} {e : Fault}
    (h : Represents b t) (hsave : saveFile b m filename = .error e) : e = .fileSystem := by
  rw [saveFile, saveBytes_eq h, ok_bind] at hsave
  split at hsave
  · exact (Except.error.inj hsave).symm
  · split at hsave
    · exact nomatch hsave
    · exact nomatch hsave

/-- `save_file` to a file that exists succeeds if the file system has room for it. -/
theorem saveFile_found {b : Buffer} {t : Text} {m : Machine} {filename : CStr} {i : Slot}
    (h : Represents b t) (hfind : m.view.lookup filename = some i)
    (hsize : (serialize t.rows).length ≤ 8192) :
    ∃ m', saveFile b m filename = .ok (true, { b with dirty := false }, m') := by
  obtain ⟨r, hwrite, hret, _⟩ :=
    diskfsWrite_found hfind (int32_ofNat_le hsize) fun i => (serialize t.rows).getD i 0
  refine ⟨r.machine, ?_⟩
  rw [saveFile, saveBytes_eq h, ok_bind, hwrite]
  dsimp only
  rw [if_pos hret]
  rfl

/-- `load_file` on a file that can be read. -/
theorem openFile_represents {m : Machine} {name : CStr} {bytes : List UInt8}
    (h : readFile m name = .ok bytes) (b : Buffer) :
    ∃ b', openFile b m name = .ok b' ∧ Represents b' (startText (shownRows bytes)) ∧
      b'.topLine = 0 ∧ b'.dirty = false := by
  obtain ⟨b', hload, hb'⟩ := loadFile_represents b bytes
  refine ⟨b', ?_, hb'⟩
  rw [openFile, h, ok_bind, hload]

theorem Represents.rows_shown {b : Buffer} {bytes : List UInt8}
    (h : Represents b (startText (shownRows bytes))) : b.rows = shownRows bytes := by
  rw [h.rows_eq, rows_startText (shownRows_ne_nil bytes)]

theorem EditorInv.lineCount_rows {b : Buffer} (h : EditorInv b) :
    b.lineCount = (b.rows.length : Int) := by
  rw [h.represents.rows_eq, h.represents.lineCount]

theorem EditorInv.saveBytes_rows {b : Buffer} (h : EditorInv b) :
    b.saveBytes = .ok (serialize b.rows) := by
  rw [saveBytes_eq h.represents, h.represents.rows_eq]

end FalastinOS.Editor
