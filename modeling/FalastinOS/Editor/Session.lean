/-
  Editor/Session.lean --- the editor from `editor_open` to Ctrl+Q.

  `editor_open` loads the file, draws, and then handles one key after the other, with
  `draw_editor` after each.  A session is the buffer, the file system, the name of the
  file, what the screen shows and whether the loop goes on.  Apart from the file system
  it cannot go wrong: every access of the editor stays inside its table.

  Beside the session runs a record of the lines as they were after the last load or
  successful save.  `editor_sound` is the invariant of all sessions.

  For the shell the editor is a program that writes its file, with whatever contents,
  until it is left (`Shell/Session.lean`); `editor_run_inShell` says that the shell's
  runs include what the editor really does.
-/
import FalastinOS.Editor.RoundTrip
import FalastinOS.Shell.Session

set_option autoImplicit false

namespace FalastinOS.Editor

open FalastinOS.Foundation FalastinOS.DiskFs

/-! ## Keys -/

/-- Ctrl+Q. -/
def keyQuit : UInt8 := 17

/-- Ctrl+S. -/
def keySave : UInt8 := 19

/-- The character '\b'. -/
def keyBackspace : UInt8 := 8

/-- `KEY_DELETE`. -/
def keyDelete : UInt8 := 127

/-- `KEY_UP`. -/
def keyUp : UInt8 := 1

/-- `KEY_DOWN`. -/
def keyDown : UInt8 := 2

/-- `KEY_LEFT`. -/
def keyLeft : UInt8 := 3

/-- `KEY_RIGHT`. -/
def keyRight : UInt8 := 4

/-- The state of `editor_open`. -/
structure Session where
  buffer : Buffer
  machine : Machine
  filename : CStr
  screen : List (List UInt8)
  running : Bool

namespace Session

/-- An operation on the buffer. -/
def edit (s : Session) (r : Except Fault Buffer) : Except Fault Session := do
  let b ← r
  return { s with buffer := b }

/-- `draw_editor()`. -/
def draw (s : Session) : Except Fault Session := do
  let (screen, b) ← s.buffer.drawEditor
  return { s with buffer := b, screen := screen }

/-- The chain of `if`s in the loop of `editor_open`. -/
def handleKey (s : Session) (c : UInt8) : Except Fault Session :=
  if c = keyQuit then .ok { s with running := false }
  else if c = keySave then do
    let (_, b, m) ← saveFile s.buffer s.machine s.filename
    return { s with buffer := b, machine := m }
  else if c = newline then s.edit s.buffer.insertNewline
  else if c = keyBackspace then s.edit s.buffer.backspaceChar
  else if c = keyDelete then s.edit s.buffer.deleteChar
  else if c = keyUp then s.edit (s.buffer.moveCursor (-1) 0)
  else if c = keyDown then s.edit (s.buffer.moveCursor 1 0)
  else if c = keyLeft then s.edit (s.buffer.moveCursor 0 (-1))
  else if c = keyRight then s.edit (s.buffer.moveCursor 0 1)
  else if 32 ≤ c ∧ c ≤ 126 then s.edit (s.buffer.insertChar c)
  else .ok s

/-- One turn of the loop; after the last one no key is handled. -/
def step (s : Session) (c : UInt8) : Except Fault Session :=
  if s.running then do
    let s ← s.handleKey c
    s.draw
  else .ok s

end Session

/-- `editor_open(name)` up to its loop. -/
def editorOpen (stale : Buffer) (m : Machine) (name : CStr) : Except Fault Session := do
  let filename := Shell.editorName name
  let b ← openFile stale m filename
  Session.draw ⟨b, m, filename, [], true⟩

/-! ## Drawing -/

namespace Buffer

variable {b : Buffer} {t : Text}

/-- The cursor is on the screen after `ensure_cursor_visible`, wherever the screen was. -/
theorem ensureCursorVisible_spec (h : 0 ≤ b.cursorRow) :
    0 ≤ b.ensureCursorVisible.topLine ∧ b.ensureCursorVisible.topLine ≤ b.cursorRow ∧
      b.cursorRow < b.ensureCursorVisible.topLine + 22 := by
  simp only [ensureCursorVisible, editRows]
  split <;> split <;> split <;> omega

theorem drawLine_eq {r : Nat} {s : List UInt8} (hr : r < 128) (h : HoldsString (b.lines r) s)
    (hs : FitsLine s) (n : Nat) :
    ∀ col : Nat, col ≤ s.length → col + n ≤ 121 →
      b.drawLine r n col = .ok ((s.drop col).take n) := by
  have hlen := hs.length_le
  induction n with
  | zero => exact fun col _ _ => by rw [drawLine, List.take_zero]
  | succ n ih =>
      intro col hcol hroom
      rw [drawLine, b.get_at hr (by omega), ok_bind]
      rcases Nat.lt_or_eq_of_le hcol with hlt | rfl
      · have hbyte : b.lines r col = s[col] := by
          rw [h col hcol, List.getD_eq_getElem _ _ hlt]
        rw [if_neg (h.byte_ne_zero hs hlt), show (col + 1 : Int) = (col + 1 : Nat) by omega,
          ih (col + 1) hlt (by omega), ok_bind, hbyte, ← List.getElem_cons_drop hlt,
          List.take_succ_cons]
        rfl
      · rw [if_pos h.terminator, List.drop_length, List.take_nil]
        rfl

/-- The rows of the screen from line `row` on. -/
theorem drawRows_eq (h : Represents b t) (n : Nat) :
    ∀ row : Nat, b.drawRows n row =
      .ok ((List.range n).map fun i => (t.rows.getD (row + i) []).take editCols) := by
  have hcount : t.above.length + (t.below.length + 1) ≤ 128 := h.bounded.count
  have hrows := t.rows_length
  have hlineCount := h.lineCount
  induction n with
  | zero => exact fun row => rfl
  | succ n ih =>
      intro row
      have hrest : (List.range (n + 1)).map (fun i => (t.rows.getD (row + i) []).take editCols) =
          (t.rows.getD row []).take editCols ::
            (List.range n).map fun i => (t.rows.getD (row + 1 + i) []).take editCols := by
        rw [List.range_succ_eq_map, List.map_cons, List.map_map, Nat.add_zero]
        simp only [Function.comp_def, Nat.succ_eq_add_one, Nat.add_assoc, Nat.add_comm 1]
      rw [drawRows, hrest, show (row + 1 : Int) = (row + 1 : Nat) by omega, ih (row + 1)]
      by_cases hlt : row < t.rows.length
      · rw [if_pos (by omega), show (0 : Int) = (0 : Nat) from rfl,
          drawLine_eq (by omega) (h.lines row _ (List.getElem?_eq_getElem hlt))
            (h.bounded.row (List.getElem_mem hlt)) editCols 0 (Nat.zero_le _) (by decide),
          List.drop_zero, List.getD_eq_getElem _ _ hlt]
        rfl
      · rw [if_neg (by omega), List.getD_eq_default t.rows _ (by omega), List.take_nil]
        rfl

/-- The text area of the screen: the lines from `top_line` on, as far as they fit. -/
def screenRows (b : Buffer) : List (List UInt8) :=
  (List.range 22).map fun i => (b.rows.getD (b.topLine.toNat + i) []).take editCols

theorem ensureCursorVisible_inv (h : EditorInv b) : EditorInv b.ensureCursorVisible :=
  ⟨h.lineCount, h.terminated, h.cursorRow, h.cursorCol, h.lineLen⟩

@[simp] theorem ensureCursorVisible_rows (b : Buffer) : b.ensureCursorVisible.rows = b.rows := rfl

/-- `draw_editor` shows the lines around the cursor. -/
theorem drawEditor_eq (h : EditorInv b) :
    b.drawEditor = .ok (b.ensureCursorVisible.screenRows, b.ensureCursorVisible) := by
  have hrep := (ensureCursorVisible_inv h).represents
  obtain ⟨htop, _⟩ := ensureCursorVisible_spec h.cursorRow.1
  obtain ⟨top, htop⟩ := Int.eq_ofNat_of_zero_le htop
  rw [drawEditor, screenRows, htop, drawRows_eq hrep, ok_bind, ← hrep.rows_eq]
  rfl

end Buffer

/-! ## One key -/

namespace Session

theorem draw_eq {s : Session} (h : EditorInv s.buffer) :
    s.draw = .ok { s with
      buffer := s.buffer.ensureCursorVisible
      screen := s.buffer.ensureCursorVisible.screenRows } := by
  rw [draw, Buffer.drawEditor_eq h]
  rfl

/-- What a key can do. -/
inductive Effect (s : Session) (c : UInt8) : Session → Prop where
  | quit : c = keyQuit → Effect s c { s with running := false }
  | edited {b : Buffer} : c ≠ keySave → c ≠ keyQuit → EditorInv b →
      (b.dirty = true ∨ b.dirty = s.buffer.dirty ∧ b.rows = s.buffer.rows) →
      Effect s c { s with buffer := b }
  | saved {m : Machine} : c = keySave →
      saveFile s.buffer s.machine s.filename = .ok (true, { s.buffer with dirty := false }, m) →
      Effect s c { s with buffer := { s.buffer with dirty := false }, machine := m }
  | notSaved {m : Machine} : c = keySave →
      saveFile s.buffer s.machine s.filename = .ok (false, s.buffer, m) →
      Effect s c { s with machine := m }

theorem edit_effect {s : Session} {c : UInt8} (hsave : c ≠ keySave) (hquit : c ≠ keyQuit)
    {r : Except Fault Buffer} {t : Text} (h : Buffer.Performs r s.buffer t) :
    ∃ s', s.edit r = .ok s' ∧ Effect s c s' := by
  obtain ⟨b, rfl, hrep, _, hdirty⟩ := h
  exact ⟨_, rfl, .edited hsave hquit hrep.inv hdirty⟩

theorem handleKey_save {s : Session} (h : EditorInv s.buffer) :
    (∃ s', s.handleKey keySave = .ok s' ∧ Effect s keySave s') ∨
      s.handleKey keySave = .error .fileSystem := by
  rw [handleKey, if_neg (by decide), if_pos rfl]
  cases hsave : saveFile s.buffer s.machine s.filename with
  | error e =>
      rw [saveFile_error h.represents hsave]
      exact Or.inr rfl
  | ok reply =>
      obtain ⟨saved, b, m⟩ := reply
      refine Or.inl ⟨_, rfl, ?_⟩
      rcases saveFile_cases h.represents hsave with ⟨rfl, rfl, _⟩ | ⟨rfl, rfl⟩
      · exact .saved rfl hsave
      · exact .notSaved rfl hsave

/-- A key has one of the listed effects, unless the file system fails. -/
theorem handleKey_outcome {s : Session} (h : EditorInv s.buffer) (c : UInt8) :
    (∃ s', s.handleKey c = .ok s' ∧ Effect s c s') ∨ s.handleKey c = .error .fileSystem := by
  by_cases hsave : c = keySave
  · subst hsave
    exact handleKey_save h
  by_cases hquit : c = keyQuit
  · refine Or.inl ⟨_, ?_, .quit hquit⟩
    rw [handleKey, if_pos hquit]
  have hrep := h.represents
  refine Or.inl ?_
  rw [handleKey, if_neg hquit, if_neg hsave]
  split
  · exact edit_effect hsave hquit (Buffer.insertNewline_performs hrep)
  split
  · exact edit_effect hsave hquit (Buffer.backspaceChar_performs hrep)
  split
  · exact edit_effect hsave hquit (Buffer.deleteChar_performs hrep)
  split
  · exact edit_effect hsave hquit (Buffer.moveCursor_performs hrep _ _)
  split
  · exact edit_effect hsave hquit (Buffer.moveCursor_performs hrep _ _)
  split
  · exact edit_effect hsave hquit (Buffer.moveCursor_performs hrep _ _)
  split
  · exact edit_effect hsave hquit (Buffer.moveCursor_performs hrep _ _)
  split
  · rename_i hprint
    have hne : c ≠ 0 := by
      rintro rfl
      exact absurd hprint.1 (by decide)
    exact edit_effect hsave hquit (Buffer.insertChar_performs hrep hne)
  · exact ⟨s, rfl, .edited (b := s.buffer) hsave hquit h (Or.inr ⟨rfl, rfl⟩)⟩

theorem Effect.inv {s s' : Session} {c : UInt8} (h : EditorInv s.buffer) (heffect : Effect s c s') :
    EditorInv s'.buffer := by
  cases heffect with
  | quit => exact h
  | edited _ _ hinv _ => exact hinv
  | saved => exact ⟨h.lineCount, h.terminated, h.cursorRow, h.cursorCol, h.lineLen⟩
  | notSaved => exact h

/-- A completed turn of the loop: a key, and the screen drawn. -/
theorem step_cases {s s' : Session} {c : UInt8} (h : EditorInv s.buffer)
    (hstep : s.step c = .ok s') :
    (s.running = false ∧ s' = s) ∨
    (s.running = true ∧ ∃ next, Effect s c next ∧ EditorInv next.buffer ∧ s' = { next with
      buffer := next.buffer.ensureCursorVisible
      screen := next.buffer.ensureCursorVisible.screenRows }) := by
  rw [step] at hstep
  split at hstep
  · rename_i hrunning
    rcases handleKey_outcome h c with ⟨next, hkey, heffect⟩ | hfail
    · have hinv := heffect.inv h
      rw [hkey, ok_bind, draw_eq hinv] at hstep
      exact Or.inr ⟨hrunning, next, heffect, hinv, (Except.ok.inj hstep).symm⟩
    · rw [hfail, error_bind] at hstep
      exact nomatch hstep
  · rename_i hstopped
    exact Or.inl ⟨by simpa using hstopped, (Except.ok.inj hstep).symm⟩

theorem step_inv {s s' : Session} {c : UInt8} (h : EditorInv s.buffer)
    (hstep : s.step c = .ok s') : EditorInv s'.buffer := by
  rcases step_cases h hstep with ⟨_, rfl⟩ | ⟨_, next, _, hinv, rfl⟩
  · exact h
  · exact Buffer.ensureCursorVisible_inv hinv

/-- The editor itself never fails. -/
theorem step_error {s : Session} {c : UInt8} {e : Fault} (h : EditorInv s.buffer)
    (hstep : s.step c = .error e) : e = .fileSystem := by
  rw [step] at hstep
  split at hstep
  · rcases handleKey_outcome h c with ⟨next, hkey, heffect⟩ | hfail
    · rw [hkey, ok_bind, draw_eq (heffect.inv h)] at hstep
      exact nomatch hstep
    · rw [hfail, error_bind] at hstep
      exact (Except.error.inj hstep).symm
  · exact nomatch hstep

end Session

/-! ## Sessions -/

/-- A session, and the lines as they were after the last load or successful save. -/
structure Tracked where
  session : Session
  saved : List (List UInt8)

namespace Tracked

/-- The lines on record after a key. -/
def savedAfter (p : Tracked) (c : UInt8) : List (List UInt8) :=
  if p.session.running ∧ c = keySave then
    match saveFile p.session.buffer p.session.machine p.session.filename with
    | .ok (true, b, _) => b.rows
    | _ => p.saved
  else p.saved

/-- One key. -/
def step (p : Tracked) (c : UInt8) : Except Fault Tracked := do
  let s ← p.session.step c
  return ⟨s, p.savedAfter c⟩

/-- What holds after every key. -/
structure Sound (p : Tracked) : Prop where
  inv : EditorInv p.session.buffer
  visible : p.session.buffer.topLine ≤ p.session.buffer.cursorRow ∧
    p.session.buffer.cursorRow < p.session.buffer.topLine + 22
  clean : p.session.buffer.dirty = false → p.session.buffer.rows = p.saved
  shown : p.session.screen = p.session.buffer.screenRows
  safe : ∀ (c : UInt8) (e : Fault), p.session.step c = .error e → e = .fileSystem

/-- A session just drawn. -/
theorem sound_of_drawn {s : Session} {saved : List (List UInt8)} (h : EditorInv s.buffer)
    (hclean : s.buffer.dirty = false → s.buffer.rows = saved) :
    Sound ⟨{ s with
      buffer := s.buffer.ensureCursorVisible
      screen := s.buffer.ensureCursorVisible.screenRows }, saved⟩ where
  inv := Buffer.ensureCursorVisible_inv h
  visible := (Buffer.ensureCursorVisible_spec h.cursorRow.1).2
  clean := hclean
  shown := rfl
  safe := fun _ _ => Session.step_error (Buffer.ensureCursorVisible_inv h)

/-- The mark after a key: a buffer that is not marked has the lines on record. -/
theorem clean_of_effect {p : Tracked} {next : Session} {c : UInt8} (hrunning : p.session.running)
    (hclean : p.session.buffer.dirty = false → p.session.buffer.rows = p.saved)
    (heffect : p.session.Effect c next) :
    next.buffer.dirty = false → next.buffer.rows = p.savedAfter c := by
  cases heffect with
  | quit hquit =>
      rw [savedAfter, if_neg (fun hc => absurd (hquit.symm.trans hc.2) (by decide))]
      exact hclean
  | edited hsave _ _ hdirty =>
      rw [savedAfter, if_neg (fun hc => hsave hc.2)]
      intro hmark
      rcases hdirty with hdirty | ⟨hdirty, hrows⟩
      · rw [hdirty] at hmark
        exact absurd hmark (by decide)
      · rw [hrows]
        exact hclean (hdirty.symm.trans hmark)
  | saved hsave hdone =>
      rw [savedAfter, if_pos ⟨hrunning, hsave⟩, hdone]
      exact fun _ => rfl
  | notSaved hsave hdone =>
      rw [savedAfter, if_pos ⟨hrunning, hsave⟩, hdone]
      exact hclean

theorem Sound.step {p p' : Tracked} {c : UInt8} (h : Sound p) (hstep : p.step c = .ok p') :
    Sound p' := by
  rw [Tracked.step] at hstep
  cases hsession : p.session.step c with
  | error e =>
      rw [hsession, error_bind] at hstep
      exact nomatch hstep
  | ok s =>
      rw [hsession, ok_bind] at hstep
      obtain rfl : ⟨s, p.savedAfter c⟩ = p' := Except.ok.inj hstep
      rcases Session.step_cases h.inv hsession with
        ⟨hstopped, rfl⟩ | ⟨hrunning, next, heffect, hinv, rfl⟩
      · rw [savedAfter, if_neg (fun hc => absurd (hc.1.symm.trans hstopped) (by decide))]
        exact h
      · exact sound_of_drawn hinv (clean_of_effect hrunning h.clean heffect)

end Tracked

/-- `editor_open` on a file that can be read. -/
theorem editorOpen_eq {m : Machine} {name : CStr} {bytes : List UInt8}
    (hread : readFile m (Shell.editorName name) = .ok bytes) (stale : Buffer) :
    ∃ b, Represents b (startText (shownRows bytes)) ∧ editorOpen stale m name =
      .ok ⟨b.ensureCursorVisible, m, Shell.editorName name, b.ensureCursorVisible.screenRows,
        true⟩ := by
  obtain ⟨b, hload, hrep, _⟩ := openFile_represents hread stale
  refine ⟨b, hrep, ?_⟩
  rw [editorOpen, hload, ok_bind, Session.draw_eq hrep.inv]

/-- A session just opened. -/
theorem editorOpen_cases {stale : Buffer} {m : Machine} {name : CStr} {s : Session}
    (hopen : editorOpen stale m name = .ok s) :
    Tracked.Sound ⟨s, s.buffer.rows⟩ ∧ s.machine = m ∧ s.filename = Shell.editorName name ∧
      s.running = true := by
  cases hread : readFile m (Shell.editorName name) with
  | error e =>
      rw [editorOpen, openFile, hread, error_bind, error_bind] at hopen
      cases hopen
  | ok bytes =>
      obtain ⟨b, hrep, hopened⟩ := editorOpen_eq hread stale
      obtain rfl := Except.ok.inj (hopened.symm.trans hopen)
      exact ⟨Tracked.sound_of_drawn (s := ⟨b, m, _, [], true⟩) hrep.inv fun _ => rfl, rfl, rfl, rfl⟩

/-- In every session of the editor, after the file is loaded and after every key: the
counters and the cursor are in range and every line has its terminator; the cursor is on
the screen, and the screen shows the lines; a buffer that is not marked as changed has
the lines of the last load or successful save; and the next key can only fail in the file
system. -/
theorem editor_sound {stale : Buffer} {m : Machine} {name : CStr} {s : Session}
    (hopen : editorOpen stale m name = .ok s) (keys : List UInt8) :
    Along Tracked.step Tracked.Sound ⟨s, s.buffer.rows⟩ keys := by
  exact along_of_invariant (fun p c p' hp hstep => hp.step hstep) (editorOpen_cases hopen).1 keys

theorem editor_sound_noteFile :
    ∃ s, editorOpen (blankBuffer 1) (storedFile noteFile) nameA = .ok s ∧
      s.buffer.rows = [[104, 105], [], [120]] ∧
      Along Tracked.step Tracked.Sound ⟨s, s.buffer.rows⟩
        [33, keyDown, keyDelete, keySave, keyQuit] := by
  obtain ⟨b, hrep, hopen⟩ := editorOpen_eq
    (show readFile (storedFile noteFile) (Shell.editorName nameA) = .ok noteFile from
      (readFile_storedFile noteFile (by decide)).1) (blankBuffer 1)
  refine ⟨_, hopen, ?_, editor_sound hopen _⟩
  rw [Buffer.ensureCursorVisible_rows, hrep.rows_shown]
  decide

/-! ## The editor in the shell -/

/-- The session as the shell has it: the machine, and the editor on top of the programs
`below` until it is left. -/
def Session.inShell (s : Session) (name : CStr) (below : List Shell.Mode) : Shell.Session :=
  ⟨s.machine, if s.running then .editor name :: below else below⟩

/-- What the shell knows of a key: a save writes the file with some contents, Ctrl+Q
leaves the editor, and any other key is nothing to it. -/
theorem Session.step_inShell {s s' : Session} {c : UInt8} {name : CStr}
    (hname : s.filename = Shell.editorName name) (h : EditorInv s.buffer)
    (hstep : s.step c = .ok s') (below : List Shell.Mode) :
    s'.filename = s.filename ∧
      ∃ events, run Shell.step (s.inShell name below) events = .ok (s'.inShell name below) := by
  have hwrite : ∀ {saved : Bool} {b : Buffer} {m : Machine}, s.running = true →
      saveFile s.buffer s.machine s.filename = .ok (saved, b, m) →
      ∃ events, run Shell.step (s.inShell name below) events =
        .ok ⟨m, (s.inShell name below).modes⟩ := by
    intro saved b m hrunning hsave
    obtain ⟨data, size, r, hdone, rfl⟩ := saveFile_write h.represents hsave
    refine ⟨[.save data size], ?_⟩
    have hcall : DiskFs.step s.machine (.write (Shell.editorName name) data size) =
        .ok r.machine := by
      rw [DiskFs.step, Call.exec, ← hname, hdone]
    simp only [run, Shell.step, inShell, hrunning, if_true, Shell.Session.call, Shell.fsCall, hcall,
      Shell.Session.after]
  rcases step_cases h hstep with ⟨_, rfl⟩ | ⟨hrunning, next, heffect, _, rfl⟩
  · exact ⟨rfl, [], rfl⟩
  cases heffect with
  | quit =>
      refine ⟨rfl, [.leave], ?_⟩
      simp only [run, Shell.step, inShell, hrunning, if_true, Bool.false_eq_true, if_false]
  | edited => exact ⟨rfl, [], rfl⟩
  | saved _ hsave => exact ⟨rfl, hwrite hrunning hsave⟩
  | notSaved _ hsave => exact ⟨rfl, hwrite hrunning hsave⟩

theorem Session.run_inShell {name : CStr} (below : List Shell.Mode) (keys : List UInt8) :
    ∀ {s s' : Session}, s.filename = Shell.editorName name → EditorInv s.buffer →
      run Session.step s keys = .ok s' →
      ∃ events, run Shell.step (s.inShell name below) events = .ok (s'.inShell name below) := by
  induction keys with
  | nil =>
      intro s s' _ _ hrun
      obtain rfl := Except.ok.inj hrun
      exact ⟨[], rfl⟩
  | cons c keys ih =>
      intro s s' hname hinv hrun
      obtain ⟨next, hstep, hkeys⟩ := run_cons_ok hrun
      obtain ⟨hsame, first, hfirst⟩ := step_inShell hname hinv hstep below
      obtain ⟨rest, hrest⟩ := ih (hsame.trans hname) (step_inv hinv hstep) hkeys
      refine ⟨first ++ rest, ?_⟩
      rw [run_append hfirst, hrest]

/-- The shell's account of the editor covers the editor: whatever keys are handled, some
events of the shell lead to the same machine and the same programs. -/
theorem editor_run_inShell {stale : Buffer} {m : Machine} {name : CStr} {s s' : Session}
    {keys : List UInt8} (hopen : editorOpen stale m name = .ok s)
    (hrun : run Session.step s keys = .ok s') (below : List Shell.Mode) :
    ∃ events, run Shell.step ⟨m, .editor name :: below⟩ events = .ok (s'.inShell name below) := by
  obtain ⟨hsound, hmachine, hname, hrunning⟩ := editorOpen_cases hopen
  have hstart : (⟨m, .editor name :: below⟩ : Shell.Session) = s.inShell name below := by
    rw [Session.inShell, hmachine, hrunning, if_pos rfl]
  rw [hstart]
  exact Session.run_inShell below keys hname hsound.inv hrun

end FalastinOS.Editor
