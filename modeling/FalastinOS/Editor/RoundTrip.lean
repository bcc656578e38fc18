/-
  Editor/RoundTrip.lean --- what becomes of a text that is saved and opened again.

  `save_file` puts a newline behind every line and `load_file` starts a line at every
  newline, so a saved text comes back with an empty line behind it, unless the table
  has no room for one: `reopen_same_iff`.  Opened and saved, a file keeps its text, up
  to newlines at the end, exactly if the table has room for all of it:
  `resave_keeps_iff`.
-/
import FalastinOS.Editor.Files

set_option autoImplicit false

namespace FalastinOS.Editor

open FalastinOS.Foundation FalastinOS.DiskFs

/-! ## Reading back what was saved -/

/-- A byte that `load_file` takes for a character of a line. -/
def Plain (c : UInt8) : Prop := c ≠ carriageReturn ∧ c ≠ newline

/-- The characters of a row, one after the other. -/
theorem foldl_loadStep_row {row : List UInt8} (hplain : ∀ c ∈ row, Plain c)
    (rows : List (List UInt8)) :
    ∀ line : List UInt8, line.length + row.length ≤ 120 →
      row.foldl loadStep (rows, line) = (rows, line ++ row) := by
  induction row with
  | nil => exact fun line _ => by rw [List.foldl_nil, List.append_nil]
  | cons c row ih =>
      intro line hroom
      obtain ⟨hcr, hnl⟩ := hplain c List.mem_cons_self
      rw [List.length_cons] at hroom
      rw [List.foldl_cons, loadStep, if_neg hcr, if_neg hnl]
      dsimp only
      rw [if_pos (show line.length < maxLineLen by unfold maxLineLen; omega),
        ih (fun d hd => hplain d (List.mem_cons_of_mem _ hd)) _ (by simp; omega)]
      simp

/-- Saved rows are loaded as long as another line can follow. -/
theorem foldl_loadStep_serialize {rows : List (List UInt8)}
    (hrows : ∀ row ∈ rows, row.length ≤ 120 ∧ ∀ c ∈ row, Plain c) :
    ∀ before : List (List UInt8), before.length + rows.length < 128 →
      (serialize rows).foldl loadStep (before, []) = (before ++ rows, []) := by
  induction rows with
  | nil =>
      intro before _
      rw [serialize, List.flatMap_nil, List.foldl_nil, List.append_nil]
  | cons row rows ih =>
      intro before hroom
      obtain ⟨hlen, hplain⟩ := hrows row List.mem_cons_self
      rw [List.length_cons] at hroom
      have hnext := ih (fun r hr => hrows r (List.mem_cons_of_mem _ hr)) (before ++ [row])
        (by simp; omega)
      rw [serialize] at hnext
      rw [serialize, List.flatMap_cons, List.foldl_append, List.foldl_append,
        foldl_loadStep_row hplain before [] (by simpa using hlen), List.foldl_cons, List.foldl_nil,
        loadStep, if_neg (by decide), if_pos rfl, List.nil_append]
      dsimp only
      rw [if_pos (show before.length + 1 < maxLines by unfold maxLines; omega), hnext]
      simp

/-- Rows behind which the last line follows without a newline. -/
theorem loadRows_last {init : List (List UInt8)} {last : List UInt8}
    (hinit : ∀ row ∈ init, row.length ≤ 120 ∧ ∀ c ∈ row, Plain c) (hlast : last.length ≤ 120)
    (hplain : ∀ c ∈ last, Plain c) (hcount : init.length < 128) :
    loadRows (serialize init ++ last) = init ++ [last] := by
  rw [loadRows, List.foldl_append, foldl_loadStep_serialize hinit [] (by simpa using hcount),
    List.nil_append, foldl_loadStep_row hplain init [] (by simpa using hlast), List.nil_append]

/-- What was saved is loaded with an empty line behind it, unless the table is full. -/
theorem loadRows_serialize {rows : List (List UInt8)} (hne : rows ≠ [])
    (hrows : ∀ row ∈ rows, row.length ≤ 120 ∧ ∀ c ∈ row, Plain c) (hcount : rows.length ≤ 128) :
    loadRows (serialize rows) = if rows.length = 128 then rows else rows ++ [[]] := by
  split
  · rename_i hfull
    -- the newline behind line 128 starts no line
    obtain ⟨init, last, rfl⟩ := List.eq_nil_or_concat rows |>.resolve_left hne
    rw [List.concat_eq_append] at *
    rw [List.length_append, List.length_cons, List.length_nil] at hfull
    obtain ⟨hlen, hplain⟩ := hrows last (by simp)
    have hsplit : serialize (init ++ [last]) = (serialize init ++ last) ++ [newline] := by
      simp [serialize]
    have hstate := foldl_loadStep_serialize
      (fun row hrow => hrows row (List.mem_append_left _ hrow)) [] (show _ < 128 by simp; omega)
    rw [List.nil_append] at hstate
    rw [loadRows, hsplit, List.foldl_append, List.foldl_append, hstate,
      foldl_loadStep_row hplain init [] (by simpa using hlen), List.foldl_cons, List.foldl_nil,
      loadStep, if_neg (by decide), if_pos rfl, List.nil_append]
    dsimp only
    rw [if_neg (show ¬ init.length + 1 < maxLines by unfold maxLines; omega)]
  · rename_i hroom
    have hlast := loadRows_last hrows (Nat.zero_le _) (fun c hc => absurd hc List.not_mem_nil)
      (by omega)
    rwa [List.append_nil] at hlast

theorem upToNul_eq {row : List UInt8} (h : ∀ c ∈ row, c ≠ 0) : upToNul row = row := by
  rw [upToNul, List.takeWhile_eq_self_iff]
  exact fun c hc => decide_eq_true (h c hc)

theorem map_upToNul {rows : List (List UInt8)} (h : ∀ row ∈ rows, ∀ c ∈ row, c ≠ 0) :
    rows.map upToNul = rows := by
  conv_rhs => rw [← List.map_id rows]
  exact List.map_congr_left fun row hrow => upToNul_eq (h row hrow)

/-- What a buffer of printable characters becomes when it is saved and opened again: an
empty line follows, if there is room for it. -/
theorem reopen_rows {b b' : Buffer} {m m' : Machine} {filename : CStr} (h : EditorInv b)
    (hprint : ∀ row ∈ b.rows, ∀ c ∈ row, 32 ≤ c ∧ c ≤ 126)
    (hsave : saveFile b m filename = .ok (true, b', m')) (stale : Buffer) :
    ∃ b'', openFile stale m' filename = .ok b'' ∧ EditorInv b'' ∧
      b''.rows = if b.rows.length = 128 then b.rows else b.rows ++ [[]] := by
  have hrep := h.represents
  have hrows := hrep.rows_eq
  have hlineCount := h.lineCount_rows
  have hcount := h.lineCount
  have hfits : ∀ row ∈ b.rows, FitsLine row := fun row hrow => hrep.bounded.row (hrows ▸ hrow)
  have hplain : ∀ row ∈ b.rows, row.length ≤ 120 ∧ ∀ c ∈ row, Plain c := by
    refine fun row hrow => ⟨(hfits row hrow).length_le, fun c hc => ?_⟩
    obtain ⟨hlow, _⟩ := hprint row hrow c hc
    constructor <;> rintro rfl <;> exact absurd hlow (by decide)
  have hne : b.rows ≠ [] := by
    rw [hrows, TextCursor.rows]
    simp
  have hread : readFile m' filename = .ok (serialize b.rows) := by
    rcases saveFile_cases hrep hsave with ⟨_, _, hread⟩ | ⟨hfail, _⟩
    · rw [hread, hrows]
    · exact absurd hfail (by decide)
  obtain ⟨b'', hopen, hrep'', _⟩ := openFile_represents hread stale
  refine ⟨b'', hopen, hrep''.inv, ?_⟩
  rw [hrep''.rows_shown, shownRows, loadRows_serialize hne hplain (by omega), map_upToNul]
  intro row hrow
  split at hrow
  · exact (hfits row hrow).2
  · rcases List.mem_append.mp hrow with hrow | hlast
    · exact (hfits row hrow).2
    · rw [List.mem_singleton.mp hlast]
      exact fun c hc => absurd hc List.not_mem_nil

/-- A buffer of printable characters, saved and opened again, has the lines it had, and
saves the same file again, exactly if the table is full. -/
theorem reopen_same_iff {b b' : Buffer} {m m' : Machine} {filename : CStr} (h : EditorInv b)
    (hprint : ∀ row ∈ b.rows, ∀ c ∈ row, 32 ≤ c ∧ c ≤ 126)
    (hsave : saveFile b m filename = .ok (true, b', m')) (stale : Buffer) :
    ∃ b'', openFile stale m' filename = .ok b'' ∧
      ((b''.lineCount = b.lineCount ∧ b''.rows = b.rows ∧ b''.saveBytes = b.saveBytes) ↔
        b.lineCount = 128) := by
  have hlineCount := h.lineCount_rows
  obtain ⟨b'', hopen, h'', hrows''⟩ := reopen_rows h hprint hsave stale
  refine ⟨b'', hopen, fun ⟨_, hsame, _⟩ => ?_, fun hfull => ?_⟩
  · by_contra hroom
    rw [if_neg (by omega), hsame] at hrows''
    exact absurd hrows'' (by simp)
  · rw [if_pos (by omega)] at hrows''
    refine ⟨?_, hrows'', ?_⟩
    · rw [h''.lineCount_rows, hrows'', hlineCount]
    · rw [h''.saveBytes_rows, h.saveBytes_rows, hrows'']

theorem printable_blankBuffer (n : Nat) :
    ∀ row ∈ (blankBuffer n).rows, ∀ c ∈ row, 32 ≤ c ∧ c ≤ 126 := by
  intro row hrow
  rw [rows_blankBuffer] at hrow
  rw [List.eq_of_mem_replicate hrow]
  exact fun c hc => absurd hc List.not_mem_nil

/-- A machine with the empty file `a`. -/
def fileMachine : Machine := (diskfsCreate (diskfsInit bareMachine).machine nameA).machine

theorem lookup_fileMachine : fileMachine.view.lookup nameA = some ⟨1, by decide⟩ := by
  decide +kernel

theorem saveFile_blankBuffer {n : Nat} (hlow : 0 < n) (hhigh : n ≤ 128) :
    ∃ m', saveFile (blankBuffer n) fileMachine nameA = .ok (true, blankBuffer n, m') := by
  have hinv := editorInv_blankBuffer hlow hhigh
  refine saveFile_found hinv.represents lookup_fileMachine ?_
  rw [← hinv.represents.rows_eq, rows_blankBuffer, serialize]
  simp
  omega

theorem reopen_same_iff_full :
    ∃ m', saveFile (blankBuffer 128) fileMachine nameA = .ok (true, blankBuffer 128, m') ∧
      ∃ b'', openFile (blankBuffer 1) m' nameA = .ok b'' ∧ b''.lineCount = 128 := by
  obtain ⟨m', hsave⟩ := saveFile_blankBuffer (n := 128) (by decide) (by decide)
  obtain ⟨b'', hopen, hsame⟩ := reopen_same_iff (editorInv_blankBuffer (by decide) (by decide))
    (printable_blankBuffer 128) hsave (blankBuffer 1)
  exact ⟨m', hsave, b'', hopen, (hsame.mpr rfl).1⟩

/-- An empty text saved and opened again has two lines, and the file it saves then is
longer. -/
theorem reopen_grows :
    EditorInv (blankBuffer 1) ∧
      (∀ row ∈ (blankBuffer 1).rows, ∀ c ∈ row, 32 ≤ c ∧ c ≤ 126) ∧
      (blankBuffer 1).saveBytes = .ok [newline] ∧
      ∃ m' b'', saveFile (blankBuffer 1) fileMachine nameA = .ok (true, blankBuffer 1, m') ∧
        openFile (blankBuffer 1) m' nameA = .ok b'' ∧ b''.lineCount = 2 ∧
        b''.rows ≠ (blankBuffer 1).rows ∧ b''.saveBytes = .ok [newline, newline] := by
  have hinv := editorInv_blankBuffer (n := 1) (by decide) (by decide)
  obtain ⟨m', hsave⟩ := saveFile_blankBuffer (n := 1) (by decide) (by decide)
  obtain ⟨b'', hopen, h'', hrows⟩ := reopen_rows hinv (printable_blankBuffer 1) hsave
    (blankBuffer 1)
  rw [rows_blankBuffer] at hrows
  refine ⟨hinv, printable_blankBuffer 1, ?_, m', b'', hsave, hopen, ?_, ?_, ?_⟩
  · rw [hinv.saveBytes_rows, rows_blankBuffer]
    rfl
  · rw [h''.lineCount_rows, hrows]
    rfl
  · rw [hrows, rows_blankBuffer]
    decide
  · rw [h''.saveBytes_rows, hrows]
    rfl

/-! ## Saving what was opened -/

/-- The text of a file: its bytes without carriage returns. -/
def plainText (content : List UInt8) : List UInt8 := content.filter (· ≠ carriageReturn)

/-- The table has room for the text: no line is longer than 120 characters, and there
are at most 128 lines, or 128 lines and nothing behind the newline of the last. -/
def FitsTable (t : List UInt8) : Prop :=
  (∀ line ∈ t.splitOn newline, line.length ≤ maxLineLen) ∧
    ((t.splitOn newline).length ≤ maxLines ∨
      (t.splitOn newline).length = maxLines + 1 ∧ (t.splitOn newline).getLast? = some [])

/-- Carriage returns are skipped. -/
theorem loadRows_plainText (content : List UInt8) :
    loadRows (plainText content) = loadRows content := by
  have hskip : (fun state c => if decide (c ≠ carriageReturn) = true then loadStep state c
      else state) = loadStep := by
    funext state c
    by_cases hcr : c = carriageReturn
    · rw [if_neg (by simpa using hcr), loadStep, if_pos hcr]
    · rw [if_pos (by simpa using hcr)]
  rw [loadRows, plainText, List.foldl_filter, hskip]
  rfl

/-- What holds of every byte of a file, newlines apart, holds of every character loaded. -/
theorem forall_loadRows {P : UInt8 → Prop} {bytes : List UInt8}
    (h : ∀ c ∈ bytes, c ≠ newline → P c) : ∀ row ∈ loadRows bytes, ∀ c ∈ row, P c := by
  suffices hfold : ∀ state : List (List UInt8) × List UInt8,
      (∀ row ∈ state.1 ++ [state.2], ∀ c ∈ row, P c) →
      ∀ row ∈ (bytes.foldl loadStep state).1 ++ [(bytes.foldl loadStep state).2],
        ∀ c ∈ row, P c from hfold ([], []) (by simp)
  induction bytes with
  | nil => exact fun _ hstate => hstate
  | cons c bytes ih =>
      intro state hstate
      refine ih (fun d hd => h d (List.mem_cons_of_mem _ hd)) _ ?_
      rw [loadStep]
      split
      · exact hstate
      · split
        · split
          · simpa [or_imp, forall_and] using hstate
          · exact hstate
        · rename_i hnl
          split
          · have hc := h c List.mem_cons_self hnl
            simp only [List.mem_append, List.mem_singleton, or_imp, forall_and,
              forall_eq] at hstate ⊢
            exact ⟨hstate.1, hstate.2, hc⟩
          · exact hstate

theorem loadRows_bounds (bytes : List UInt8) :
    (loadRows bytes).length ≤ 128 ∧ ∀ row ∈ loadRows bytes, row.length ≤ 120 := by
  obtain ⟨_, _, hloaded⟩ := loadLoop_loads bytes _ [] [] (loading_clear (blankBuffer 1))
  refine ⟨?_, hloaded.width⟩
  rw [loadRows, List.length_append]
  exact hloaded.count_le

/-- Loading and writing back keeps a text, up to newlines at its end, exactly if the
table has room for it. -/
theorem serialize_loadRows_iff {t : List UInt8} (hcr : carriageReturn ∉ t) :
    (∃ k, serialize (loadRows t) = t ++ List.replicate k newline) ↔ FitsTable t := by
  have hplain : ∀ line ∈ t.splitOn newline, ∀ c ∈ line, Plain c := by
    intro line hline c hc
    obtain ⟨hmem, hne⟩ := TextCursor.mem_line_of_mem_splitOn hline hc
    exact ⟨fun heq => hcr (heq ▸ hmem), hne⟩
  constructor
  · rintro ⟨k, hk⟩
    -- the lines of both sides
    obtain ⟨hcount, hwidth⟩ := loadRows_bounds t
    have hlines : loadRows t ++ [[]] = t.splitOn newline ++ List.replicate k [] := by
      rw [← TextCursor.splitOn_append_replicate, ← hk]
      refine (TextCursor.splitOn_flatMap fun row hrow hmem => ?_).symm
      exact forall_loadRows (P := (· ≠ newline)) (fun _ _ hc => hc) row hrow newline hmem rfl
    have hlength := congrArg List.length hlines
    simp only [List.length_append, List.length_cons, List.length_nil,
      List.length_replicate] at hlength
    refine ⟨fun line hline => ?_, ?_⟩
    · have hmem : line ∈ loadRows t ++ [[]] := hlines ▸ List.mem_append_left _ hline
      rcases List.mem_append.mp hmem with hrow | hlast
      · exact hwidth line hrow
      · rw [List.mem_singleton.mp hlast]
        exact Nat.zero_le _
    · rcases Nat.lt_or_ge (t.splitOn newline).length 129 with hlt | hge
      · exact Or.inl (Nat.le_of_lt_succ hlt)
      · obtain rfl : k = 0 := by omega
        rw [List.replicate_zero, List.append_nil] at hlines
        refine Or.inr ⟨show _ = 129 by omega, ?_⟩
        rw [← hlines, List.getLast?_concat]
  · rintro ⟨hwidth, hcount⟩
    obtain ⟨init, last, hsplit⟩ :=
      (List.eq_nil_or_concat (t.splitOn newline)).resolve_left (List.splitOn_ne_nil _ _)
    rw [List.concat_eq_append] at hsplit
    have ht : t = serialize init ++ last := TextCursor.eq_flatMap_of_splitOn hsplit
    rw [hsplit] at hwidth hcount hplain
    have hinit : ∀ row ∈ init, row.length ≤ 120 ∧ ∀ c ∈ row, Plain c := fun row hrow =>
      ⟨hwidth row (List.mem_append_left _ hrow), hplain row (List.mem_append_left _ hrow)⟩
    rw [List.length_append, List.length_cons, List.length_nil] at hcount
    rcases hcount with hroom | ⟨hfull, hlast⟩
    · refine ⟨1, ?_⟩
      rw [ht, loadRows_last hinit (hwidth last (by simp)) (hplain last (by simp))
        (Nat.lt_of_succ_le hroom)]
      simp [serialize]
    · have hfull : init.length = 128 := Nat.succ.inj hfull
      obtain rfl : last = [] := by simpa using hlast
      refine ⟨0, ?_⟩
      rw [ht, List.append_nil, List.replicate_zero, List.append_nil,
        loadRows_serialize (by rintro rfl; exact absurd hfull (by decide)) hinit (by omega),
        if_pos hfull]

/-- What is in the file after it was opened and saved. -/
theorem resave_written {stale b b' : Buffer} {m m' : Machine} {name : CStr}
    {content : List UInt8} (hread : readFile m name = .ok content) (hnul : 0 ∉ content)
    (hopen : openFile stale m name = .ok b) (hsave : saveFile b m name = .ok (true, b', m')) :
    readFile m' name = .ok (serialize (loadRows (plainText content))) := by
  obtain ⟨opened, hopened, hrep, _⟩ := openFile_represents hread stale
  obtain rfl : opened = b := Except.ok.inj (hopened.symm.trans hopen)
  have hshown : shownRows content = loadRows content :=
    map_upToNul (forall_loadRows fun c hc _ hzero => hnul (hzero ▸ hc))
  rcases saveFile_cases hrep hsave with ⟨_, _, hwritten⟩ | ⟨hfail, _⟩
  · rw [hwritten, rows_startText (shownRows_ne_nil content), hshown, loadRows_plainText]
  · exact absurd hfail (by decide)

/-- Opening a file and saving it keeps its text, up to newlines at the end, exactly if
the table has room for it. -/
theorem resave_keeps_iff {stale b b' : Buffer} {m m' : Machine} {name : CStr}
    {content : List UInt8} (hread : readFile m name = .ok content) (hnul : 0 ∉ content)
    (hopen : openFile stale m name = .ok b) (hsave : saveFile b m name = .ok (true, b', m')) :
    ∃ written, readFile m' name = .ok written ∧
      ((∃ k, written = plainText content ++ List.replicate k newline) ↔
        FitsTable (plainText content)) :=
  ⟨_, resave_written hread hnul hopen hsave,
    serialize_loadRows_iff fun hmem => by simpa using List.of_mem_filter hmem⟩

/-- The machine in which the file `a` holds the bytes. -/
def storedFile (bytes : List UInt8) : Machine :=
  match diskfsWrite fileMachine nameA (fun i => bytes.getD i 0) (Int32.ofNat bytes.length) with
  | .ok r => r.machine
  | .error _ => fileMachine

theorem readFile_storedFile (bytes : List UInt8) (h : bytes.length ≤ 8192) :
    readFile (storedFile bytes) nameA = .ok bytes ∧
      ∃ i, (storedFile bytes).view.lookup nameA = some i := by
  obtain ⟨r, hwrite, hret, hview⟩ :=
    diskfsWrite_found lookup_fileMachine (int32_ofNat_le h) fun i => bytes.getD i 0
  rw [storedFile, hwrite]
  have hfind : r.machine.view.lookup nameA = fileMachine.view.lookup nameA := by
    rw [hview, View.lookup_store]
  exact ⟨readFile_after_write hwrite hret (by omega), _, hfind.trans lookup_fileMachine⟩

/-- The file is opened and saved. -/
theorem resave_storedFile (content : List UInt8) (h : content.length ≤ 8192)
    (hsize : (serialize (shownRows content)).length ≤ 8192) :
    ∃ b m', openFile (blankBuffer 1) (storedFile content) nameA = .ok b ∧
      saveFile b (storedFile content) nameA = .ok (true, { b with dirty := false }, m') := by
  obtain ⟨hread, i, hfind⟩ := readFile_storedFile content h
  obtain ⟨b, hopen, hrep, _⟩ := openFile_represents hread (blankBuffer 1)
  obtain ⟨m', hsave⟩ := saveFile_found hrep hfind
    (by rwa [rows_startText (shownRows_ne_nil content)])
  exact ⟨b, m', hopen, hsave⟩

/-- The text `hi`, an empty line and `x`, without a newline at the end. -/
def noteFile : List UInt8 := [104, 105, 13, 10, 10, 120]

theorem resave_keeps_iff_noteFile :
    ∃ b m' k, openFile (blankBuffer 1) (storedFile noteFile) nameA = .ok b ∧
      saveFile b (storedFile noteFile) nameA = .ok (true, { b with dirty := false }, m') ∧
      readFile m' nameA = .ok ([104, 105, 10, 10, 120] ++ List.replicate k newline) := by
  have hfits : FitsTable (plainText noteFile) := by
    unfold FitsTable
    decide
  obtain ⟨b, m', hopen, hsave⟩ := resave_storedFile noteFile (by decide) (by decide)
  obtain ⟨written, hwritten, hkeeps⟩ := resave_keeps_iff
    (readFile_storedFile noteFile (by decide)).1 (by decide) hopen hsave
  obtain ⟨k, rfl⟩ := hkeeps.mpr hfits
  exact ⟨b, m', k, hopen, hsave, hwritten⟩

/-- A line of 121 characters. -/
def longLine : List UInt8 := List.replicate 121 97

/-- Its last character is lost. -/
theorem resave_loses_longLine :
    readFile (storedFile longLine) nameA = .ok longLine ∧ 0 ∉ longLine ∧
      ∃ b m' written, openFile (blankBuffer 1) (storedFile longLine) nameA = .ok b ∧
        saveFile b (storedFile longLine) nameA = .ok (true, { b with dirty := false }, m') ∧
        readFile m' nameA = .ok written ∧
        ¬ ∃ k, written = plainText longLine ++ List.replicate k newline := by
  have hbyte : ∀ c ∈ longLine, c = 97 := fun c hc => List.eq_of_mem_replicate hc
  have hlength : longLine.length = 121 := List.length_replicate
  have hread := (readFile_storedFile longLine (by omega)).1
  have hnul : 0 ∉ longLine := fun hmem => absurd (hbyte 0 hmem) (by decide)
  obtain ⟨b, m', hopen, hsave⟩ := resave_storedFile longLine (by omega) (by decide +kernel)
  refine ⟨hread, hnul, b, m', _, hopen, hsave, resave_written hread hnul hopen hsave, ?_⟩
  have hplain : plainText longLine = longLine :=
    List.filter_eq_self.mpr fun c hc => by rw [hbyte c hc]; rfl
  rw [hplain, serialize_loadRows_iff fun hmem => absurd (hbyte _ hmem) (by decide)]
  rintro ⟨hwidth, _⟩
  rw [List.splitOn_eq_singleton fun hmem => absurd (hbyte _ hmem) (by decide)] at hwidth
  have hle : longLine.length ≤ 120 := hwidth longLine (List.mem_singleton_self _)
  omega

end FalastinOS.Editor
