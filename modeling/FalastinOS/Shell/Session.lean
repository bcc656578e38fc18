/-
  Shell/Session.lean --- what a user can do, and what it does to the drive.

  A session is a stack of programs, the one with the keyboard on top.  The
  kernel starts the window manager; its terminal runs `execute_command` on each
  line, as the prompt of `shell_start` does.  The commands `gui` and `edit` push
  a program that is popped when it is left.

  The editor and the file manager appear here by the file system calls they make:
  Ctrl+S is a `fs_write` of the open file with any contents, and the file manager
  makes any calls.  So the runs here include every run of the source.

  All of them reach the drive through `diskfs.c`, with one exception: `rawtest`
  writes its pattern to sector 300, and the file system has 201..1230 for the
  table.  `inStep_iff_rawtest_harmless` says that this is the only way in which
  memory and drive get out of step.
-/
import FalastinOS.Foundation.Execution
import FalastinOS.DiskFs.Persistence
import FalastinOS.DiskFs.Tree
import FalastinOS.Shell.Commands

set_option autoImplicit false

namespace FalastinOS.Shell

open FalastinOS.Foundation FalastinOS.Drivers FalastinOS.DiskFs

/-! ## Sessions -/

/-- The machine and the programs that run, the one with the keyboard first; no
program is left when the machine has stopped. -/
structure Session where
  machine : Machine
  modes : List Mode

/-- What the user does. -/
inductive Event where
  /-- a line and Enter, at the prompt or in the terminal window -/
  | line (input : CStr)
  /-- Ctrl+S in the editor, with the contents of its lines -/
  | save (data : Nat → UInt8) (size : Int32)
  /-- a call made by the file manager -/
  | fileManager (call : Call)
  /-- the editor's icon in the program manager -/
  | openEditor
  /-- Ctrl+Q in the editor, or the last window closed -/
  | leave

/-- `copy_string(filename, name, sizeof(filename))` of `editor_open`. -/
def editorName (name : CStr) : CStr where
  bytes := name.bytes.take 63
  noNul := fun h => name.noNul (List.mem_of_mem_take h)

/-- The file the program manager opens. -/
def notesTxt : CStr := ⟨text "notes.txt", by decide⟩

/-- The session after a command. -/
def Session.after (s : Session) (m : Machine) : Control → Session
  | .back => ⟨m, s.modes⟩
  | .enter mode => ⟨m, mode :: s.modes⟩
  | .halt => ⟨m, []⟩

/-- The session after a call made by the program with the keyboard. -/
def Session.call (s : Session) (c : Call) : Except Fault Session :=
  match fsCall s.machine c with
  | .error e => .error e
  | .ok (m, control) => .ok (s.after m control)

/-- The session after a line was given to `execute_command`. -/
def Session.submit (s : Session) (input : CStr) : Except Fault Session :=
  match executeCommand s.machine input with
  | .error e => .error e
  | .ok (m, control) => .ok (s.after m control)

/-- Does the program with the keyboard pass the line to `execute_command`?  The
terminal keeps `exit` to itself and closes its window. -/
def Session.Accepts (s : Session) (input : CStr) : Prop :=
  match s.modes with
  | .shell :: _ => True
  | .gui :: _ => input.bytes ≠ text "exit"
  | _ => False

/-- What an event does; one that the program with the keyboard does not know is
ignored. -/
def step (s : Session) : Event → Except Fault Session
  | .line input =>
      match s.modes with
      | .shell :: _ => s.submit input
      | .gui :: _ => if input.bytes = text "exit" then .ok s else s.submit input
      | _ => .ok s
  | .save data size =>
      match s.modes with
      | .editor name :: _ => s.call (.write (editorName name) data size)
      | _ => .ok s
  | .fileManager call =>
      match s.modes with
      | .gui :: _ => s.call call
      | _ => .ok s
  | .openEditor =>
      match s.modes with
      | .gui :: _ => .ok ⟨s.machine, .editor notesTxt :: s.modes⟩
      | _ => .ok s
  | .leave =>
      match s.modes with
      | .editor _ :: rest => .ok ⟨s.machine, rest⟩
      | .gui :: rest => .ok ⟨s.machine, rest⟩
      | _ => .ok s

/-! ## What a command can do -/

theorem fsCall_edits {m m' : Machine} {c : Call} {control : Control}
    (h : fsCall m c = .ok (m', control)) : Edits m m' := by
  unfold fsCall at h
  split at h
  · exact absurd h (by simp)
  · rename_i m'' hstep
    obtain ⟨rfl, _⟩ := Prod.mk.inj (Except.ok.inj h)
    exact step_edits hstep

theorem edits_of_ok {m m' : Machine} {control control' : Control}
    (h : Except.ok (ε := Fault) (m, control) = .ok (m', control')) : Edits m m' := by
  obtain ⟨rfl, _⟩ := Prod.mk.inj (Except.ok.inj h)
  exact .refl

/-- A command that looks for a word and calls the file system with it. -/
theorem wordCall_edits {m m' : Machine} {args : List CStr} {c : CStr → Call} {control : Control}
    (h : (match args with
      | [] => .ok (m, .back)
      | name :: _ => fsCall m (c name)) = Except.ok (m', control)) : Edits m m' := by
  cases args with
  | nil => exact edits_of_ok h
  | cons name _ => exact fsCall_edits h

/-- Every command but `rawtest` reaches the drive through the file system. -/
theorem run_edits {command : Command} (hraw : command ≠ .rawtest) {m m' : Machine}
    {args : List CStr} {control : Control} (h : command.run m args = .ok (m', control)) :
    Edits m m' := by
  cases command with
  | touch => exact wordCall_edits h
  | rm => exact wordCall_edits h
  | rmdir => exact wordCall_edits h
  | mkdir => exact wordCall_edits h
  | write =>
      rcases args with _ | ⟨name, _ | ⟨word, rest⟩⟩
      · exact edits_of_ok h
      · exact edits_of_ok h
      · exact fsCall_edits h
  | cd =>
      cases args with
      | nil => exact fsCall_edits (c := .cd rootPath) h
      | cons path _ => exact fsCall_edits (c := .cd path) h
  | sync =>
      obtain ⟨rfl, _⟩ := Prod.mk.inj (Except.ok.inj h)
      exact .single (.save m.files)
  | testfs => exact fsCall_edits h
  | rawtest => exact absurd rfl hraw
  | edit =>
      cases args with
      | nil => exact edits_of_ok h
      | cons name _ => exact edits_of_ok h
  | _ => exact edits_of_ok h

/-- A completed `execute_command`: a `rawtest`, or a chain of edits. -/
theorem executeCommand_cases {m m' : Machine} {input : CStr} {control : Control}
    (h : executeCommand m input = .ok (m', control)) :
    (commandOf input = some .rawtest ∧ m' = cmdRawtest m) ∨
    (commandOf input ≠ some .rawtest ∧ Edits m m') := by
  unfold executeCommand at h
  split at h
  · exact absurd h (by simp)
  · cases hcommand : commandOf input with
    | none =>
        simp only [hcommand] at h
        exact Or.inr ⟨by simp, edits_of_ok h⟩
    | some command =>
        simp only [hcommand] at h
        by_cases hraw : command = .rawtest
        · subst hraw
          obtain ⟨rfl, _⟩ := Prod.mk.inj (Except.ok.inj h)
          exact Or.inl ⟨rfl, rfl⟩
        · exact Or.inr ⟨by simpa using hraw, run_edits hraw h⟩

/-- The event runs `cmd_rawtest`. -/
def Rawtests (s : Session) (e : Event) : Prop :=
  ∃ input, e = .line input ∧ s.Accepts input ∧ commandOf input = some .rawtest

theorem Session.after_machine (s : Session) (m : Machine) (control : Control) :
    (s.after m control).machine = m := by
  cases control <;> rfl

theorem Session.call_edits {s s' : Session} {c : Call} (h : s.call c = .ok s') :
    Edits s.machine s'.machine := by
  unfold Session.call at h
  split at h
  · exact absurd h (by simp)
  · rename_i m control hcall
    obtain rfl := Except.ok.inj h
    rw [s.after_machine]
    exact fsCall_edits hcall

theorem Session.submit_cases {s s' : Session} {input : CStr} (h : s.submit input = .ok s') :
    (commandOf input = some .rawtest ∧ s'.machine = cmdRawtest s.machine) ∨
    (commandOf input ≠ some .rawtest ∧ Edits s.machine s'.machine) := by
  unfold Session.submit at h
  split at h
  · exact absurd h (by simp)
  · rename_i m control hcommand
    obtain rfl := Except.ok.inj h
    rw [s.after_machine]
    exact executeCommand_cases hcommand

/-- Another event than a line is a chain of edits. -/
theorem step_edits_of_not_line {s s' : Session} {e : Event} (hline : ∀ input, e ≠ .line input)
    (h : step s e = .ok s') : Edits s.machine s'.machine := by
  have hsame : ∀ {modes : List Mode}, Except.ok (ε := Fault) ⟨s.machine, modes⟩ = .ok s' →
      Edits s.machine s'.machine := by
    intro modes h
    obtain rfl := Except.ok.inj h
    exact .refl
  cases e with
  | line input => exact absurd rfl (hline input)
  | save data size =>
      simp only [step] at h
      split at h
      · exact s.call_edits h
      · exact hsame h
  | fileManager call =>
      simp only [step] at h
      split at h
      · exact s.call_edits h
      · exact hsame h
  | openEditor =>
      simp only [step] at h
      split at h
      all_goals exact hsame h
  | leave =>
      simp only [step] at h
      split at h
      all_goals exact hsame h

/-- A line is given to `execute_command`, or nothing happens. -/
theorem step_line {s s' : Session} {input : CStr} (h : step s (.line input) = .ok s') :
    (s.Accepts input ∧ s.submit input = .ok s') ∨ (¬ s.Accepts input ∧ s' = s) := by
  obtain ⟨m, modes⟩ := s
  rcases modes with _ | ⟨_ | _ | name, rest⟩
  · exact Or.inr ⟨id, (Except.ok.inj h).symm⟩
  · exact Or.inl ⟨trivial, h⟩
  · by_cases hexit : input.bytes = text "exit"
    · rw [step, if_pos hexit] at h
      exact Or.inr ⟨not_not_intro hexit, (Except.ok.inj h).symm⟩
    · rw [step, if_neg hexit] at h
      exact Or.inl ⟨hexit, h⟩
  · exact Or.inr ⟨id, (Except.ok.inj h).symm⟩

theorem rawtests_line_iff {s : Session} {input : CStr} :
    Rawtests s (.line input) ↔ s.Accepts input ∧ commandOf input = some .rawtest := by
  constructor
  · rintro ⟨input', heq, h⟩
    obtain rfl := Event.line.inj heq
    exact h
  · exact fun h => ⟨input, rfl, h⟩

/-- A completed step: a `rawtest`, or a chain of edits. -/
theorem step_cases {s s' : Session} {e : Event} (h : step s e = .ok s') :
    (Rawtests s e ∧ s'.machine = cmdRawtest s.machine) ∨
    (¬ Rawtests s e ∧ Edits s.machine s'.machine) := by
  by_cases hline : ∃ input, e = .line input
  · obtain ⟨input, rfl⟩ := hline
    rw [rawtests_line_iff]
    rcases step_line h with ⟨haccepts, hsubmit⟩ | ⟨hno, rfl⟩
    · rcases s.submit_cases hsubmit with ⟨hraw, hm⟩ | ⟨hraw, hedits⟩
      · exact Or.inl ⟨⟨haccepts, hraw⟩, hm⟩
      · exact Or.inr ⟨fun hboth => hraw hboth.2, hedits⟩
    · exact Or.inr ⟨fun hboth => hno hboth.1, .refl⟩
  · have hother : ∀ input, e ≠ .line input := fun input heq => hline ⟨input, heq⟩
    exact Or.inr ⟨fun ⟨input, heq, _⟩ => hother input heq, step_edits_of_not_line hother h⟩

/-! ## Sector 300 -/

/-- The slot whose record covers sector 300. -/
def rawtestSlot : Slot := ⟨6, by decide⟩

/-- Bytes 1216..1727 of the data of slot 6 are the pattern of `rawtest`. -/
def PatternInPlace (files : Files) : Prop :=
  ∀ j : Fin 512, (files rawtestSlot).data ⟨1216 + j.val, by unfold maxFileSize; omega⟩ =
    rawPattern j

/-- Sector 300 is data sector 99, and holds these bytes. -/
theorem sectorOf_rawtest (files : Files) (j : Fin 512) :
    sectorOf (rawOf files) 99 j =
      (files rawtestSlot).data ⟨1216 + j.val, by unfold maxFileSize; omega⟩ := by
  have hj : j.val < 512 := j.isLt
  have hrecord : recordSize = 8240 := rfl
  have hbyte : 32 + (1216 + j.val) < recordSize := by omega
  have hidx : 99 * 512 + j.val = rawtestSlot.val * recordSize + (32 + (1216 + j.val)) := by
    show 99 * 512 + j.val = 6 * recordSize + (32 + (1216 + j.val))
    omega
  have htotal : 99 * 512 + j.val < totalBytes := by
    have : totalBytes = 527360 := rfl
    omega
  rw [sectorOf, if_pos htotal, hidx, rawOf_at files rawtestSlot hbyte]
  exact File.byte_data _ ⟨1216 + j.val, by unfold maxFileSize; omega⟩

/-- `cmd_rawtest` on a working drive replaces sector 300. -/
theorem cmdRawtest_working {m : Machine} (hd : m.ata.Working) :
    cmdRawtest m = { m with ata := (m.ata.store rawtestLba rawPattern).next } := by
  have hwrite := ataWriteSector_working hd (show rawtestLba < 2 ^ 28 by decide) rawPattern
  have hread := ataReadSector_working (hd.store rawtestLba rawPattern)
    (show rawtestLba < 2 ^ 28 by decide) fun _ => 0
  simp [cmdRawtest, ataDrivePresent, hd.present, hwrite, hread]

/-- In step before a `rawtest`, memory and drive are in step after it exactly if
the table held the pattern already. -/
theorem image_cmdRawtest_iff {m : Machine} (hd : m.ata.Working) (himage : Image m.ata m.files) :
    Image (cmdRawtest m).ata (cmdRawtest m).files ↔ PatternInPlace m.files := by
  rw [cmdRawtest_working hd]
  constructor
  · intro hafter j
    have hsector : sectorOf (rawOf m.files) 99 = rawPattern := by
      rw [← hafter.data 99 (by decide)]
      exact Function.update_self rawtestLba rawPattern m.ata.sectors
    rw [← sectorOf_rawtest, hsector]
  · intro hpattern
    have hsame : (m.ata.store rawtestLba rawPattern).next.sectors = m.ata.sectors := by
      have hsector : m.ata.sectors rawtestLba = rawPattern := by
        funext j
        rw [show rawtestLba = fsStartLba + 1 + 99 from rfl, himage.data 99 (by decide),
          sectorOf_rawtest]
        exact hpattern j
      rw [← hsector]
      exact Function.update_eq_self ..
    exact himage.of_sectors hsame

/-! ## Runs -/

/-- If the event is a `rawtest`, the table holds its pattern already. -/
def RawtestHarmless (s : Session) (e : Event) : Prop :=
  Rawtests s e → PatternInPlace s.machine.files

/-- The drive stays working. -/
theorem step_working {s s' : Session} {e : Event} (hd : s.machine.ata.Working)
    (h : step s e = .ok s') : s'.machine.ata.Working := by
  rcases step_cases h with ⟨_, hm⟩ | ⟨_, hedits⟩
  · rw [hm, cmdRawtest_working hd]
    exact (hd.store rawtestLba rawPattern).next
  · exact (Edits.keep hedits hd).1

/-- A step from a session in step ends in step exactly if it is not a harmful
`rawtest`. -/
theorem inStep_step_iff {s s' : Session} {e : Event} (hd : s.machine.ata.Working)
    (hin : InStep s.machine) (h : step s e = .ok s') :
    InStep s'.machine ↔ RawtestHarmless s e := by
  rcases step_cases h with ⟨hraw, hm⟩ | ⟨hraw, hedits⟩
  · rw [hm, inStep_iff_image, image_cmdRawtest_iff hd hin.image]
    exact ⟨fun hpattern _ => hpattern, fun hharmless => hharmless hraw⟩
  · have hafter : InStep s'.machine := inStep_iff_image.mpr ((Edits.keep hedits hd).2 hin.image)
    exact ⟨fun _ hraw' => absurd hraw' hraw, fun _ => hafter⟩

/-- From `diskfs_init` on a working drive, memory and drive are in step after
every event of a run exactly if every `rawtest` of the run finds its pattern in
the table already. -/
theorem inStep_iff_rawtest_harmless {b : Machine} (hd : b.ata.Working) (modes : List Mode)
    (events : List Event) :
    Along step (fun s => InStep s.machine) ⟨(diskfsInit b).machine, modes⟩ events ↔
      Guarded step RawtestHarmless ⟨(diskfsInit b).machine, modes⟩ events := by
  obtain ⟨hworking, himage⟩ := diskfsInit_image hd
  exact along_iff_guarded (J := fun s => s.machine.ata.Working)
    (fun s e s' hs h => step_working hs h)
    (fun s e s' hs hin h => inStep_step_iff hs hin h)
    hworking (inStep_iff_image.mpr himage)

/-- A machine with a blank drive, as `kmain` finds it. -/
def blankMachine : Machine := ⟨zeroFiles, 0, blankDrive⟩

theorem working_blankMachine : blankMachine.ata.Working := working_blankDrive

/-- The session the kernel starts: the program manager on a fresh file system. -/
def kernelSession (m : Machine) : Session := ⟨m, [.gui]⟩

/-- `touch a`. -/
def touchLine : CStr := ⟨text "touch a", by decide⟩

theorem inStep_iff_rawtest_harmless_touch :
    blankMachine.ata.Working ∧
      Along step (fun s => InStep s.machine) (kernelSession (diskfsInit blankMachine).machine)
        [.line touchLine, .leave] := by
  have htouch : commandOf touchLine = some .touch := by decide +kernel
  refine ⟨working_blankMachine,
    (inStep_iff_rawtest_harmless working_blankMachine [.gui] _).mpr ?_⟩
  intro s _
  refine ⟨fun hraw => ?_, fun s' _ => ⟨?_, trivial⟩⟩
  · rw [rawtests_line_iff, htouch] at hraw
    exact absurd hraw.2 (by decide)
  · rintro ⟨_, heq, _⟩
    cases heq

/-- `rawtest`. -/
def rawtestLine : CStr := ⟨text "rawtest", by decide⟩

/-- The line in the terminal. -/
theorem run_rawtestLine (m : Machine) :
    run step (kernelSession m) [.line rawtestLine] = .ok (kernelSession (cmdRawtest m)) := by
  have hshort : ¬ 16 < (words rawtestLine).length := by decide +kernel
  have hcommand : commandOf rawtestLine = some .rawtest := by decide +kernel
  have hexit : rawtestLine.bytes ≠ text "exit" := by decide
  simp only [run, step, kernelSession, if_neg hexit, Session.submit, executeCommand,
    if_neg hshort, hcommand, Command.run, Session.after]

/-- The table made on a blank drive has no data. -/
theorem data_blankMachine (i : Slot) :
    ((diskfsInit blankMachine).machine.files i).data = fun _ => 0 := by
  have hnone : FindsNone blankMachine := by
    refine Or.inr (Or.inr ?_)
    rw [ataReadSector_working working_blankMachine (by decide)]
    decide
  obtain ⟨hloads, hfiles⟩ := diskfsLoad_of_findsNone hnone
  have hzero : (blankMachine.files i).data = fun _ => 0 := rfl
  rw [← Machine.view_files, diskfsInit_view_of_not_loads hloads, hfiles, ← hzero]
  by_cases hi : i = rootSlot
  · subst hi
    simp [freshFiles, File.clear]
  · simp [freshFiles, File.clear, Function.update_of_ne hi]

theorem inStep_fails_after_rawtest :
    blankMachine.ata.Working ∧
      run step (kernelSession (diskfsInit blankMachine).machine) [.line rawtestLine] =
        .ok (kernelSession (cmdRawtest (diskfsInit blankMachine).machine)) ∧
      ¬ InStep (cmdRawtest (diskfsInit blankMachine).machine) := by
  obtain ⟨hworking, himage⟩ := diskfsInit_image working_blankMachine
  refine ⟨working_blankMachine, run_rawtestLine _, ?_⟩
  rw [inStep_iff_image, image_cmdRawtest_iff hworking himage]
  intro hpattern
  have hone := hpattern ⟨1, by decide⟩
  rw [data_blankMachine] at hone
  exact absurd hone (by decide)

end FalastinOS.Shell
