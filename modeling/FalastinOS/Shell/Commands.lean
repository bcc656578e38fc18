/-
  Shell/Commands.lean --- `commands.c`: parsing, dispatch and the commands.

  `parse_command` cuts the line in place: it stores a NUL over the blank behind
  each word and keeps the words' addresses in `argv`, an array of 16 entries that
  nothing guards.  `execute_command` compares the first word with each entry of
  the command table and calls the entry's function.

  What matters here of a command is what it does to the file system and to the
  drive.  The commands that only print, draw, or use the network do nothing to
  either.  Two commands hand the keyboard over and return later: `edit` to the
  editor and `gui` to the window manager.
-/
import FalastinOS.DiskFs.Ops

set_option autoImplicit false

namespace FalastinOS.Shell

open FalastinOS.Foundation FalastinOS.Drivers FalastinOS.DiskFs

/-- Why a command has no defined outcome. -/
inductive Fault where
  /-- `argv` was written past its 16 entries -/
  | argvOverflow
  /-- a file system operation faulted -/
  | diskFs (fault : DiskFs.Fault)
  deriving DecidableEq, Repr

/-! ## `parse_command` -/

/-- Advance from index `i` while the byte there passes the test, for at most `n`
bytes. -/
def skipWhile (test : UInt8 → Bool) (buf : Mem) : Nat → Nat → Nat
  | 0, i => i
  | n + 1, i => if test (buf i) then skipWhile test buf n (i + 1) else i

/-- `sizeof(buffer)` of `execute_command`. -/
def bufferSize : Nat := 256

/-- The loop of `parse_command` at index `i` of the buffer; the buffer after it,
and the words' addresses.  Each round but the last consumes a byte, so the size
of the buffer bounds the rounds. -/
def parseLoop : Nat → Mem → Nat → List Nat → Mem × List Nat
  | 0, buf, _, argv => (buf, argv)
  | n + 1, buf, i, argv =>
      if buf i = 0 then (buf, argv)
      else
        let start := skipWhile (fun c => c = 32) buf bufferSize i
        if buf start = 0 then (buf, argv)
        else
          let stop := skipWhile (fun c => c ≠ 0 ∧ c ≠ 32) buf bufferSize start
          if buf stop ≠ 0 then parseLoop n (buf.writeByte stop 0) (stop + 1) (argv ++ [start])
          else parseLoop n buf stop (argv ++ [start])

/-- `parse_command(input, argv)`. -/
def parseCommand (buf : Mem) : Mem × List Nat := parseLoop bufferSize buf 0 []

/-- The C string at index `i` of the buffer. -/
def cstrAt (buf : Mem) (i : Nat) : CStr where
  bytes := ((List.range bufferSize).map fun k => buf (i + k)).takeWhile (· ≠ 0)
  noNul := by
    intro h
    have := List.mem_takeWhile_imp h
    simp at this

/-- The copy of the line that `execute_command` makes: at most 255 bytes. -/
def lineBuffer (line : CStr) : Mem := fun i => if i < 255 then line.byte i else 0

/-- The words of a line, as the commands get them. -/
def words (line : CStr) : List CStr :=
  let parsed := parseCommand (lineBuffer line)
  parsed.2.map (cstrAt parsed.1)

/-! ## The command table -/

/-- The functions of the command table. -/
inductive Command where
  | help | info | about | clear | ls | touch | rm | write | cat | debug | bugs | mkdir | cd | pwd
  | rmdir | gui | fbgui | sync | reboot | testfs | checkfs | rawtest | heap | uptime | edit | doom
  | gamemode | snake | net | ping | loopback | netdebug | rxcheck | broadcast | arpcache | addarp
  | setip | arpset | lwip | lwiptest | browse | httpget | showhttp
  deriving DecidableEq, Repr

/-- `commands[]`. -/
def commands : List (String × Command) :=
  [("help", .help), ("info", .info), ("about", .about), ("clear", .clear), ("ls", .ls),
    ("touch", .touch), ("rm", .rm), ("write", .write), ("cat", .cat), ("debug", .debug),
    ("bugs", .bugs), ("mkdir", .mkdir), ("cd", .cd), ("pwd", .pwd), ("rmdir", .rmdir),
    ("gui", .gui), ("fbgui", .fbgui), ("sync", .sync), ("reboot", .reboot), ("testfs", .testfs),
    ("checkfs", .checkfs), ("rawtest", .rawtest), ("heap", .heap), ("uptime", .uptime),
    ("edit", .edit), ("doom", .doom), ("gamemode", .gamemode), ("snake", .snake), ("net", .net),
    ("ping", .ping), ("loopback", .loopback), ("netdebug", .netdebug), ("rxcheck", .rxcheck),
    ("broadcast", .broadcast), ("arpcache", .arpcache), ("addarp", .addarp), ("setip", .setip),
    ("arpset", .arpset), ("lwip", .lwip), ("lwiptest", .lwiptest), ("browse", .browse),
    ("httpget", .httpget), ("showhttp", .showhttp)]

/-- `strcmp_cmd(a, b)`: the difference of the first bytes that differ, as `char`s. -/
def strcmpCmd : List UInt8 → List UInt8 → Int
  | [], [] => 0
  | a :: _, [] => a.toInt8.toInt
  | [], b :: _ => -b.toInt8.toInt
  | a :: as, b :: bs => if a = b then strcmpCmd as bs else a.toInt8.toInt - b.toInt8.toInt

/-- The command `execute_command` runs for a line, if any. -/
def commandOf (line : CStr) : Option Command :=
  match words line with
  | [] => none
  | word :: _ =>
      (commands.find? fun entry => strcmpCmd word.bytes (text entry.1) = 0).map Prod.snd

/-! ## The commands -/

/-- What has the keyboard. -/
inductive Mode where
  /-- the prompt of `shell_start` -/
  | shell
  /-- the window manager with its terminal, file manager and program manager -/
  | gui
  /-- the editor, on a file -/
  | editor (filename : CStr)

/-- What a command leaves behind besides the machine. -/
inductive Control where
  /-- back to the prompt -/
  | back
  /-- the keyboard goes to another program -/
  | enter (mode : Mode)
  /-- the machine stops -/
  | halt

/-- The state after a file system call made by a command. -/
def fsCall (m : Machine) (c : Call) : Except Fault (Machine × Control) :=
  match DiskFs.step m c with
  | .error e => .error (.diskFs e)
  | .ok m' => .ok (m', .back)

/-- The text `cmd_write` puts together: the words joined by blanks. -/
def joinWords : List CStr → List UInt8
  | [] => []
  | [word] => word.bytes
  | word :: rest => word.bytes ++ 32 :: joinWords rest

/-- The memory behind a pointer to the given bytes. -/
def bytesAt (bytes : List UInt8) : Nat → UInt8 := fun k => bytes.getD k 0

/-- The file name of `cmd_testfs`. -/
def persistTest : CStr := ⟨text "persist_test.txt", by decide⟩

/-- The pattern `cmd_rawtest` writes: byte `i` is `i & 0xFF`. -/
def rawPattern : Sector := fun i => UInt8.ofNat i.val

/-- The sector `cmd_rawtest` uses. -/
def rawtestLba : Nat := 300

/-- `cmd_rawtest`. -/
def cmdRawtest (m : Machine) : Machine :=
  if !ataDrivePresent m.ata then m
  else
    let w := ataWriteSector m.ata rawtestLba rawPattern
    if w.ret ≠ 0 then { m with ata := w.ata }
    else { m with ata := (ataReadSector w.ata rawtestLba fun _ => 0).ata }

theorem noNul_root : (0 : UInt8) ∉ text "/" := by decide

/-- The root path. -/
def rootPath : CStr := ⟨text "/", noNul_root⟩

/-- What a command does, given the words behind its own name. -/
def Command.run (m : Machine) (args : List CStr) : Command → Except Fault (Machine × Control)
  | .touch =>
      match args with
      | [] => .ok (m, .back)
      | name :: _ => fsCall m (.create name)
  | .rm =>
      match args with
      | [] => .ok (m, .back)
      | name :: _ => fsCall m (.delete name)
  | .rmdir =>
      match args with
      | [] => .ok (m, .back)
      | name :: _ => fsCall m (.delete name)
  | .mkdir =>
      match args with
      | [] => .ok (m, .back)
      | name :: _ => fsCall m (.mkdir name)
  | .write =>
      match args with
      | name :: word :: rest =>
          let bytes := joinWords (word :: rest)
          fsCall m (.write name (bytesAt bytes) (Int32.ofNat bytes.length))
      | _ => .ok (m, .back)
  | .cd =>
      match args with
      | [] => fsCall m (.cd rootPath)
      | path :: _ => fsCall m (.cd path)
  | .sync => .ok ((diskfsSave m).machine, .back)
  | .testfs => fsCall m (.write persistTest (bytesAt (text "Hello persistence!")) 19)
  | .rawtest => .ok (cmdRawtest m, .back)
  | .edit =>
      match args with
      | [] => .ok (m, .back)
      | name :: _ => .ok (m, .enter (.editor name))
  | .gui => .ok (m, .enter .gui)
  | .reboot => .ok (m, .halt)
  | _ => .ok (m, .back)

/-- `execute_command(input_str)`. -/
def executeCommand (m : Machine) (line : CStr) : Except Fault (Machine × Control) :=
  if 16 < (words line).length then .error .argvOverflow
  else
    match commandOf line with
    | none => .ok (m, .back)
    | some command => command.run m (words line).tail

example : (words ⟨text "  write a  b c ", by decide⟩).map CStr.bytes =
    [text "write", text "a", text "b", text "c"] := by decide +kernel

end FalastinOS.Shell
