/-
  DiskFs/OnPorts.lean --- the file system on a drive behind its ports.

  The functions of `diskfs.c` are programs over the two functions of `ata.c`; here they are
  written so, as programs that ask for transfers.  Run against the abstract driver they are
  the operations of `DiskFs/Ops.lean`; run against the ports they are what the machine does.
  `filesystem_refines` says that the second is the first, for some behaviour of the abstract
  drive: what is proved about the file system over all drives holds at the ports.
-/
import FalastinOS.DiskFs.Persistence
import FalastinOS.Drivers.AtaPorts
import FalastinOS.Foundation.Device

set_option autoImplicit false

namespace FalastinOS.DiskFs

open FalastinOS.Foundation FalastinOS.Drivers

/-! ## Programs over the driver -/

/-- A program that transfers sectors. -/
abbrev OnDisk (R : Type) : Type := Asks Transfer (Int32 × Sector) R

/-- The outer loop of `diskfs_save`. -/
def saveLoopOn (raw : Mem) : Nat → Nat → OnDisk Bool
  | 0, _ => .done true
  | n + 1, i => .ask (.write (UInt32.ofNat (fsStartLba + 1 + i)) (sectorOf raw i)) fun w =>
      if w.1 ≠ 0 then .done false else saveLoopOn raw n (i + 1)

/-- `diskfs_save()`: what it prints. -/
def saveOn (present : Bool) (files : Files) : OnDisk (List UInt8) :=
  if !present then .done []
  else .ask (.write (UInt32.ofNat fsStartLba) superblock) fun w =>
    if w.1 ≠ 0 then .done (text "FS save: superblock write failed\n")
    else (saveLoopOn (rawOf files) totalSectors 0).map fun saved =>
      if saved then text "Filesystem saved.\n" else text "FS save: data write failed\n"

/-- The outer loop of `diskfs_load`. -/
def loadLoopOn : Nat → Nat → Sector → Mem → OnDisk (Bool × Mem)
  | 0, _, _, raw => .done (true, raw)
  | n + 1, i, sector, raw => .ask (.read (UInt32.ofNat (fsStartLba + 1 + i)) sector) fun r =>
      if r.1 ≠ 0 then .done (false, raw) else loadLoopOn n (i + 1) r.2 (storeSector raw i r.2)

/-- `diskfs_load()`: true for 1, and the table after it. -/
def loadOn (files : Files) : OnDisk (Bool × Files) :=
  .ask (.read (UInt32.ofNat fsStartLba) fun _ => 0) fun r =>
    if r.1 ≠ 0 then .done (false, files)
    else if !superblockValid r.2 then .done (false, files)
    else (loadLoopOn totalSectors 0 r.2 (rawOf files)).map fun l => (l.1, filesOf l.2)

/-- `diskfs_init()`. -/
def initOn (present : Bool) (v : View) : OnDisk (List UInt8 × View) :=
  let hello := text "Initializing filesystem...\n"
  (if present then loadOn v.files else .done (false, v.files)).bind fun l =>
    if l.1 then .done (hello ++ text "Loaded filesystem from disk.\n", ⟨l.2, v.dir⟩)
    else
      let fresh : View := ⟨freshFiles l.2, 0⟩
      if present then (saveOn present fresh.files).map fun out =>
        (hello ++ text "Fresh filesystem, saving to disk.\n" ++ out, fresh)
      else .done (hello ++ text "No disk, using RAM only.\n", fresh)

/-- What a function returned and printed, and the table and the directory after it. -/
structure Answer where
  ret : Int32
  out : List UInt8
  view : View

/-- The common body of `diskfs_create` and `diskfs_mkdir`. -/
def makeEntryOn (present : Bool) (kind : EntryKind) (v : View) (name : CStr) : OnDisk Answer :=
  match findFile v.files name v.dir with
  | some _ => .done ⟨-1, text kind.existsMsg, v⟩
  | none =>
      match findFree v.files with
      | none => .done ⟨-1, text kind.noSlotMsg, v⟩
      | some slot =>
          let v := v.insert kind.isDir name slot
          (saveOn present v.files).map fun out =>
            ⟨0, text kind.doneMsg ++ name.bytes ++ text "\n" ++ out, v⟩

/-- The part of `diskfs_write` after the lookup. -/
def storeDataOn (present : Bool) (v : View) (idx : Option Slot) (out : List UInt8)
    (data : Nat → UInt8) (size : Int32) : OnDisk (Except Fault Answer) :=
  if 8192 < size then .done (.ok ⟨-1, out ++ text "File too large\n", v⟩)
  else
    match idx with
    | none => .done (.error (.filesIndex (-1)))
    | some i =>
        let v := v.store i data size
        (saveOn present v.files).map fun saved =>
          .ok ⟨0, out ++ text "Written " ++ printInt size ++ text " bytes\n" ++ saved, v⟩

/-- `diskfs_write(name, data, size)`. -/
def writeOn (present : Bool) (v : View) (name : CStr) (data : Nat → UInt8) (size : Int32) :
    OnDisk (Except Fault Answer) :=
  match findFile v.files name v.dir with
  | some idx => storeDataOn present v (some idx) [] data size
  | none =>
      (makeEntryOn present fileKind v name).bind fun created =>
        if created.ret ≠ 0 then .done (.ok ⟨-1, created.out, created.view⟩)
        else
          storeDataOn present created.view
            (findFile created.view.files name created.view.dir) created.out data size

/-- `diskfs_delete(name)`. -/
def deleteOn (present : Bool) (v : View) (name : CStr) : OnDisk Answer :=
  match findFile v.files name v.dir with
  | none => .done ⟨-1, text "File not found\n", v⟩
  | some idx =>
      let v := v.remove idx
      (saveOn present v.files).map fun out =>
        ⟨0, text "Deleted: " ++ name.bytes ++ text "\n" ++ out, v⟩

/-- What a function of `Ops.lean` left, without the drive. -/
def Reply.answer (r : Reply) : Answer := ⟨r.ret, r.out, r.machine.view⟩

/-- A call.  `diskfs_cd` transfers nothing. -/
def Call.on (present : Bool) (v : View) : Call → OnDisk (Except Fault Answer)
  | .create name => (makeEntryOn present fileKind v name).map .ok
  | .mkdir name => (makeEntryOn present dirKind v name).map .ok
  | .write name data size => writeOn present v name data size
  | .delete name => (deleteOn present v name).map .ok
  | .cd path => .done ((diskfsCd ⟨v.files, v.dir, bareMachine.ata⟩ path).map Reply.answer)

/-- Calls one after another: what they return and print, and the state after the last. -/
def callsOn (present : Bool) :
    View → List Call → OnDisk (List (Int32 × List UInt8) × Except Fault View)
  | v, [] => .done ([], .ok v)
  | v, c :: rest => (c.on present v).bind fun
      | .error e => .done ([], .error e)
      | .ok a => (callsOn present a.view rest).map fun r => ((a.ret, a.out) :: r.1, r.2)

/-- A session of the file system: what its start prints, what the calls return and print, and
the state after them. -/
structure Record where
  greeting : List UInt8
  replies : List (Int32 × List UInt8)
  last : Except Fault View

/-- `diskfs_init()` and calls. -/
def sessionOn (present : Bool) (v : View) (calls : List Call) : OnDisk Record :=
  (initOn present v).bind fun start => (callsOn present start.2 calls).map fun r =>
    ⟨start.1, r.1, r.2⟩

/-- `ata_init`, `diskfs_init` and calls at the ports. -/
def sessionPorts {σ : Type} (bus : Bus σ) (v : View) (calls : List Call) : StateM σ Record := do
  let present ← ataInit bus
  fun s => (sessionOn present v calls).run (fun t => (t.ports bus present).run) s

/-- What calls return and print. -/
def replies : Machine → List Call → List (Int32 × List UInt8)
  | _, [] => []
  | m, c :: rest =>
      match c.exec m with
      | .error _ => []
      | .ok r => (r.ret, r.out) :: replies r.machine rest

/-- A session on the abstract driver. -/
def sessionExec (m : Machine) (calls : List Call) : Record :=
  let start := diskfsInit m
  ⟨start.out, replies start.machine calls, (run step start.machine calls).map Machine.view⟩

/-! ## On the abstract driver -/

section Abstract

/-- The driver of `Drivers/Ata.lean`. -/
def ataDevice : Transfer → Ata → (Int32 × Sector) × Ata := fun t a => t.exec a

theorem ataDevice_write (a : Ata) {lba : Nat} (h : lba < 2 ^ 32) (s : Sector) :
    ataDevice (.write (UInt32.ofNat lba) s) a =
      (((ataWriteSector a lba s).ret, s), (ataWriteSector a lba s).ata) := by
  rw [ataDevice, Transfer.exec, UInt32.toNat_ofNat', Nat.mod_eq_of_lt h]

theorem ataDevice_read (a : Ata) {lba : Nat} (h : lba < 2 ^ 32) (s : Sector) :
    ataDevice (.read (UInt32.ofNat lba) s) a =
      (((ataReadSector a lba s).ret, (ataReadSector a lba s).buffer),
        (ataReadSector a lba s).ata) := by
  rw [ataDevice, Transfer.exec, UInt32.toNat_ofNat', Nat.mod_eq_of_lt h]

theorem saveLoopOn_run (raw : Mem) (n : Nat) : ∀ (i : Nat) (a : Ata),
    fsStartLba + 1 + i + n < 2 ^ 32 →
      (saveLoopOn raw n i).run ataDevice a = saveLoop raw n i a := by
  induction n with
  | zero => exact fun i a _ => rfl
  | succ n ih =>
      intro i a hroom
      rw [saveLoopOn, Asks.run, ataDevice_write a (by omega), saveLoop]
      dsimp only
      split
      · rfl
      · exact ih (i + 1) _ (by omega)

theorem saveOn_run (m : Machine) : (saveOn m.ata.present m.files).run ataDevice m.ata =
    ((diskfsSave m).out, (diskfsSave m).machine.ata) := by
  rw [saveOn, diskfsSave, ataDrivePresent]
  split
  · rfl
  rw [Asks.run, ataDevice_write m.ata (by decide)]
  dsimp only
  split
  · rfl
  rw [Asks.run_map, saveLoopOn_run _ _ _ _ (by decide)]
  split
  next hsaved => rfl
  next hsaved => rfl

theorem loadLoopOn_run (n : Nat) : ∀ (i : Nat) (sector : Sector) (raw : Mem) (a : Ata),
    fsStartLba + 1 + i + n < 2 ^ 32 →
      (loadLoopOn n i sector raw).run ataDevice a =
        (((loadLoop n i sector raw a).1, (loadLoop n i sector raw a).2.1),
          (loadLoop n i sector raw a).2.2) := by
  induction n with
  | zero => exact fun i sector raw a _ => rfl
  | succ n ih =>
      intro i sector raw a hroom
      rw [loadLoopOn, Asks.run, ataDevice_read a (by omega), loadLoop]
      dsimp only
      split
      · rfl
      · exact ih (i + 1) _ _ _ (by omega)

theorem loadOn_run (m : Machine) : (loadOn m.files).run ataDevice m.ata =
    (((diskfsLoad m).1, (diskfsLoad m).2.files), (diskfsLoad m).2.ata) := by
  rw [loadOn, diskfsLoad, Asks.run, ataDevice_read m.ata (by decide)]
  dsimp only
  split
  · rfl
  split
  · rfl
  rw [Asks.run_map, loadLoopOn_run _ _ _ _ _ (by decide)]

/-- The driver's flag never changes. -/
theorem present_run {R : Type} (p : OnDisk R) (a : Ata) :
    (p.run ataDevice a).2.present = a.present := by
  refine Asks.run_keeps (I := fun d : Ata => d.present = a.present) (fun t d hd => ?_) p rfl
  cases t with
  | read lba buffer =>
      obtain ⟨n, hn⟩ := ataReadSector_ata d lba.toNat buffer
      exact (congrArg Ata.present hn).trans hd
  | write lba buffer =>
      rw [ataDevice, Transfer.exec, ataWriteSector]
      repeat' split
      all_goals exact hd

theorem present_diskfsLoad (m : Machine) : (diskfsLoad m).2.ata.present = m.ata.present := by
  have h := present_run (loadOn m.files) m.ata
  rwa [loadOn_run] at h

theorem diskfsLoad_dir (m : Machine) : (diskfsLoad m).2.currentDir = m.currentDir := by
  rw [diskfsLoad]
  dsimp only
  repeat' split
  all_goals rfl

theorem initOn_run (m : Machine) : (initOn m.ata.present m.view).run ataDevice m.ata =
    (((diskfsInit m).out, (diskfsInit m).machine.view), (diskfsInit m).machine.ata) := by
  have hdir := diskfsLoad_dir m
  have hflag := present_diskfsLoad m
  rw [initOn, diskfsInit, Asks.run_bind, ataDrivePresent]
  cases hpresent : m.ata.present with
  | false =>
      simp only [Bool.false_eq_true, if_false, Asks.run, ataDrivePresent, hpresent]
      rfl
  | true =>
      rw [hpresent] at hflag
      simp only [if_true, Machine.view_files, loadOn_run, ataDrivePresent, hflag]
      cases (diskfsLoad m).1 with
      | true => simp only [if_true, Asks.run, Machine.view, hdir]
      | false =>
          have hsave := saveOn_run { (diskfsLoad m).2 with
            files := freshFiles (diskfsLoad m).2.files, currentDir := 0 }
          rw [hflag] at hsave
          simp only [Bool.false_eq_true, if_false, Asks.run_map, hsave, view_diskfsSave]
          rfl

theorem makeEntryOn_run (kind : EntryKind) (m : Machine) (name : CStr) :
    (makeEntryOn m.ata.present kind m.view name).run ataDevice m.ata =
      ((makeEntry kind m name).answer, (makeEntry kind m name).machine.ata) := by
  rw [makeEntryOn, makeEntry, Machine.view_files, Machine.view_dir]
  cases findFile m.files name m.currentDir with
  | some idx => rfl
  | none =>
      cases findFree m.files with
      | none => rfl
      | some slot =>
          have hsave := saveOn_run { m with files := (m.view.insert kind.isDir name slot).files }
          have hview := view_diskfsSave
            { m with files := (m.view.insert kind.isDir name slot).files }
          simp only [Asks.run_map, hsave]
          exact congrArg (fun v => (Answer.mk 0 _ v, _)) hview.symm

theorem present_makeEntry (kind : EntryKind) (m : Machine) (name : CStr) :
    (makeEntry kind m name).machine.ata.present = m.ata.present := by
  have h := present_run (makeEntryOn m.ata.present kind m.view name) m.ata
  rwa [makeEntryOn_run] at h

/-- What a program that can fault leaves. -/
def Agrees (result : Except Fault Answer × Ata) (r : Except Fault Reply) : Prop :=
  match r with
  | .ok r => result = (.ok r.answer, r.machine.ata)
  | .error e => result.1 = .error e

theorem storeDataOn_run (m : Machine) (idx : Option Slot) (out : List UInt8) (data : Nat → UInt8)
    (size : Int32) :
    Agrees ((storeDataOn m.ata.present m.view idx out data size).run ataDevice m.ata)
      (storeData m idx out data size) := by
  unfold storeDataOn storeData
  split
  · rfl
  cases idx with
  | none => rfl
  | some i =>
      have hsave := saveOn_run { m with files := (m.view.store i data size).files }
      have hview := view_diskfsSave { m with files := (m.view.store i data size).files }
      simp only [Agrees, Asks.run_map, hsave]
      exact congrArg (fun v => (Except.ok (Answer.mk 0 _ v), _)) hview.symm

/-- `diskfs_cd` does not look at the drive. -/
theorem diskfsCd_agrees (m : Machine) (path : CStr) :
    Agrees (((Call.cd path).on m.ata.present m.view).run ataDevice m.ata)
      ((Call.cd path).exec m) := by
  show Agrees ((diskfsCd ⟨m.files, m.currentDir, bareMachine.ata⟩ path).map Reply.answer, m.ata)
    (diskfsCd m path)
  rw [diskfsCd, diskfsCd]
  by_cases hroot : path.byte 0 = 47 ∧ path.byte 1 = 0
  · rw [if_pos hroot, if_pos hroot]
    rfl
  rw [if_neg hroot, if_neg hroot]
  by_cases hup : path.byte 0 = 46 ∧ path.byte 1 = 46 ∧ path.byte 2 = 0
  · rw [if_pos hup, if_pos hup]
    by_cases htop : m.currentDir = 0
    · rw [if_pos htop, if_pos htop]
      rfl
    rw [if_neg htop, if_neg htop]
    dsimp only
    cases slotAt m.currentDir with
    | none => rfl
    | some here =>
        dsimp only
        split
        · rfl
        · rfl
  rw [if_neg hup, if_neg hup]
  dsimp only
  cases findFile m.files path m.currentDir with
  | none => rfl
  | some idx =>
      dsimp only
      split
      · rfl
      · rfl

theorem callOn_run (m : Machine) (c : Call) :
    Agrees ((c.on m.ata.present m.view).run ataDevice m.ata) (c.exec m) := by
  cases c with
  | create name =>
      rw [Call.on, Call.exec, Asks.run_map, makeEntryOn_run]
      rfl
  | mkdir name =>
      rw [Call.on, Call.exec, Asks.run_map, makeEntryOn_run]
      rfl
  | write name data size =>
      rw [Call.on, Call.exec, writeOn, diskfsWrite, Machine.view_files, Machine.view_dir]
      cases findFile m.files name m.currentDir with
      | some idx => exact storeDataOn_run m (some idx) [] data size
      | none =>
          dsimp only
          rw [Asks.run_bind, makeEntryOn_run, ← present_makeEntry fileKind m name]
          split
          next hfailed =>
            rw [if_pos (show (diskfsCreate m name).ret ≠ 0 from hfailed)]
            rfl
          next hcreated =>
            rw [if_neg (show ¬ (diskfsCreate m name).ret ≠ 0 from hcreated)]
            exact storeDataOn_run (diskfsCreate m name).machine _ _ data size
  | delete name =>
      rw [Call.on, Call.exec, deleteOn, diskfsDelete, Machine.view_files, Machine.view_dir]
      cases findFile m.files name m.currentDir with
      | none => rfl
      | some idx =>
          have hsave := saveOn_run { m with files := (m.view.remove idx).files }
          have hview := view_diskfsSave { m with files := (m.view.remove idx).files }
          simp only [Agrees, Asks.run_map, hsave]
          exact congrArg (fun v => (Except.ok (Answer.mk 0 _ v), _)) hview.symm
  | cd path => exact diskfsCd_agrees m path

theorem callsOn_run (calls : List Call) : ∀ m : Machine,
    ((callsOn m.ata.present m.view calls).run ataDevice m.ata).1 =
        (replies m calls, (run step m calls).map Machine.view) ∧
      ∀ m', run step m calls = .ok m' →
        ((callsOn m.ata.present m.view calls).run ataDevice m.ata).2 = m'.ata := by
  induction calls with
  | nil => exact fun m => ⟨rfl, fun m' h => congrArg Machine.ata (Except.ok.inj h)⟩
  | cons c rest ih =>
      intro m
      have hcall := callOn_run m c
      have hflag := present_run (c.on m.ata.present m.view) m.ata
      rw [callsOn, Asks.run_bind, replies, run, step]
      cases hexec : c.exec m with
      | error e =>
          rw [hexec] at hcall
          rw [show ((c.on m.ata.present m.view).run ataDevice m.ata).1 = .error e from hcall]
          exact ⟨rfl, fun m' h => by cases h⟩
      | ok r =>
          rw [hexec] at hcall
          have hok : (c.on m.ata.present m.view).run ataDevice m.ata =
              (.ok r.answer, r.machine.ata) := hcall
          rw [hok] at hflag ⊢
          obtain ⟨hreplies, hlast⟩ := ih r.machine
          rw [show r.machine.ata.present = m.ata.present from hflag] at hreplies hlast
          dsimp only
          rw [Asks.run_map]
          refine ⟨?_, hlast⟩
          rw [show (callsOn m.ata.present r.answer.view rest).run ataDevice r.machine.ata =
            (callsOn m.ata.present r.machine.view rest).run ataDevice r.machine.ata from rfl,
            hreplies]
          rfl

/-- A session as a program, on the abstract driver. -/
theorem sessionOn_run (m : Machine) (calls : List Call) :
    ((sessionOn m.ata.present m.view calls).run ataDevice m.ata).1 = sessionExec m calls ∧
      ∀ m', run step (diskfsInit m).machine calls = .ok m' →
        ((sessionOn m.ata.present m.view calls).run ataDevice m.ata).2 = m'.ata := by
  have hflag := present_run (initOn m.ata.present m.view) m.ata
  rw [initOn_run] at hflag
  obtain ⟨hreplies, hlast⟩ := callsOn_run calls (diskfsInit m).machine
  rw [show (diskfsInit m).machine.ata.present = m.ata.present from hflag] at hreplies hlast
  rw [sessionOn, Asks.run_bind, initOn_run, Asks.run_map]
  refine ⟨?_, hlast⟩
  rw [hreplies]
  rfl

end Abstract

/-! ## At the ports -/

/-- The abstract drive follows a drive that was detected. -/
theorem mirrors_present : Mirrors (fun (t : Transfer) d => (t.ports Drive.bus true).run d)
    ataDevice (fun d a (bs : List Bool) => Refines true d a ∧ GivesUp a bs) Drive.Ready
    (· = false) where
  calm := by
    intro t d hready k
    obtain ⟨_, _, hstatus, _⟩ := transfer_refines d t
    exact hstatus ▸ hready k
  answer := by
    intro t d
    obtain ⟨b, hb, _, hstep⟩ := transfer_refines d t
    exact ⟨b, hb, fun a bs h => hstep a bs h.1 h.2⟩

/-- Without a drive both levels do nothing. -/
theorem mirrors_absent : Mirrors (fun (t : Transfer) d => (t.ports Drive.bus false).run d)
    ataDevice (fun d a (_ : List Unit) => Refines false d a) (fun _ => False) (fun _ => True) where
  calm := fun _ _ h => h
  answer := by
    intro t d
    refine ⟨(), fun _ => trivial, fun a _ h => ?_⟩
    have hexec : t.exec a = (((t.ports Drive.bus false).run d).1, a) := by
      cases t <;> simp only [Transfer.exec, ataReadSector, ataWriteSector, h.present] <;> rfl
    have hsame : ((t.ports Drive.bus false).run d).2 = d := by
      cases t <;> rfl
    rw [ataDevice, hexec]
    exact ⟨rfl, hsame.symm ▸ h⟩

theorem run_sessionPorts (drive : Drive) (v : View) (calls : List Call) :
    (sessionPorts Drive.bus v calls).run drive =
      (sessionOn ((ataInit Drive.bus).run drive).1 v calls).run
        (fun t d => (t.ports Drive.bus ((ataInit Drive.bus).run drive).1).run d)
        ((ataInit Drive.bus).run drive).2 := rfl

/-- A session on the ports of a drive that was detected. -/
theorem session_present (d : Drive) (v : View) (calls : List Call) :
    ∃ a : Ata, a.sectors = d.sectors ∧ (d.Ready → a.Working) ∧
      ((sessionOn true v calls).run (fun t d => (t.ports Drive.bus true).run d) d).1 =
        sessionExec ⟨v.files, v.dir, a⟩ calls ∧
      ∀ m', run step (diskfsInit ⟨v.files, v.dir, a⟩).machine calls = .ok m' →
        ((sessionOn true v calls).run (fun t d => (t.ports Drive.bus true).run d) d).2.sectors =
          m'.ata.sectors := by
  obtain ⟨givenUp, hgivenUp, hrun⟩ := mirrors_present.run (sessionOn true v calls) d
  let a := abstractDrive true d.sectors givenUp
  have hgives : GivesUp a (givenUp ++ []) := by
    rw [List.append_nil]
    exact ⟨fun k => congrArg (givenUp.getD · false) (Nat.zero_add k), fun _ => rfl⟩
  obtain ⟨hsame, hlast⟩ := hrun a [] ⟨⟨rfl, rfl⟩, hgives⟩
  obtain ⟨hrecord, hdrive⟩ := sessionOn_run ⟨v.files, v.dir, a⟩ calls
  refine ⟨a, rfl, fun h => working_abstractDrive (hgivenUp h), hsame.trans hrecord,
    fun m' hm' => ?_⟩
  rw [← hdrive m' hm']
  exact hlast.1.sectors.symm

/-- The file system at the ports refines the file system over the abstract driver: whatever the
status register of the drive answers, a session prints and returns the same and ends in the
same state as a session on an abstract drive with the same medium, which fails no transfer if
the real one is ready at every reading; and then the two media are the same again. -/
theorem filesystem_refines (drive : Drive) (v : View) (calls : List Call) :
    ∃ a : Ata, a.sectors = drive.sectors ∧ (drive.Ready → a.Working) ∧
      ((sessionPorts Drive.bus v calls).run drive).1 = sessionExec ⟨v.files, v.dir, a⟩ calls ∧
      ∀ m', run step (diskfsInit ⟨v.files, v.dir, a⟩).machine calls = .ok m' →
        ((sessionPorts Drive.bus v calls).run drive).2.sectors = m'.ata.sectors := by
  obtain ⟨⟨hsectors, hstatus⟩, hpresent⟩ := Drive.ensures_ataInit drive drive ⟨rfl, rfl⟩
  rw [run_sessionPorts]
  cases hfound : ((ataInit Drive.bus).run drive).1 with
  | false =>
      have hready : ¬ drive.Ready := fun h => absurd (hfound.symm.trans (hpresent h)) (by decide)
      let a := abstractDrive false drive.sectors []
      obtain ⟨_, _, hrun⟩ := mirrors_absent.run (sessionOn false v calls)
        ((ataInit Drive.bus).run drive).2
      obtain ⟨hsame, hlast⟩ := hrun a [] ⟨rfl, hsectors.symm⟩
      obtain ⟨hrecord, hdrive⟩ := sessionOn_run ⟨v.files, v.dir, a⟩ calls
      refine ⟨a, rfl, fun h => absurd h hready, hsame.trans hrecord, fun m' hm' => ?_⟩
      rw [← hdrive m' hm']
      exact hlast.sectors.symm
  | true =>
      obtain ⟨a, ha, hworking, hsession⟩ :=
        session_present ((ataInit Drive.bus).run drive).2 v calls
      exact ⟨a, ha.trans hsectors, fun h => hworking fun k => hstatus ▸ h k, hsession⟩

/-! ## Another boot -/

/-- A drive that is ready at every reading is detected. -/
theorem run_sessionPorts_ready {drive : Drive} (hready : drive.Ready) (v : View)
    (calls : List Call) :
    ∃ d : Drive, d.sectors = drive.sectors ∧ d.Ready ∧
      (sessionPorts Drive.bus v calls).run drive =
        (sessionOn true v calls).run (fun t d => (t.ports Drive.bus true).run d) d := by
  obtain ⟨⟨hsectors, hstatus⟩, hpresent⟩ := Drive.ensures_ataInit drive drive ⟨rfl, rfl⟩
  refine ⟨((ataInit Drive.bus).run drive).2, hsectors, fun k => hstatus ▸ hready k, ?_⟩
  rw [run_sessionPorts, hpresent hready]

/-- On a working drive a run of calls leaves the table on the drive. -/
theorem image_run {calls : List Call} : ∀ {m m' : Machine}, m.ata.Working → Image m.ata m.files →
    run step m calls = .ok m' → Image m'.ata m'.files := by
  induction calls with
  | nil =>
      intro m m' _ himage hrun
      obtain rfl := Except.ok.inj hrun
      exact himage
  | cons c rest ih =>
      intro m m' hd himage hrun
      obtain ⟨next, hstep, hrest⟩ := run_cons_ok hrun
      obtain ⟨hnext, hkeep⟩ := (step_edits hstep).keep hd
      exact ih hnext (hkeep himage) hrest

/-- A start on a working drive that holds a table. -/
theorem view_diskfsInit {b : Machine} {files : Files} (hd : b.ata.Working)
    (himage : Image b.ata files) : (diskfsInit b).machine.view = ⟨files, b.currentDir⟩ := by
  obtain ⟨hload, hfiles⟩ := diskfsLoad_of_working hd himage
  simp only [diskfsInit, ataDrivePresent, hd.present, if_true, hload]
  rw [Machine.view, hfiles, diskfsLoad_dir]

/-- The files of the machine survive a reboot: on a drive that is ready at every reading, after
any session that went through, a start with any contents of memory finds the table that the
session ended with, byte for byte. -/
theorem reboot_restores {drive : Drive} (hready : drive.Ready) {v last : View} {calls : List Call}
    (hlast : ((sessionPorts Drive.bus v calls).run drive).1.last = .ok last) (memory : View) :
    ((sessionPorts Drive.bus memory []).run
        ((sessionPorts Drive.bus v calls).run drive).2).1.last =
      .ok ⟨last.files, memory.dir⟩ := by
  obtain ⟨d, _, hd, hfirst⟩ := run_sessionPorts_ready hready v calls
  obtain ⟨a, _, hworking, hrecord, hmedium⟩ := session_present d v calls
  rw [hfirst] at hlast ⊢
  rw [hrecord, sessionExec] at hlast
  have hstays := Asks.run_keeps mirrors_present.calm (sessionOn true v calls) hd
  obtain ⟨d', hsectors, hd', hsecond⟩ := run_sessionPorts_ready hstays memory []
  obtain ⟨a', ha', hworking', hrecord', _⟩ := session_present d' memory []
  cases hrun : run step (diskfsInit ⟨v.files, v.dir, a⟩).machine calls with
  | error e =>
      rw [hrun] at hlast
      exact nomatch hlast
  | ok m =>
      rw [hrun] at hlast
      obtain rfl : m.view = last := Except.ok.inj hlast
      obtain ⟨hstart, himage⟩ := diskfsInit_image
        (show (Machine.mk v.files v.dir a).ata.Working from hworking hd)
      have hboot : (Machine.mk memory.files memory.dir a').ata.Working := hworking' hd'
      have hstored : Image (Machine.mk memory.files memory.dir a').ata m.files :=
        (image_run hstart himage hrun).of_sectors (ha'.trans (hsectors.trans (hmedium m hrun)))
      rw [hsecond, hrecord', sessionExec]
      exact congrArg Except.ok (view_diskfsInit hboot hstored)

/-- A drive that is always ready. -/
def readyDrive : Drive where
  sectors := fun _ _ => 0
  identity := fun _ => 0
  status := fun _ => 0x48
  statusReads := 0
  count := 0
  lbaLow := 0
  lbaMid := 0
  lbaHigh := 0
  device := 0
  phase := .idle

theorem ready_readyDrive : readyDrive.Ready := fun _ =>
  (by decide : (0x48 : UInt8) &&& 0x89 = 0x08)

/-- A file is made, and the machine is started again. -/
theorem reboot_restores_create :
    ∃ last, ((sessionPorts Drive.bus ⟨zeroFiles, 0⟩ [.create ⟨text "a", by decide⟩]).run
        readyDrive).1.last = .ok last ∧
      ((sessionPorts Drive.bus ⟨zeroFiles, 0⟩ []).run
        ((sessionPorts Drive.bus ⟨zeroFiles, 0⟩ [.create ⟨text "a", by decide⟩]).run
          readyDrive).2).1.last = .ok ⟨last.files, 0⟩ := by
  obtain ⟨d, _, _, hfirst⟩ := run_sessionPorts_ready ready_readyDrive ⟨zeroFiles, 0⟩
    [.create ⟨text "a", by decide⟩]
  obtain ⟨a, _, _, hrecord, _⟩ := session_present d ⟨zeroFiles, 0⟩ [.create ⟨text "a", by decide⟩]
  have hlast := congrArg Record.last (congrArg Prod.fst hfirst)
  rw [hrecord] at hlast
  exact ⟨_, hlast, reboot_restores ready_readyDrive hlast ⟨zeroFiles, 0⟩⟩

end FalastinOS.DiskFs
