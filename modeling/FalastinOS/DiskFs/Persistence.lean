/-
  DiskFs/Persistence.lean --- the table in memory and the table on the drive.

  Every operation that changes the table ends in `diskfs_save`, and the others
  change the current directory only, which is not saved.  `Edit` has one case
  for each of the two; a completed call is a chain of edits.  On a working drive
  an edit keeps memory and drive in step, so a run of calls does too.

  `save_load_roundTrip` is the round trip of `diskfs_save` and `diskfs_load`
  themselves, for any table.
-/
import FalastinOS.DiskFs.Names
import Mathlib.Logic.Relation

set_option autoImplicit false

namespace FalastinOS.DiskFs

open FalastinOS.Foundation FalastinOS.Drivers Relation

/-- Memory and drive are in step: the sectors of the file system hold a valid
superblock and the bytes of the table, and `diskfs_init` on a working drive with
these sectors brings the table back. -/
structure InStep (m : Machine) : Prop where
  image : Image m.ata m.files
  reload : ∀ b : Machine, b.ata.Working → b.ata.sectors = m.ata.sectors →
    (diskfsInit b).machine.files = m.files

theorem Image.of_sectors {d d' : Ata} {files : Files} (h : Image d files)
    (hsectors : d'.sectors = d.sectors) : Image d' files :=
  ⟨by rw [hsectors]; exact h.superblock, by rw [hsectors]; exact h.data⟩

/-- A load from a working drive that holds the image of a table. -/
theorem diskfsLoad_of_working {b : Machine} {files : Files} (hb : b.ata.Working)
    (himage : Image b.ata files) : (diskfsLoad b).1 = true ∧ (diskfsLoad b).2.files = files := by
  have hload : (diskfsLoad b).1 = true := (diskfsLoad_working hb).1.trans himage.superblock
  exact ⟨hload, diskfsLoad_of_image himage hload⟩

/-- The image decides: the reload follows from it. -/
theorem inStep_iff_image {m : Machine} : InStep m ↔ Image m.ata m.files := by
  refine ⟨InStep.image, fun himage => ⟨himage, fun b hb hsectors => ?_⟩⟩
  obtain ⟨hload, hfiles⟩ := diskfsLoad_of_working hb (himage.of_sectors hsectors)
  simp only [diskfsInit, ataDrivePresent, hb.present, if_true, hload]
  exact hfiles

/-! ## Saving and loading -/

/-- A save writes no sector outside those of the file system. -/
theorem diskfsSave_outside {m : Machine} (hd : m.ata.Working) {lba : Nat}
    (h : lba < fsStartLba ∨ fsStartLba + totalSectors < lba) :
    (diskfsSave m).machine.ata.sectors lba = m.ata.sectors lba := by
  rw [diskfsSave_present hd.present, hd.streak]
  exact replaceSectors_outside _ _ (by omega)

/-- On a working drive, whatever it held before, a load after a save returns 1
and brings the saved table back byte for byte, whatever was in memory; and the
save touched no sector outside 200..1230. -/
theorem save_load_roundTrip {m : Machine} (hd : m.ata.Working) (files : Files) (dir : Int32) :
    (diskfsLoad ⟨files, dir, (diskfsSave m).machine.ata⟩).1 = true ∧
      (diskfsLoad ⟨files, dir, (diskfsSave m).machine.ata⟩).2.files = m.files ∧
      (∀ idx, rawOf (diskfsLoad ⟨files, dir, (diskfsSave m).machine.ata⟩).2.files idx =
        rawOf m.files idx) ∧
      ∀ lba, lba < 200 ∨ 1230 < lba →
        (diskfsSave m).machine.ata.sectors lba = m.ata.sectors lba := by
  have houtside : ∀ lba, lba < 200 ∨ 1230 < lba →
      (diskfsSave m).machine.ata.sectors lba = m.ata.sectors lba :=
    fun lba hlba => diskfsSave_outside hd hlba
  have hworking := diskfsSave_stays_working hd
  have himage := diskfsSave_image hd
  generalize (diskfsSave m).machine.ata = d at hworking himage houtside ⊢
  obtain ⟨hload, hfiles⟩ := diskfsLoad_of_working (b := ⟨files, dir, d⟩) hworking himage
  exact ⟨hload, hfiles, fun idx => by rw [hfiles], houtside⟩

/-- A machine with one file on a working drive that was blank before. -/
def oneFileMachine : Machine :=
  { (diskfsCreate (diskfsInit bareMachine).machine nameA).machine with ata := blankDrive }

theorem save_load_roundTrip_oneFile :
    (diskfsLoad ⟨zeroFiles, 0, (diskfsSave oneFileMachine).machine.ata⟩).1 = true ∧
      (diskfsLoad ⟨zeroFiles, 0, (diskfsSave oneFileMachine).machine.ata⟩).2.files =
        oneFileMachine.files :=
  have h := save_load_roundTrip (m := oneFileMachine) working_blankDrive zeroFiles 0
  ⟨h.1, h.2.1⟩

/-! ## Edits -/

/-- The two ways an operation changes the machine. -/
inductive Edit (m : Machine) : Machine → Prop where
  /-- another current directory -/
  | move (dir : Int32) : Edit m { m with currentDir := dir }
  /-- another table, saved -/
  | save (files : Files) : Edit m (diskfsSave { m with files := files }).machine

/-- A chain of edits. -/
abbrev Edits : Machine → Machine → Prop := ReflTransGen Edit

theorem Edit.working {m m' : Machine} (h : Edit m m') (hd : m.ata.Working) : m'.ata.Working := by
  cases h with
  | move dir => exact hd
  | save files => exact diskfsSave_stays_working hd

theorem Edit.image {m m' : Machine} (h : Edit m m') (hd : m.ata.Working)
    (himage : Image m.ata m.files) : Image m'.ata m'.files := by
  cases h with
  | move dir => exact himage
  | save files =>
      rw [diskfsSave_files]
      exact diskfsSave_image (m := { m with files := files }) hd

/-- Edits on a working drive leave it working, and keep memory and drive in
step. -/
theorem Edits.keep {m m' : Machine} (h : Edits m m') (hd : m.ata.Working) :
    m'.ata.Working ∧ (Image m.ata m.files → Image m'.ata m'.files) := by
  induction h with
  | refl => exact ⟨hd, id⟩
  | tail _ hedit ih => exact ⟨hedit.working ih.1, fun himage => hedit.image ih.1 (ih.2 himage)⟩

/-! ## The operations

A call changes one slot at most, so its edits are of one slot. -/

/-- An edit that leaves every slot but `k` alone. -/
inductive EditAt (k : Slot) (m : Machine) : Machine → Prop where
  | move (dir : Int32) : EditAt k m { m with currentDir := dir }
  | save (f : File) :
      EditAt k m (diskfsSave { m with files := Function.update m.files k f }).machine

/-- A chain of edits of slot `k`. -/
abbrev EditsAt (k : Slot) : Machine → Machine → Prop := ReflTransGen (EditAt k)

theorem EditAt.edit {k : Slot} {m m' : Machine} (h : EditAt k m m') : Edit m m' := by
  cases h with
  | move dir => exact .move dir
  | save f => exact .save _

/-- `diskfs_create` and `diskfs_mkdir` refuse or edit the free slot. -/
theorem makeEntry_editsAt (kind : EntryKind) (m : Machine) (name : CStr) :
    ((makeEntry kind m name).ret = -1 ∧ (makeEntry kind m name).machine = m) ∨
      ∃ slot, m.view.Opens name slot ∧ EditAt slot m (makeEntry kind m name).machine := by
  unfold makeEntry
  split
  · exact Or.inl ⟨rfl, rfl⟩
  · rename_i hfind
    split
    · exact Or.inl ⟨rfl, rfl⟩
    · rename_i slot hfree
      exact Or.inr ⟨slot, ⟨hfind, hfree⟩, .save _⟩

theorem storeData_editsAt {m : Machine} {idx : Option Slot} {out : List UInt8}
    {data : Nat → UInt8} {size : Int32} {r : Reply} (h : storeData m idx out data size = .ok r) :
    r.machine = m ∨ ∃ i, idx = some i ∧ EditAt i m r.machine := by
  unfold storeData at h
  split at h
  · obtain rfl := Except.ok.inj h
    exact Or.inl rfl
  · cases idx with
    | none => exact absurd h (by simp)
    | some i =>
        obtain rfl := Except.ok.inj h
        exact Or.inr ⟨i, rfl, .save _⟩

/-- After a `diskfs_create` that edited `slot`, the name leads to `slot` if it
leads anywhere. -/
theorem lookup_after_create {m : Machine} {name : CStr} {slot i : Slot}
    (hopen : m.view.Opens name slot)
    (hi : findFile (diskfsCreate m name).machine.files name
      (diskfsCreate m name).machine.currentDir = some i) : i = slot := by
  rcases makeEntry_cases fileKind m name with ⟨_, _, hclosed⟩ | ⟨slot', hopen', _, hview⟩
  · exact absurd hopen (hclosed slot)
  · have hsame : slot' = slot := Option.some.inj (hopen'.2.symm.trans hopen.2)
    have hlookup : (m.view.insert 0 name slot').lookup name = some i := by
      rw [← show (diskfsCreate m name).machine.view = m.view.insert 0 name slot' from hview]
      exact hi
    rw [← hsame]
    exact ((answers_insert 0 hopen' i).mp (findFile_some hlookup)).1

theorem diskfsWrite_editsAt {m : Machine} {name : CStr} {data : Nat → UInt8} {size : Int32}
    {r : Reply} (h : diskfsWrite m name data size = .ok r) : ∃ k, EditsAt k m r.machine := by
  unfold diskfsWrite at h
  split at h
  · rename_i idx _
    rcases storeData_editsAt h with hsame | ⟨i, _, hedit⟩
    · exact ⟨idx, hsame ▸ .refl⟩
    · exact ⟨i, .single hedit⟩
  · dsimp only at h
    rcases makeEntry_editsAt fileKind m name with ⟨hfail, hsame⟩ | ⟨slot, hopen, hcreate⟩
    · rw [if_pos (by rw [diskfsCreate, hfail]; decide)] at h
      obtain rfl := Except.ok.inj h
      refine ⟨rootSlot, ?_⟩
      rw [diskfsCreate, hsame]
    · refine ⟨slot, ?_⟩
      split at h
      · obtain rfl := Except.ok.inj h
        exact .single hcreate
      · rcases storeData_editsAt h with hsame | ⟨i, hi, hedit⟩
        · rw [hsame]
          exact .single hcreate
        · rw [lookup_after_create hopen hi] at hedit
          exact .tail (.single hcreate) hedit

theorem diskfsDelete_editsAt (m : Machine) (name : CStr) :
    ∃ k, EditsAt k m (diskfsDelete m name).machine := by
  unfold diskfsDelete
  split
  · exact ⟨rootSlot, .refl⟩
  · rename_i idx _
    exact ⟨idx, .single (.save _)⟩

/-- `diskfs_cd` moves or stays. -/
theorem diskfsCd_editsAt {m : Machine} {path : CStr} {r : Reply} (h : diskfsCd m path = .ok r)
    (k : Slot) : EditsAt k m r.machine := by
  have hstay : ∀ {ret : Int32} {out : List UInt8},
      Except.ok (ε := Fault) ⟨ret, out, m⟩ = .ok r → EditsAt k m r.machine := by
    intro ret out h
    obtain rfl := Except.ok.inj h
    exact .refl
  have hmove : ∀ {dir : Int32},
      Except.ok (ε := Fault) ⟨0, [], { m with currentDir := dir }⟩ = .ok r →
        EditsAt k m r.machine := by
    intro dir h
    obtain rfl := Except.ok.inj h
    exact .single (.move dir)
  unfold diskfsCd at h
  dsimp only at h
  repeat' split at h
  all_goals first
    | exact hmove h
    | exact hstay h
    | exact absurd h (by simp)

/-- A completed call is a chain of edits of one slot. -/
theorem exec_editsAt {m : Machine} {c : Call} {r : Reply} (h : c.exec m = .ok r) :
    ∃ k, EditsAt k m r.machine := by
  have hmake : ∀ kind name, ∃ k, EditsAt k m (makeEntry kind m name).machine := by
    intro kind name
    rcases makeEntry_editsAt kind m name with ⟨_, hsame⟩ | ⟨slot, _, hedit⟩
    · refine ⟨rootSlot, ?_⟩
      rw [hsame]
    · exact ⟨slot, .single hedit⟩
  cases c with
  | create name =>
      obtain rfl := Except.ok.inj h
      exact hmake fileKind name
  | mkdir name =>
      obtain rfl := Except.ok.inj h
      exact hmake dirKind name
  | write name data size => exact diskfsWrite_editsAt h
  | delete name =>
      obtain rfl := Except.ok.inj h
      exact diskfsDelete_editsAt m name
  | cd path => exact ⟨rootSlot, diskfsCd_editsAt h rootSlot⟩

theorem step_edits {m m' : Machine} {c : Call} (h : step m c = .ok m') : Edits m m' := by
  obtain ⟨r, hr, rfl⟩ := step_ok h
  obtain ⟨k, hedits⟩ := exec_editsAt hr
  exact ReflTransGen.mono (fun _ _ => EditAt.edit) _ _ hedits

/-! ## `diskfs_init` -/

/-- `diskfs_init` on a working drive starts in step: it keeps what it loaded, or
saves the table it made. -/
theorem diskfsInit_image {b : Machine} (hd : b.ata.Working) :
    (diskfsInit b).machine.ata.Working ∧
      Image (diskfsInit b).machine.ata (diskfsInit b).machine.files := by
  have hloaded := (diskfsLoad_working hd).2
  simp only [diskfsInit, ataDrivePresent, hd.present, if_true]
  cases hload : (diskfsLoad b).1 with
  | true =>
      simp only [if_true]
      exact ⟨hloaded, diskfsLoad_image hload⟩
  | false =>
      simp only [Bool.false_eq_true, if_false, hloaded.present, if_true, diskfsSave_files]
      let fresh : Machine :=
        { (diskfsLoad b).2 with files := freshFiles (diskfsLoad b).2.files, currentDir := 0 }
      have hfresh : fresh.ata.Working := hloaded
      exact ⟨diskfsSave_stays_working hfresh, diskfsSave_image hfresh⟩

end FalastinOS.DiskFs
