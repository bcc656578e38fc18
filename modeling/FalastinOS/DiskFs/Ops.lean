/-
  DiskFs/Ops.lean --- the operations of `diskfs.c`.

  Each operation returns what the C function returns, what it printed, and the
  state it left.  `diskfs_write` and `diskfs_cd` index `files` with a value that
  nothing in the function bounds (the result of the second `find_file`, the
  current directory), so they can also fault: an access outside the array has
  no defined outcome and no state after it.

  `diskfs_create` and `diskfs_mkdir` differ in the kind of entry they make and
  in their messages; both are `makeEntry`.  `makeEntry_cases` and the other
  `_cases` theorems say once what an operation can do, and everything proved
  about runs is derived from them.
-/
import FalastinOS.DiskFs.Image

set_option autoImplicit false

namespace FalastinOS.DiskFs

open FalastinOS.Foundation FalastinOS.Drivers

/-- Why an operation has no defined outcome. -/
inductive Fault where
  /-- an access to `files[i]` with `i` outside 0..63 -/
  | filesIndex (i : Int)
  /-- an access outside the array a record or a caller provides -/
  | dataIndex (i : Int)
  deriving DecidableEq, Repr

/-! ## Creating entries -/

/-- The record `diskfs_create` and `diskfs_mkdir` leave in a free slot. -/
def newFile (isDir : Int32) (name : CStr) (parent : Int32) (old : File) : File :=
  { old with
    name := storeName name old.name, used := 1, isDir := isDir, parent := parent, size := 0 }

/-- In what `diskfs_create` and `diskfs_mkdir` differ. -/
structure EntryKind where
  isDir : Int32
  existsMsg : String
  noSlotMsg : String
  doneMsg : String

/-- The common body of `diskfs_create` and `diskfs_mkdir`. -/
def makeEntry (kind : EntryKind) (m : Machine) (name : CStr) : Reply :=
  match findFile m.files name m.currentDir with
  | some _ => ⟨-1, text kind.existsMsg, m⟩
  | none =>
      match findFree m.files with
      | none => ⟨-1, text kind.noSlotMsg, m⟩
      | some slot =>
          let saved := diskfsSave { m with
            files := Function.update m.files slot
              (newFile kind.isDir name m.currentDir (m.files slot)) }
          ⟨0, text kind.doneMsg ++ name.bytes ++ text "\n" ++ saved.out, saved.machine⟩

/-- A regular file. -/
def fileKind : EntryKind := ⟨0, "File already exists\n", "No free slots\n", "Created: "⟩

/-- A directory; a full table is reported by the result only. -/
def dirKind : EntryKind := ⟨1, "Directory already exists\n", "", "Directory created: "⟩

/-- `diskfs_create(name)`. -/
def diskfsCreate : Machine → CStr → Reply := makeEntry fileKind

/-- `diskfs_mkdir(name)`. -/
def diskfsMkdir : Machine → CStr → Reply := makeEntry dirKind

/-! ## Writing and reading -/

/-- `print_int` of `diskfs.c`: the decimal digits, nothing for a negative number. -/
def printInt (num : Int32) : List UInt8 :=
  if num.toInt < 0 then [] else text (toString num.toInt.toNat)

/-- `for (i = 0; i < size; i++) dst[i] = data[i]` from index `i` on, `n`
iterations left. -/
def writeDataLoop (data : Nat → UInt8) :
    Nat → Nat → CharArray maxFileSize → CharArray maxFileSize
  | 0, _, dst => dst
  | n + 1, i, dst => writeDataLoop data n (i + 1) (dst.set i (data i))

/-- The part of `diskfs_write` after the lookup: `idx` is the slot found, `none`
for -1. -/
def storeData (m : Machine) (idx : Option Slot) (out : List UInt8) (data : Nat → UInt8)
    (size : Int32) : Except Fault Reply :=
  if 8192 < size then .ok ⟨-1, out ++ text "File too large\n", m⟩
  else
    match idx with
    | none => .error (.filesIndex (-1))
    | some i =>
        let f := m.files i
        let saved := diskfsSave { m with
          files := Function.update m.files i
            { f with data := writeDataLoop data size.toInt.toNat 0 f.data, size := size } }
        .ok ⟨0, out ++ text "Written " ++ printInt size ++ text " bytes\n" ++ saved.out,
          saved.machine⟩

/-- `diskfs_write(name, data, size)`; `data` is the memory the pointer leads to. -/
def diskfsWrite (m : Machine) (name : CStr) (data : Nat → UInt8) (size : Int32) :
    Except Fault Reply :=
  match findFile m.files name m.currentDir with
  | some idx => storeData m (some idx) [] data size
  | none =>
      let created := diskfsCreate m name
      if created.ret ≠ 0 then .ok ⟨-1, created.out, created.machine⟩
      else
        storeData created.machine
          (findFile created.machine.files name created.machine.currentDir) created.out data size

/-- What `diskfs_read` returns, prints and stores into the caller's buffer. -/
structure ReadResult where
  ret : Int32
  out : List UInt8
  buffer : List UInt8

/-- `diskfs_read(name, buffer, size)`. -/
def diskfsRead (m : Machine) (name : CStr) (size : Int32) : Except Fault ReadResult :=
  match findFile m.files name m.currentDir with
  | none => .ok ⟨-1, text "File not found\n", []⟩
  | some idx =>
      let f := m.files idx
      let readSize := if size < f.size then size else f.size
      if 8192 < readSize then .error (.dataIndex 8192)
      else
        .ok ⟨readSize, [], (List.range readSize.toInt.toNat).map fun i =>
          if h : i < maxFileSize then f.data ⟨i, h⟩ else 0⟩

/-- `diskfs_exists(name)`. -/
def diskfsExists (m : Machine) (name : CStr) : Bool :=
  (findFile m.files name m.currentDir).isSome

/-! ## Deleting and changing directory -/

/-- `diskfs_delete(name)`. -/
def diskfsDelete (m : Machine) (name : CStr) : Reply :=
  match findFile m.files name m.currentDir with
  | none => ⟨-1, text "File not found\n", m⟩
  | some idx =>
      let saved := diskfsSave { m with
        files := Function.update m.files idx { m.files idx with used := 0 } }
      ⟨0, text "Deleted: " ++ name.bytes ++ text "\n" ++ saved.out, saved.machine⟩

/-- `diskfs_cd(path)`. -/
def diskfsCd (m : Machine) (path : CStr) : Except Fault Reply :=
  if path.byte 0 = 47 ∧ path.byte 1 = 0 then .ok ⟨0, [], { m with currentDir := 0 }⟩
  else if path.byte 0 = 46 ∧ path.byte 1 = 46 ∧ path.byte 2 = 0 then
    if m.currentDir = 0 then .ok ⟨0, [], m⟩
    else
      match slotAt m.currentDir with
      | none => .error (.filesIndex m.currentDir.toInt)
      | some here =>
          let parent := (m.files here).parent
          if 0 ≤ parent then .ok ⟨0, [], { m with currentDir := parent }⟩
          else .ok ⟨-1, [], m⟩
  else
    match findFile m.files path m.currentDir with
    | some idx =>
        if (m.files idx).isDir ≠ 0 then .ok ⟨0, [], { m with currentDir := slotInt idx }⟩
        else .ok ⟨-1, text "Directory not found\n", m⟩
    | none => .ok ⟨-1, text "Directory not found\n", m⟩

/-! ## Calls and runs -/

/-- A call of one of the operations that change the file system. -/
inductive Call where
  | create (name : CStr)
  | mkdir (name : CStr)
  | write (name : CStr) (data : Nat → UInt8) (size : Int32)
  | delete (name : CStr)
  | cd (path : CStr)

/-- What a call does. -/
def Call.exec (m : Machine) : Call → Except Fault Reply
  | .create name => .ok (diskfsCreate m name)
  | .mkdir name => .ok (diskfsMkdir m name)
  | .write name data size => diskfsWrite m name data size
  | .delete name => .ok (diskfsDelete m name)
  | .cd path => diskfsCd m path

/-- The state after a call. -/
def step (m : Machine) (c : Call) : Except Fault Machine :=
  match c.exec m with
  | .error e => .error e
  | .ok r => .ok r.machine

theorem step_ok {m m' : Machine} {c : Call} (h : step m c = .ok m') :
    ∃ r, c.exec m = .ok r ∧ r.machine = m' := by
  unfold step at h
  split at h
  · exact absurd h (by simp)
  · rename_i r hr
    exact ⟨r, hr, Except.ok.inj h⟩

/-- The condition on which `diskfs_init` keeps what it loaded. -/
def loads (m : Machine) : Bool := ataDrivePresent m.ata && (diskfsLoad m).1

/-- A machine on which `diskfs_init` has just made a fresh file system: there
was no drive, no superblock of ours on it, or a sector could not be read. -/
def Fresh (m : Machine) : Prop := ∃ b, loads b = false ∧ m = (diskfsInit b).machine

/-- Static storage before any code ran. -/
def zeroFiles : Files := fun _ => ⟨fun _ => 0, fun _ => 0, 0, 0, 0, 0⟩

/-- A machine without a drive, as `kmain` finds it. -/
def bareMachine : Machine :=
  ⟨zeroFiles, 0, ⟨false, fun _ _ => 0, fun _ => false, fun _ => false, 0⟩⟩

/-- A blank drive on which every transfer succeeds. -/
def blankDrive : Ata := ⟨true, fun _ _ => 0, fun _ => false, fun _ => false, 0⟩

theorem working_blankDrive : blankDrive.Working := ⟨rfl, fun _ => rfl, fun _ => rfl⟩

theorem fresh_bareMachine : Fresh (diskfsInit bareMachine).machine :=
  ⟨bareMachine, rfl, rfl⟩

/-! ## What a call can do

A call's effect on the two static variables, without the drive: the elementary
edits of the table, and for each call the edits it can amount to. -/

/-- The table and the current directory. -/
structure View where
  files : Files
  dir : Int32

/-- The part of the machine the operations edit. -/
def Machine.view (m : Machine) : View := ⟨m.files, m.currentDir⟩

@[simp] theorem Machine.view_files (m : Machine) : m.view.files = m.files := rfl
@[simp] theorem Machine.view_dir (m : Machine) : m.view.dir = m.currentDir := rfl

namespace View

/-- `find_file(name, current_dir)`. -/
def lookup (v : View) (name : CStr) : Option Slot := findFile v.files name v.dir

/-- A new entry in `slot`. -/
def insert (v : View) (isDir : Int32) (name : CStr) (slot : Slot) : View :=
  ⟨Function.update v.files slot (newFile isDir name v.dir (v.files slot)), v.dir⟩

/-- New contents for slot `i`. -/
def store (v : View) (i : Slot) (data : Nat → UInt8) (size : Int32) : View :=
  ⟨Function.update v.files i { v.files i with
    data := writeDataLoop data size.toInt.toNat 0 (v.files i).data, size := size }, v.dir⟩

/-- Slot `i` given up. -/
def remove (v : View) (i : Slot) : View :=
  ⟨Function.update v.files i { v.files i with used := 0 }, v.dir⟩

section Fields

variable (v : View) (i j : Slot) (data : Nat → UInt8) (size : Int32)

/-- A field that the new record of a slot shares with the old one is unchanged
everywhere. -/
theorem field_update {β : Type} {files : Files} {k : Slot} {f : File} (field : File → β)
    (hk : field f = field (files k)) (l : Slot) :
    field (Function.update files k f l) = field (files l) := by
  rw [Function.apply_update (fun _ => field), hk, Function.update_eq_self]

@[simp] theorem store_dir : (v.store i data size).dir = v.dir := rfl
@[simp] theorem remove_dir : (v.remove i).dir = v.dir := rfl
@[simp] theorem insert_dir (isDir : Int32) (name : CStr) :
    (v.insert isDir name i).dir = v.dir := rfl

@[simp] theorem store_name : ((v.store i data size).files j).name = (v.files j).name :=
  field_update File.name (by rfl) j

@[simp] theorem store_used : ((v.store i data size).files j).used = (v.files j).used :=
  field_update File.used (by rfl) j

@[simp] theorem store_isDir : ((v.store i data size).files j).isDir = (v.files j).isDir :=
  field_update File.isDir (by rfl) j

@[simp] theorem store_parent : ((v.store i data size).files j).parent = (v.files j).parent :=
  field_update File.parent (by rfl) j

@[simp] theorem remove_name : ((v.remove i).files j).name = (v.files j).name :=
  field_update File.name (by rfl) j

@[simp] theorem remove_size : ((v.remove i).files j).size = (v.files j).size :=
  field_update File.size (by rfl) j

@[simp] theorem remove_isDir : ((v.remove i).files j).isDir = (v.files j).isDir :=
  field_update File.isDir (by rfl) j

@[simp] theorem remove_parent : ((v.remove i).files j).parent = (v.files j).parent :=
  field_update File.parent (by rfl) j

@[simp] theorem remove_used_ne_zero :
    ((v.remove i).files j).used ≠ 0 ↔ j ≠ i ∧ (v.files j).used ≠ 0 := by
  by_cases h : j = i
  · subst h
    simp [remove]
  · simp [remove, h]

theorem insert_self (isDir : Int32) (name : CStr) :
    (v.insert isDir name i).files i = newFile isDir name v.dir (v.files i) :=
  Function.update_self ..

theorem insert_of_ne {i j : Slot} (isDir : Int32) (name : CStr) (h : j ≠ i) :
    (v.insert isDir name i).files j = v.files j :=
  Function.update_of_ne h ..

theorem store_of_ne {i j : Slot} (h : j ≠ i) : (v.store i data size).files j = v.files j :=
  Function.update_of_ne h ..

theorem remove_of_ne {i j : Slot} (h : j ≠ i) : (v.remove i).files j = v.files j :=
  Function.update_of_ne h ..

end Fields

/-- New contents do not change what a search finds. -/
@[simp] theorem lookup_store (v : View) (i : Slot) (data : Nat → UInt8) (size : Int32)
    (name : CStr) : (v.store i data size).lookup name = v.lookup name := by
  simp only [lookup, findFile, store_used, store_parent, store_name, store_dir]

/-- `slot` is where an entry called `name` would be made. -/
def Opens (v : View) (name : CStr) (slot : Slot) : Prop :=
  v.lookup name = none ∧ findFree v.files = some slot

end View

/-- The effects a call can have. -/
inductive Does (v : View) : Call → View → Prop where
  | nothing (c : Call) : Does v c v
  | create {name : CStr} {slot : Slot} : v.Opens name slot →
      Does v (.create name) (v.insert 0 name slot)
  | mkdir {name : CStr} {slot : Slot} : v.Opens name slot →
      Does v (.mkdir name) (v.insert 1 name slot)
  | write {name : CStr} {data : Nat → UInt8} {size : Int32} {i : Slot} :
      v.lookup name = some i → size ≤ 8192 → Does v (.write name data size) (v.store i data size)
  | writeNew {name : CStr} {data : Nat → UInt8} {size : Int32} {slot i : Slot} :
      v.Opens name slot → (v.insert 0 name slot).lookup name = some i → size ≤ 8192 →
      Does v (.write name data size) ((v.insert 0 name slot).store i data size)
  | writeTooLarge {name : CStr} {data : Nat → UInt8} {size : Int32} {slot : Slot} :
      v.Opens name slot → 8192 < size → Does v (.write name data size) (v.insert 0 name slot)
  | delete {name : CStr} {i : Slot} : v.lookup name = some i →
      Does v (.delete name) (v.remove i)
  | cdRoot {path : CStr} : Does v (.cd path) { v with dir := 0 }
  | cdUp {path : CStr} {here : Slot} : v.dir = slotInt here → v.dir ≠ 0 →
      0 ≤ (v.files here).parent → Does v (.cd path) { v with dir := (v.files here).parent }
  | cdDown {path : CStr} {i : Slot} : v.lookup path = some i → (v.files i).isDir ≠ 0 →
      Does v (.cd path) { v with dir := slotInt i }

/-- A save does not change the table or the directory. -/
@[simp] theorem view_diskfsSave (m : Machine) : (diskfsSave m).machine.view = m.view := by
  simp [Machine.view]

/-- What a fresh `diskfs_init` leaves: the cleared table with its root, seen
from the root.  The names may still hold bytes of a load that failed half way. -/
theorem diskfsInit_view_of_not_loads {b : Machine} (h : loads b = false) :
    (diskfsInit b).machine.view =
      ⟨freshFiles (if ataDrivePresent b.ata then (diskfsLoad b).2 else b).files, 0⟩ := by
  unfold loads at h
  unfold diskfsInit
  cases hp : ataDrivePresent b.ata with
  | false =>
      simp only [hp, Bool.false_eq_true, if_false]
      rfl
  | true =>
      rw [hp, Bool.true_and] at h
      simp only [if_true, h, Bool.false_eq_true, if_false]
      split
      · exact view_diskfsSave _
      · rfl

theorem Fresh.view {m : Machine} (h : Fresh m) : ∃ files, m.view = ⟨freshFiles files, 0⟩ := by
  obtain ⟨b, hb, rfl⟩ := h
  exact ⟨_, diskfsInit_view_of_not_loads hb⟩

/-- In a fresh table only the root is used. -/
theorem freshFiles_unused (files : Files) {i : Slot} (hi : i ≠ rootSlot) :
    (freshFiles files i).used = 0 := by
  simp [freshFiles, Function.update_of_ne hi, File.clear]

theorem freshFiles_root (files : Files) :
    (freshFiles files rootSlot).used = 1 ∧ (freshFiles files rootSlot).isDir = 1 ∧
      (freshFiles files rootSlot).parent = -1 ∧ (freshFiles files rootSlot).size = 0 := by
  simp [freshFiles, File.clear]

/-- The outcomes of `diskfs_create` and `diskfs_mkdir`: they refuse and change
nothing, or they fill the free slot. -/
theorem makeEntry_cases (kind : EntryKind) (m : Machine) (name : CStr) :
    ((makeEntry kind m name).ret = -1 ∧ (makeEntry kind m name).machine = m ∧
      ∀ slot, ¬ m.view.Opens name slot) ∨
    ∃ slot, m.view.Opens name slot ∧ (makeEntry kind m name).ret = 0 ∧
      (makeEntry kind m name).machine.view = m.view.insert kind.isDir name slot := by
  unfold makeEntry
  cases hfind : findFile m.files name m.currentDir with
  | some idx =>
      refine Or.inl ⟨rfl, rfl, fun slot hopen => ?_⟩
      have hnone : findFile m.files name m.currentDir = none := hopen.1
      rw [hfind] at hnone
      exact absurd hnone (by simp)
  | none =>
      cases hfree : findFree m.files with
      | none =>
          refine Or.inl ⟨rfl, rfl, fun slot hopen => ?_⟩
          have hsome : findFree m.files = some slot := hopen.2
          rw [hfree] at hsome
          exact absurd hsome (by simp)
      | some slot =>
          exact Or.inr ⟨slot, ⟨hfind, hfree⟩, rfl, view_diskfsSave _⟩

/-- The data part of `diskfs_write`: too large, or the slot found is written. -/
theorem storeData_ok {m : Machine} {idx : Option Slot} {out : List UInt8} {data : Nat → UInt8}
    {size : Int32} {r : Reply} (h : storeData m idx out data size = .ok r) :
    (8192 < size ∧ r.ret = -1 ∧ r.machine = m) ∨
    ∃ i, idx = some i ∧ size ≤ 8192 ∧ r.ret = 0 ∧ r.machine.view = m.view.store i data size := by
  unfold storeData at h
  split at h
  · rename_i hsize
    obtain rfl := Except.ok.inj h
    exact Or.inl ⟨hsize, rfl, rfl⟩
  · rename_i hsize
    cases idx with
    | none => exact absurd h (by simp)
    | some i =>
        obtain rfl := Except.ok.inj h
        exact Or.inr ⟨i, rfl, Int32.not_lt.mp hsize, rfl, view_diskfsSave _⟩

theorem storeData_error_iff {m : Machine} {idx : Option Slot} {out : List UInt8}
    {data : Nat → UInt8} {size : Int32} :
    (∃ e, storeData m idx out data size = .error e) ↔ idx = none ∧ size ≤ 8192 := by
  unfold storeData
  split
  · rename_i hsize
    simp [hsize]
  · rename_i hsize
    have hle : size ≤ 8192 := Int32.not_lt.mp hsize
    cases idx <;> simp [hle]

/-- The outcomes of a completed `diskfs_write`: it returns 0 and the slot found at
the end is written, with or without a new entry before, or it returns -1 and at
most made an entry. -/
theorem diskfsWrite_cases {m : Machine} {name : CStr} {data : Nat → UInt8} {size : Int32}
    {r : Reply} (h : diskfsWrite m name data size = .ok r) :
    (r.ret = -1 ∧ r.machine.view = m.view) ∨
    (∃ i, m.view.lookup name = some i ∧ size ≤ 8192 ∧ r.ret = 0 ∧
      r.machine.view = m.view.store i data size) ∨
    (∃ slot, m.view.Opens name slot ∧ 8192 < size ∧ r.ret = -1 ∧
      r.machine.view = m.view.insert 0 name slot) ∨
    ∃ slot i, m.view.Opens name slot ∧ (m.view.insert 0 name slot).lookup name = some i ∧
      size ≤ 8192 ∧ r.ret = 0 ∧
      r.machine.view = (m.view.insert 0 name slot).store i data size := by
  unfold diskfsWrite at h
  cases hfind : findFile m.files name m.currentDir with
  | some i =>
      simp only [hfind] at h
      rcases storeData_ok h with ⟨_, hret, hsame⟩ | ⟨j, hj, hsize, hret, hview⟩
      · exact Or.inl ⟨hret, by rw [hsame]⟩
      · obtain rfl := Option.some.inj hj
        exact Or.inr (Or.inl ⟨i, hfind, hsize, hret, hview⟩)
  | none =>
      simp only [hfind] at h
      rcases makeEntry_cases fileKind m name with
        ⟨hret, hsame, _⟩ | ⟨slot, hopen, hret, hview⟩
      · rw [if_pos (by rw [diskfsCreate, hret]; decide)] at h
        obtain rfl := Except.ok.inj h
        exact Or.inl ⟨rfl, by simp only [diskfsCreate, hsame]⟩
      · rw [if_neg (by rw [diskfsCreate, hret]; decide)] at h
        have hcreated : (diskfsCreate m name).machine.view = m.view.insert 0 name slot := hview
        rcases storeData_ok h with ⟨hsize, hret, hsame⟩ | ⟨i, hi, hsize, hret, hstore⟩
        · refine Or.inr (Or.inr (Or.inl ⟨slot, hopen, hsize, hret, ?_⟩))
          rw [hsame, hcreated]
        · refine Or.inr (Or.inr (Or.inr ⟨slot, i, hopen, ?_, hsize, hret, ?_⟩))
          · rw [← hcreated]
            exact hi
          · rw [hstore, hcreated]

/-- A completed `diskfs_write`. -/
theorem diskfsWrite_does {m : Machine} {name : CStr} {data : Nat → UInt8} {size : Int32}
    {r : Reply} (h : diskfsWrite m name data size = .ok r) :
    Does m.view (.write name data size) r.machine.view := by
  rcases diskfsWrite_cases h with ⟨_, hview⟩ | ⟨i, hfind, hsize, _, hview⟩ |
    ⟨slot, hopen, hsize, _, hview⟩ | ⟨slot, i, hopen, hfind, hsize, _, hview⟩
  · rw [hview]
    exact .nothing _
  · rw [hview]
    exact .write hfind hsize
  · rw [hview]
    exact .writeTooLarge hopen hsize
  · rw [hview]
    exact .writeNew hopen hfind hsize

/-- A completed `diskfs_cd`. -/
theorem diskfsCd_does {m : Machine} {path : CStr} {r : Reply} (h : diskfsCd m path = .ok r) :
    Does m.view (.cd path) r.machine.view := by
  unfold diskfsCd at h
  split at h
  · obtain rfl := Except.ok.inj h
    exact .cdRoot
  split at h
  · split at h
    · obtain rfl := Except.ok.inj h
      exact .nothing _
    · rename_i hroot
      cases hhere : slotAt m.currentDir with
      | none => simp only [hhere] at h; exact absurd h (by simp)
      | some here =>
          simp only [hhere] at h
          split at h
          · rename_i hparent
            obtain rfl := Except.ok.inj h
            exact .cdUp (slotAt_eq_some.mp hhere) hroot hparent
          · obtain rfl := Except.ok.inj h
            exact .nothing _
  · cases hfind : findFile m.files path m.currentDir with
    | none =>
        simp only [hfind] at h
        obtain rfl := Except.ok.inj h
        exact .nothing _
    | some i =>
        simp only [hfind] at h
        split at h
        · rename_i hdir
          obtain rfl := Except.ok.inj h
          exact .cdDown hfind hdir
        · obtain rfl := Except.ok.inj h
          exact .nothing _

/-- `diskfs_delete` refuses and changes nothing, or gives up the slot found. -/
theorem diskfsDelete_view (m : Machine) (name : CStr) :
    (diskfsDelete m name).machine.view =
      match m.view.lookup name with
      | none => m.view
      | some i => m.view.remove i := by
  unfold diskfsDelete View.lookup Machine.view
  cases findFile m.files name m.currentDir with
  | none => rfl
  | some i => exact view_diskfsSave _

theorem diskfsDelete_does (m : Machine) (name : CStr) :
    Does m.view (.delete name) (diskfsDelete m name).machine.view := by
  rw [diskfsDelete_view]
  cases hfind : m.view.lookup name with
  | none => exact .nothing _
  | some i => exact .delete hfind

/-- Every completed call has one of the listed effects. -/
theorem step_does {m m' : Machine} {c : Call} (h : step m c = .ok m') :
    Does m.view c m'.view := by
  obtain ⟨r, hr, rfl⟩ := step_ok h
  cases c with
  | create name =>
      obtain rfl := Except.ok.inj hr
      rcases makeEntry_cases fileKind m name with
        ⟨_, hsame, _⟩ | ⟨slot, hopen, _, hview⟩
      · simp only [diskfsCreate, hsame]
        exact .nothing _
      · simp only [diskfsCreate, hview]
        exact .create hopen
  | mkdir name =>
      obtain rfl := Except.ok.inj hr
      rcases makeEntry_cases dirKind m name with
        ⟨_, hsame, _⟩ | ⟨slot, hopen, _, hview⟩
      · simp only [diskfsMkdir, hsame]
        exact .nothing _
      · simp only [diskfsMkdir, hview]
        exact .mkdir hopen
  | write name data size => exact diskfsWrite_does hr
  | delete name =>
      obtain rfl := Except.ok.inj hr
      exact diskfsDelete_does m name
  | cd path => exact diskfsCd_does hr

end FalastinOS.DiskFs
