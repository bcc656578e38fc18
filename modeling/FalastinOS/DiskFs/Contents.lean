/-
  DiskFs/Contents.lean --- what a file contains, over whole runs.

  A slot of the table is reused, and its data bytes are never cleared: a deleted
  file's bytes stay where they are.  What a slot is for is said by the history of
  the calls alone.  A history is a list of events, the latest first: a slot was
  created, or bytes were stored in it.  `lastStored` looks up the bytes stored
  last in a slot since its creation, and `last_write_wins` says that this is what
  every read returns.

  The events of a call are read off the outside of it: which entries became used,
  and which entry its name leads to after a write that returned 0.
-/
import FalastinOS.DiskFs.Persistence
import FalastinOS.DiskFs.Tree

set_option autoImplicit false

namespace FalastinOS.DiskFs

open FalastinOS.Foundation FalastinOS.Drivers

/-! ## Histories -/

/-- What happened to a slot. -/
inductive Event where
  | created (slot : Slot)
  | stored (slot : Slot) (bytes : List UInt8)
  deriving DecidableEq

/-- The slot of an event. -/
def Event.slot : Event → Slot
  | .created slot => slot
  | .stored slot _ => slot

/-- The bytes the latest event of slot `i` left there: those of a store, none
after a creation and none without an event. -/
def lastStored (log : List Event) (i : Slot) : List UInt8 :=
  match log.find? fun e => e.slot == i with
  | some (.stored _ bytes) => bytes
  | _ => []

@[simp] theorem lastStored_created (slot i : Slot) (log : List Event) :
    lastStored (.created slot :: log) i = if slot = i then [] else lastStored log i := by
  by_cases h : slot = i <;> simp [lastStored, Event.slot, h]

@[simp] theorem lastStored_stored (slot i : Slot) (bytes : List UInt8) (log : List Event) :
    lastStored (.stored slot bytes :: log) i = if slot = i then bytes else lastStored log i := by
  by_cases h : slot = i <;> simp [lastStored, Event.slot, h]

/-- The first `size` bytes of the caller's memory. -/
def bytesOf (data : Nat → UInt8) (size : Int32) : List UInt8 :=
  (List.range size.toInt.toNat).map data

/-- The entries that a call brought into use. -/
def createdEvents (before after : Files) : List Event :=
  ((List.finRange maxFiles).filter fun i =>
    decide ((before i).used = 0) && decide ((after i).used ≠ 0)).map .created

/-- What a call stored: the bytes of a write that returned 0, in the entry its name
leads to. -/
def storedEvents (c : Call) (r : Reply) : List Event :=
  match c with
  | .write name data size =>
      if r.ret = 0 then
        match r.machine.view.lookup name with
        | some i => [.stored i (bytesOf data size)]
        | none => []
      else []
  | _ => []

/-- The events of a completed call, the latest first. -/
def events (m : Machine) (c : Call) (r : Reply) : List Event :=
  storedEvents c r ++ createdEvents m.files r.machine.files

/-- The machines that runs lead to, each with its history: a file system is made,
calls are completed, and what is on a drive is loaded at the next boot. -/
inductive History : Machine → List Event → Prop where
  | fresh {m : Machine} : Fresh m → History m []
  | call {m : Machine} {log : List Event} {c : Call} {r : Reply} : History m log →
      SizeNonneg c → c.exec m = .ok r → History r.machine (events m c r ++ log)
  | reload {m b : Machine} {log : List Event} : History m log → Image b.ata m.files →
      loads b = true → History (diskfsInit b).machine log

/-! ## The events of each operation -/

theorem createdEvents_self (files : Files) : createdEvents files files = [] := by
  simp [createdEvents]

/-- Only `used` counts. -/
theorem createdEvents_congr {before after' : Files} (after : Files)
    (h : ∀ i, (after' i).used ≠ 0 ↔ (after i).used ≠ 0) :
    createdEvents before after' = createdEvents before after := by
  simp only [createdEvents, decide_eq_decide.mpr (h _)]

theorem createdEvents_remove (v : View) (i : Slot) :
    createdEvents v.files (v.remove i).files = [] := by
  simp only [createdEvents, List.map_eq_nil_iff, List.filter_eq_nil_iff]
  intro j _
  simp only [Bool.and_eq_true, decide_eq_true_eq, v.remove_used_ne_zero i j]
  rintro ⟨hfree, _, hused⟩
  exact hused hfree

/-- A new entry is the one creation. -/
theorem createdEvents_insert {v : View} (isDir : Int32) {name : CStr} {slot : Slot}
    (hfree : (v.files slot).used = 0) :
    createdEvents v.files (v.insert isDir name slot).files = [.created slot] := by
  have hfilter : ((List.finRange maxFiles).filter fun i => decide ((v.files i).used = 0) &&
      decide (((v.insert isDir name slot).files i).used ≠ 0)) =
      (List.finRange maxFiles).filter fun i => i == slot := by
    refine List.filter_congr fun i _ => ?_
    by_cases h : i = slot
    · subst h
      rw [v.insert_self]
      simp [hfree, newFile]
    · rw [v.insert_of_ne isDir name h]
      by_cases hused : (v.files i).used = 0 <;> simp [h, hused]
  rw [createdEvents, hfilter, List.filter_beq, (List.nodup_finRange maxFiles).count,
    if_pos (List.mem_finRange slot)]
  rfl

/-- The effects a call can have on the table, with the events of each. -/
inductive Logs (v : View) : Call → Files → List Event → Prop where
  | nothing (c : Call) : Logs v c v.files []
  | insert (c : Call) (isDir : Int32) (name : CStr) (slot : Slot) :
      Logs v c (v.insert isDir name slot).files [.created slot]
  | store {name : CStr} {data : Nat → UInt8} {size : Int32} (i : Slot) : size ≤ 8192 →
      Logs v (.write name data size) (v.store i data size).files [.stored i (bytesOf data size)]
  | insertStore {name : CStr} {data : Nat → UInt8} {size : Int32} (slot i : Slot) : size ≤ 8192 →
      Logs v (.write name data size) ((v.insert 0 name slot).store i data size).files
        [.stored i (bytesOf data size), .created slot]
  | remove (c : Call) (i : Slot) : Logs v c (v.remove i).files []

theorem makeEntry_logs (kind : EntryKind) (m : Machine) (name : CStr) (c : Call) :
    Logs m.view c (makeEntry kind m name).machine.files
      (createdEvents m.files (makeEntry kind m name).machine.files) := by
  rcases makeEntry_cases kind m name with ⟨_, hsame, _⟩ | ⟨slot, hopen, _, hview⟩
  · rw [hsame, createdEvents_self]
    exact .nothing _
  · have hfiles := congrArg View.files hview
    rw [Machine.view_files] at hfiles
    rw [hfiles, ← m.view_files, createdEvents_insert kind.isDir (findFree_some hopen.2)]
    exact .insert _ _ _ _

theorem diskfsWrite_logs {m : Machine} {name : CStr} {data : Nat → UInt8} {size : Int32}
    {r : Reply} (h : diskfsWrite m name data size = .ok r) :
    Logs m.view (.write name data size) r.machine.files
      (events m (.write name data size) r) := by
  have hfiles : r.machine.files = r.machine.view.files := rfl
  rw [events, storedEvents, hfiles, ← m.view_files]
  rcases diskfsWrite_cases h with ⟨hret, hview⟩ | ⟨i, hfind, hsize, hret, hview⟩ |
    ⟨slot, hopen, hsize, hret, hview⟩ | ⟨slot, i, hopen, hfind, hsize, hret, hview⟩
  · rw [hview, hret, if_neg (by decide), createdEvents_self]
    exact .nothing _
  · rw [hview, hret, if_pos rfl, View.lookup_store, hfind,
      createdEvents_congr m.view.files (by simp), createdEvents_self]
    exact .store i hsize
  · rw [hview, hret, if_neg (by decide), createdEvents_insert 0 (findFree_some hopen.2)]
    exact .insert _ _ _ _
  · rw [hview, hret, if_pos rfl, View.lookup_store, hfind,
      createdEvents_congr (m.view.insert 0 name slot).files (by simp),
      createdEvents_insert 0 (findFree_some hopen.2)]
    exact .insertStore slot i hsize

theorem diskfsCd_files {m : Machine} {path : CStr} {r : Reply} (h : diskfsCd m path = .ok r) :
    r.machine.files = m.view.files := by
  have hdoes := diskfsCd_does h
  rw [← r.machine.view_files]
  generalize r.machine.view = v' at hdoes
  cases hdoes <;> rfl

/-- Every completed call has one of the listed effects, with its events. -/
theorem exec_logs {m : Machine} {c : Call} {r : Reply} (h : c.exec m = .ok r) :
    Logs m.view c r.machine.files (events m c r) := by
  cases c with
  | create name =>
      obtain rfl := Except.ok.inj h
      exact makeEntry_logs fileKind m name _
  | mkdir name =>
      obtain rfl := Except.ok.inj h
      exact makeEntry_logs dirKind m name _
  | write name data size => exact diskfsWrite_logs h
  | delete name =>
      obtain rfl := Except.ok.inj h
      have hview := diskfsDelete_view m name
      have hfiles := congrArg View.files hview
      rw [Machine.view_files] at hfiles
      rw [show events m (.delete name) _ = createdEvents m.files _ from rfl, hfiles, ← m.view_files]
      cases m.view.lookup name with
      | none =>
          rw [createdEvents_self]
          exact .nothing _
      | some i =>
          rw [createdEvents_remove]
          exact .remove _ i
  | cd path =>
      have hfiles : r.machine.files = m.view.files := diskfsCd_files h
      rw [show events m (.cd path) r = createdEvents m.files _ from rfl, hfiles, ← m.view_files,
        createdEvents_self]
      exact .nothing _

/-! ## The invariant -/

/-- The bytes of a file. -/
def File.contents (f : File) : List UInt8 :=
  (List.range f.size.toInt.toNat).map fun i =>
    if h : i < maxFileSize then f.data ⟨i, h⟩ else 0

/-- Every entry in use holds what the history says. -/
def Holds (files : Files) (log : List Event) : Prop :=
  ∀ i, (files i).used ≠ 0 → (0 ≤ (files i).size ∧ (files i).size ≤ 8192) ∧
    (files i).contents = lastStored log i

theorem holds_fresh (files : Files) : Holds (freshFiles files) [] := by
  intro i hi
  have hroot : i = rootSlot := by
    by_contra hne
    exact hi (freshFiles_unused files hne)
  obtain ⟨_, _, _, hsize⟩ := freshFiles_root files
  subst hroot
  rw [File.contents, hsize]
  exact ⟨⟨by decide, by decide⟩, rfl⟩

/-- The entry made by `diskfs_create` or `diskfs_mkdir` is empty. -/
theorem Holds.insert {v : View} {log : List Event} (h : Holds v.files log) (isDir : Int32)
    (name : CStr) (slot : Slot) :
    Holds (v.insert isDir name slot).files (.created slot :: log) := by
  intro i hi
  rw [lastStored_created]
  by_cases his : i = slot
  · subst his
    rw [v.insert_self, if_pos rfl]
    exact ⟨⟨show (0 : Int32) ≤ 0 by decide, show (0 : Int32) ≤ 8192 by decide⟩, rfl⟩
  · rw [v.insert_of_ne isDir name his] at hi ⊢
    rw [if_neg (Ne.symm his)]
    exact h i hi

theorem writeDataLoop_apply (data : Nat → UInt8) (n : Nat) :
    ∀ (i : Nat) (dst : CharArray maxFileSize) (k : Fin maxFileSize),
      writeDataLoop data n i dst k = if i ≤ k.val ∧ k.val < i + n then data k.val else dst k := by
  induction n with
  | zero =>
      intro i dst k
      rw [if_neg (by omega)]
      rfl
  | succ n ih =>
      intro i dst k
      rw [writeDataLoop, ih]
      exact dst.ite_set data k (by omega)

/-- The contents of an entry after a write. -/
theorem contents_store (v : View) (i : Slot) (data : Nat → UInt8) {size : Int32}
    (hle : size ≤ 8192) : ((v.store i data size).files i).contents = bytesOf data size := by
  have hint : size.toInt ≤ 8192 := Int32.le_iff_toInt_le.mp hle
  simp only [View.store, Function.update_self, File.contents, bytesOf, List.map_inj_left,
    List.mem_range]
  intro k hk
  rw [dif_pos (by unfold maxFileSize; omega), writeDataLoop_apply,
    if_pos (show 0 ≤ k ∧ k < 0 + size.toInt.toNat by omega)]

theorem Holds.store {v : View} {log : List Event} (h : Holds v.files log) (i : Slot)
    (data : Nat → UInt8) {size : Int32} (hlow : 0 ≤ size) (hhigh : size ≤ 8192) :
    Holds (v.store i data size).files (.stored i (bytesOf data size) :: log) := by
  intro j hj
  rw [lastStored_stored]
  by_cases hji : j = i
  · subst hji
    rw [if_pos rfl, contents_store v j data hhigh]
    exact ⟨by simpa [View.store] using ⟨hlow, hhigh⟩, rfl⟩
  · rw [v.store_of_ne data size hji] at hj ⊢
    rw [if_neg (Ne.symm hji)]
    exact h j hj

theorem Holds.remove {v : View} {log : List Event} (h : Holds v.files log) (i : Slot) :
    Holds (v.remove i).files log := by
  intro j hj
  obtain ⟨hji, hused⟩ := (v.remove_used_ne_zero i j).mp hj
  rw [v.remove_of_ne hji]
  exact h j hused

/-- One completed call. -/
theorem Holds.logs {v : View} {c : Call} {files : Files} {log new : List Event}
    (h : Holds v.files log) (hsize : SizeNonneg c) (hlogs : Logs v c files new) :
    Holds files (new ++ log) := by
  cases hlogs with
  | nothing => exact h
  | insert _ isDir name slot => exact h.insert isDir name slot
  | store i hle => exact h.store i _ hsize hle
  | insertStore slot i hle => exact (h.insert 0 _ slot).store i _ hsize hle
  | remove _ i => exact h.remove i

/-- Along every run the entries in use hold what the history says. -/
theorem History.holds {m : Machine} {log : List Event} (h : History m log) :
    Holds m.files log := by
  induction h with
  | @fresh m hfresh =>
      obtain ⟨files, hview⟩ := hfresh.view
      rw [← m.view_files, hview]
      exact holds_fresh files
  | call _ hsize hexec ih => exact ih.logs hsize (exec_logs hexec)
  | @reload m b log _ himage hloads ih =>
      obtain ⟨hpresent, hload⟩ := Bool.and_eq_true _ _ ▸ hloads
      rw [diskfsInit, if_pos hpresent, if_pos hload, diskfsLoad_of_image himage hload]
      exact ih

/-- A call leaves the contents of every entry alone that none of its events is
about. -/
theorem Logs.contents {v : View} {c : Call} {files : Files} {new : List Event}
    (h : Logs v c files new) {j : Slot} (hj : ∀ e ∈ new, e.slot ≠ j) :
    (files j).contents = (v.files j).contents := by
  cases h with
  | nothing => rfl
  | insert _ isDir name slot =>
      have hjslot : j ≠ slot := Ne.symm (hj _ (List.mem_singleton_self _))
      rw [v.insert_of_ne isDir name hjslot]
  | store i _ =>
      have hji : j ≠ i := Ne.symm (hj _ (List.mem_singleton_self _))
      rw [v.store_of_ne _ _ hji]
  | insertStore slot i _ =>
      have hji : j ≠ i := Ne.symm (hj (.stored i _) List.mem_cons_self)
      have hjslot : j ≠ slot := Ne.symm (hj (.created slot) (by simp))
      rw [View.store_of_ne _ _ _ hji, v.insert_of_ne 0 _ hjslot]
  | remove _ i =>
      by_cases hji : j = i
      · subst hji
        simp only [View.remove, Function.update_self, File.contents]
      · rw [v.remove_of_ne hji]

theorem int32_ofNat_le {n : Nat} (h : n ≤ 8192) : Int32.ofNat n ≤ 8192 := by
  rw [Int32.le_iff_toInt_le, Int32.toInt_ofNat_of_lt (by omega),
    show (8192 : Int32).toInt = 8192 from rfl]
  omega

/-- The memory that holds a list of bytes. -/
theorem bytesOf_getD {bytes : List UInt8} (h : bytes.length < 2 ^ 31) :
    bytesOf (fun i => bytes.getD i 0) (Int32.ofNat bytes.length) = bytes := by
  rw [bytesOf, Int32.toInt_ofNat_of_lt h, Int.toNat_natCast]
  refine List.ext_getElem (by simp) fun i hi hi' => ?_
  rw [List.getElem_map, List.getElem_range, List.getD_eq_getElem _ _ hi']

/-- A read of a sound entry returns the first bytes of its contents. -/
theorem diskfsRead_found {m : Machine} {name : CStr} {n : Int32} {i : Slot} (hn : 0 ≤ n)
    (hfind : m.view.lookup name = some i)
    (hsize : 0 ≤ (m.files i).size ∧ (m.files i).size ≤ 8192) :
    ∃ r, diskfsRead m name n = .ok r ∧ r.buffer = (m.files i).contents.take n.toInt.toNat ∧
      r.ret.toInt = min n.toInt (m.files i).contents.length := by
  have hlookup : findFile m.files name m.currentDir = some i := hfind
  have hn' : (0 : Int) ≤ n.toInt := Int32.le_iff_toInt_le.mp hn
  have hlow : (0 : Int) ≤ (m.files i).size.toInt := Int32.le_iff_toInt_le.mp hsize.1
  have hhigh : (m.files i).size.toInt ≤ 8192 := Int32.le_iff_toInt_le.mp hsize.2
  have hlength : (m.files i).contents.length = (m.files i).size.toInt.toNat := by
    simp [File.contents]
  rw [diskfsRead, hlookup, hlength]
  dsimp only
  by_cases hless : n < (m.files i).size
  · have hless' : n.toInt < (m.files i).size.toInt := Int32.lt_iff_toInt_lt.mp hless
    have hfits : ¬ 8192 < n :=
      Int32.not_lt.mpr (Int32.le_trans (Int32.le_of_lt hless) hsize.2)
    rw [if_pos hless, if_neg hfits]
    refine ⟨_, rfl, ?_, by simp only; omega⟩
    rw [File.contents, ← List.map_take, List.take_range, Nat.min_eq_left (by omega)]
  · have hless' : (m.files i).size.toInt ≤ n.toInt :=
      Int32.le_iff_toInt_le.mp (Int32.not_lt.mp hless)
    rw [if_neg hless, if_neg (Int32.not_lt.mpr hsize.2)]
    refine ⟨_, rfl, ?_, by simp only; omega⟩
    rw [List.take_of_length_le (by omega)]
    rfl

/-- A write to a file that exists replaces it if the bytes fit. -/
theorem diskfsWrite_found {m : Machine} {name : CStr} {size : Int32} {i : Slot}
    (hfind : m.view.lookup name = some i) (hsize : size ≤ 8192) (data : Nat → UInt8) :
    ∃ r, diskfsWrite m name data size = .ok r ∧ r.ret = 0 ∧
      r.machine.view = m.view.store i data size := by
  have hlookup : findFile m.files name m.currentDir = some i := hfind
  rw [diskfsWrite, hlookup]
  dsimp only
  rw [storeData, if_neg (Int32.not_lt.mpr hsize)]
  exact ⟨_, rfl, rfl, view_diskfsSave _⟩

/-- Otherwise it leaves the file alone. -/
theorem diskfsWrite_too_large {m : Machine} {name : CStr} {size : Int32} {i : Slot}
    (hfind : m.view.lookup name = some i) (hsize : 8192 < size) (data : Nat → UInt8) :
    ∃ r, diskfsWrite m name data size = .ok r ∧ r.machine = m := by
  have hlookup : findFile m.files name m.currentDir = some i := hfind
  rw [diskfsWrite, hlookup]
  dsimp only
  rw [storeData, if_pos hsize]
  exact ⟨_, rfl, rfl⟩

/-- What a write that returned 0 stored is what a read of at least as many bytes
returns. -/
theorem diskfsRead_after_write {m : Machine} {name : CStr} {data : Nat → UInt8} {size n : Int32}
    {r : Reply} (h : diskfsWrite m name data size = .ok r) (hret : r.ret = 0) (hsize : 0 ≤ size)
    (hn : size ≤ n) :
    ∃ read, diskfsRead r.machine name n = .ok read ∧ read.buffer = bytesOf data size := by
  obtain ⟨v, i, hfind, hle, hview⟩ : ∃ v i, View.lookup v name = some i ∧ size ≤ 8192 ∧
      r.machine.view = v.store i data size := by
    rcases diskfsWrite_cases h with ⟨hfail, _⟩ | ⟨i, hfind, hle, _, hview⟩ |
      ⟨_, _, _, hfail, _⟩ | ⟨slot, i, _, hfind, hle, _, hview⟩
    · exact absurd (hret.symm.trans hfail) (by decide)
    · exact ⟨_, i, hfind, hle, hview⟩
    · exact absurd (hret.symm.trans hfail) (by decide)
    · exact ⟨_, i, hfind, hle, hview⟩
  have hlookup : r.machine.view.lookup name = some i := by
    rw [hview, View.lookup_store, hfind]
  have hfile : (r.machine.files i).contents = bytesOf data size := by
    rw [← r.machine.view_files, hview, contents_store v i data hle]
  have hstored : (r.machine.files i).size = size := by
    rw [← r.machine.view_files, hview]
    simp [View.store]
  obtain ⟨read, hread, hbuffer, _⟩ := diskfsRead_found (Int32.le_trans hsize hn) hlookup
    (by rw [hstored]; exact ⟨hsize, hle⟩)
  refine ⟨read, hread, ?_⟩
  have hn' : size.toInt ≤ n.toInt := Int32.le_iff_toInt_le.mp hn
  have hlength : (bytesOf data size).length = size.toInt.toNat := by simp [bytesOf]
  rw [hbuffer, hfile, List.take_of_length_le (by omega)]

/-- Last write wins.  In every state a run leads to, a read of at most `n` bytes
that finds an entry returns the first bytes, `n` of them or all, that the history
has as stored last in it; and the next call changes the contents of no entry that
it neither creates nor writes. -/
theorem last_write_wins {m : Machine} {log : List Event} (h : History m log) :
    (∀ (name : CStr) (n : Int32) (i : Slot), 0 ≤ n → m.view.lookup name = some i →
      ∃ r, diskfsRead m name n = .ok r ∧ r.buffer = (lastStored log i).take n.toInt.toNat ∧
        r.ret.toInt = min n.toInt (lastStored log i).length) ∧
    ∀ (c : Call) (r : Reply) (j : Slot), c.exec m = .ok r → (∀ e ∈ events m c r, e.slot ≠ j) →
      (r.machine.files j).contents = (m.files j).contents := by
  refine ⟨fun name n i hn hfind => ?_, fun c r j hexec hj => (exec_logs hexec).contents hj⟩
  obtain ⟨hsize, hcontents⟩ := h.holds i (findFile_some hfind).used
  rw [← hcontents]
  exact diskfsRead_found hn hfind hsize

/-- The reply of the first write of two bytes to a new file. -/
def writtenReply : Reply :=
  match diskfsWrite (diskfsInit bareMachine).machine nameA (fun k => UInt8.ofNat (104 + k)) 2 with
  | .ok r => r
  | .error _ => ⟨-1, [], bareMachine⟩

/-- The history of a file that was written, deleted and made again. -/
def recreatedLog : List Event :=
  let m := writtenReply.machine
  let deleted := diskfsDelete m nameA
  events deleted.machine (.create nameA) (diskfsCreate deleted.machine nameA) ++
    (events m (.delete nameA) deleted ++
      (events (diskfsInit bareMachine).machine
        (.write nameA (fun k => UInt8.ofNat (104 + k)) 2) writtenReply ++ []))

/-- The machine that file is in. -/
def recreatedMachine : Machine :=
  (diskfsCreate (diskfsDelete writtenReply.machine nameA).machine nameA).machine

theorem history_recreated : History recreatedMachine recreatedLog := by
  have hfresh : History (diskfsInit bareMachine).machine [] := .fresh fresh_bareMachine
  have hwritten := hfresh.call (c := .write nameA (fun k => UInt8.ofNat (104 + k)) 2)
    (r := writtenReply) (show (0 : Int32) ≤ 2 by decide) rfl
  have hdeleted := hwritten.call (c := .delete nameA) trivial rfl
  exact hdeleted.call (c := .create nameA) trivial rfl

theorem last_write_wins_recreated :
    Event.stored ⟨1, by decide⟩ [104, 105] ∈ recreatedLog ∧
      ∃ r, diskfsRead recreatedMachine nameA 8 = .ok r ∧ r.buffer = [] ∧ r.ret.toInt = 0 := by
  have hfind : recreatedMachine.view.lookup nameA = some ⟨1, by decide⟩ := by decide +kernel
  have hnone : lastStored recreatedLog ⟨1, by decide⟩ = [] := by decide +kernel
  obtain ⟨r, hread, hbuffer, hret⟩ :=
    (last_write_wins history_recreated).1 nameA 8 ⟨1, by decide⟩ (by decide) hfind
  rw [hnone] at hbuffer hret
  exact ⟨by decide +kernel, r, hread, hbuffer, hret⟩

end FalastinOS.DiskFs
