/-
  DiskFs/Names.lean --- stored names: create-then-lookup, and uniqueness.

  An entry is stored under a name that `find_file` will answer to only if the
  name fits the free slot (`NameFits`): at most 31 bytes, and a NUL already in
  the place of its terminator.  `createThenLookup_iff` makes this exact for
  `diskfs_create`, `diskfs_mkdir` and the second lookup of `diskfs_write`, and
  `createThenLookup_run_iff` for the calls of a run.

  The duplicate check of `diskfs_create` looks for the given name, not for the
  stored one, so the same condition is what keeps names unique over a run
  (`uniqueNames_of_fitting_run`).
-/
import FalastinOS.DiskFs.Ops
import FalastinOS.Foundation.Execution

set_option autoImplicit false

namespace FalastinOS.DiskFs

open FalastinOS.Foundation FalastinOS.Drivers

/-- An entry called `name` would be stored under that name: the name fits the
slot it would be put in, if there is one. -/
def FitsFreeSlot (v : View) (name : CStr) : Prop :=
  ∀ slot, v.Opens name slot → NameFits name (v.files slot).name

/-! ## Looking up what was just created -/

/-- After an insert only the new slot can answer to the name. -/
theorem answers_insert {v : View} (isDir : Int32) {name : CStr} {slot : Slot}
    (hopen : v.Opens name slot) (j : Slot) :
    Answers (v.insert isDir name slot).files name v.dir j ↔
      j = slot ∧ NameFits name (v.files slot).name := by
  by_cases hj : j = slot
  · subst hj
    have hnew := v.insert_self j isDir name
    constructor
    · intro h
      refine ⟨rfl, (nameMatches_storeName_iff name _).mp ?_⟩
      have := h.name
      rwa [hnew] at this
    · rintro ⟨_, hfits⟩
      refine ⟨?_, ?_, ?_⟩ <;> rw [hnew]
      · exact show (1 : Int32) ≠ 0 by decide
      · rfl
      · exact (nameMatches_storeName_iff name _).mpr hfits
  · have hold := v.insert_of_ne isDir name hj
    constructor
    · intro h
      refine absurd ?_ (findFile_none_iff.mp hopen.1 j)
      exact ⟨hold ▸ h.used, hold ▸ h.parent, hold ▸ h.name⟩
    · exact fun h => absurd h.1 hj

theorem lookup_insert_of_fits {v : View} (isDir : Int32) {name : CStr} {slot : Slot}
    (hopen : v.Opens name slot) (hfits : NameFits name (v.files slot).name) :
    (v.insert isDir name slot).lookup name = some slot :=
  findFile_eq_of_unique ((answers_insert isDir hopen slot).mpr ⟨rfl, hfits⟩)
    fun j hj => ((answers_insert isDir hopen j).mp hj).1

theorem lookup_insert_of_not_fits {v : View} (isDir : Int32) {name : CStr} {slot : Slot}
    (hopen : v.Opens name slot) (hfits : ¬ NameFits name (v.files slot).name) :
    (v.insert isDir name slot).lookup name = none :=
  findFile_none_iff.mpr fun j hj => hfits ((answers_insert isDir hopen j).mp hj).2

/-- The entry `slot` of the table is found under `name`, and its stored name
read as a C string is `name`. -/
def StoredAs (m : Machine) (name : CStr) (slot : Slot) : Prop :=
  findFile m.files name m.currentDir = some slot ∧ (m.files slot).name.toCStr = name.bytes

/-- Create-then-lookup for one name: a successful `diskfs_create` or
`diskfs_mkdir` fills the free slot and the name then leads to it, and
`diskfs_write` never uses the result -1 of its second lookup as an index. -/
structure CreateThenLookup (m : Machine) (name : CStr) : Prop where
  create : (diskfsCreate m name).ret = 0 →
    ∃ slot, findFree m.files = some slot ∧ StoredAs (diskfsCreate m name).machine name slot
  mkdir : (diskfsMkdir m name).ret = 0 →
    ∃ slot, findFree m.files = some slot ∧ StoredAs (diskfsMkdir m name).machine name slot
  write : ∀ data size, diskfsWrite m name data size ≠ .error (.filesIndex (-1))

/-- `diskfs_create` and `diskfs_mkdir` alike: if the name fits, the new entry is
stored under it. -/
theorem storedAs_of_fits {kind : EntryKind} {m : Machine} {name : CStr}
    (hfits : FitsFreeSlot m.view name) (hret : (makeEntry kind m name).ret = 0) :
    ∃ slot, findFree m.files = some slot ∧ StoredAs (makeEntry kind m name).machine name slot := by
  rcases makeEntry_cases kind m name with ⟨hfail, _⟩ | ⟨slot, hopen, _, hview⟩
  · rw [hfail] at hret
    exact absurd hret (by decide)
  · have hslot := hfits slot hopen
    have hfiles := congrArg View.files hview
    refine ⟨slot, hopen.2, ?_, ?_⟩
    · have hfound := lookup_insert_of_fits kind.isDir hopen hslot
      rwa [← hview] at hfound
    · have hnew := m.view.insert_self slot kind.isDir name
      simp only [Machine.view] at hfiles
      rw [hfiles]
      exact (congrArg (fun f : File => f.name.toCStr) hnew).trans
        ((toCStr_storeName_iff name _).mpr hslot)

/-- The second lookup of `diskfs_write` finds the entry if the name fits. -/
theorem diskfsWrite_ne_error_of_fits {m : Machine} {name : CStr}
    (hfits : FitsFreeSlot m.view name) (data : Nat → UInt8) (size : Int32) :
    ∀ e, diskfsWrite m name data size ≠ .error e := by
  intro e herr
  unfold diskfsWrite at herr
  cases hfind : findFile m.files name m.currentDir with
  | some i =>
      simp only [hfind] at herr
      exact absurd (storeData_error_iff.mp ⟨e, herr⟩).1 (by simp)
  | none =>
      simp only [hfind] at herr
      split at herr
      · exact absurd herr (by simp)
      · rename_i hret
        obtain ⟨slot, _, hstored, _⟩ := storedAs_of_fits hfits (not_not.mp hret)
        have hnone := (storeData_error_iff.mp ⟨e, herr⟩).1
        rw [diskfsCreate, hstored] at hnone
        exact absurd hnone (by simp)

/-- If the name does not fit its slot, creating it succeeds and the name leads
nowhere afterwards. -/
theorem makeEntry_lost (kind : EntryKind) {m : Machine} {name : CStr} {slot : Slot}
    (hopen : m.view.Opens name slot) (hfits : ¬ NameFits name (m.files slot).name) :
    (makeEntry kind m name).ret = 0 ∧
      (makeEntry kind m name).machine.view.lookup name = none := by
  rcases makeEntry_cases kind m name with
    ⟨_, _, hclosed⟩ | ⟨slot', hopen', hret, hview⟩
  · exact absurd hopen (hclosed slot)
  · have hsame : slot' = slot := Option.some.inj (hopen'.2.symm.trans hopen.2)
    subst hsame
    exact ⟨hret, hview ▸ lookup_insert_of_not_fits _ hopen hfits⟩

/-- A `diskfs_write` to a new entry whose name fits. -/
theorem diskfsWrite_new {m : Machine} {name : CStr} {slot : Slot}
    (hopen : m.view.Opens name slot) (hfits : NameFits name (m.files slot).name)
    (data : Nat → UInt8) {size : Int32} (hsize : size ≤ 8192) :
    ∃ r, diskfsWrite m name data size = .ok r ∧
      r.machine.view = (m.view.insert 0 name slot).store slot data size := by
  have hfind : findFile m.files name m.currentDir = none := hopen.1
  rcases makeEntry_cases fileKind m name with ⟨_, _, hclosed⟩ | ⟨slot', hopen', hret, hview⟩
  · exact absurd hopen (hclosed slot)
  · obtain rfl : slot' = slot := Option.some.inj (hopen'.2.symm.trans hopen.2)
    have hcreated : (diskfsCreate m name).machine.view = m.view.insert 0 name slot' := hview
    have hfound : (diskfsCreate m name).machine.view.lookup name = some slot' := by
      rw [hcreated]
      exact lookup_insert_of_fits 0 hopen hfits
    have hlookup : findFile (diskfsCreate m name).machine.files name
        (diskfsCreate m name).machine.currentDir = some slot' := hfound
    rw [diskfsWrite, hfind]
    dsimp only
    rw [if_neg (by rw [diskfsCreate, hret]; decide), hlookup]
    cases hstore : storeData (diskfsCreate m name).machine (some slot')
        (diskfsCreate m name).out data size with
    | error e =>
        exact absurd (storeData_error_iff.mp ⟨e, hstore⟩).1 (Option.some_ne_none slot')
    | ok r =>
        refine ⟨r, rfl, ?_⟩
        rcases storeData_ok hstore with ⟨hlarge, _⟩ | ⟨i, hi, _, _, hstored⟩
        · exact absurd hlarge (Int32.not_lt.mpr hsize)
        · rw [hstored, hcreated, ← Option.some.inj hi]

/-- If the name does not fit, `diskfs_write` has no slot to write to. -/
theorem diskfsWrite_error_of_not_fits {m : Machine} {name : CStr} {slot : Slot}
    (hopen : m.view.Opens name slot) (hfits : ¬ NameFits name (m.files slot).name)
    (data : Nat → UInt8) {size : Int32} (hsize : size ≤ 8192) :
    ∃ e, diskfsWrite m name data size = .error e := by
  obtain ⟨hret, hnone⟩ := makeEntry_lost fileKind hopen hfits
  have hfind : findFile m.files name m.currentDir = none := hopen.1
  rw [diskfsWrite, hfind]
  dsimp only
  rw [if_neg (by rw [diskfsCreate, hret]; decide)]
  exact storeData_error_iff.mpr ⟨hnone, hsize⟩

/-- Create-then-lookup holds of a name exactly when the name fits the free slot. -/
theorem createThenLookup_iff (m : Machine) (name : CStr) :
    CreateThenLookup m name ↔ FitsFreeSlot m.view name := by
  constructor
  · intro h slot hopen
    by_contra hlost
    obtain ⟨hret, hnone⟩ := makeEntry_lost fileKind hopen hlost
    obtain ⟨slot', _, hfound, _⟩ := h.create hret
    exact absurd (hnone.symm.trans hfound) (by simp)
  · intro hfits
    exact ⟨storedAs_of_fits hfits, storedAs_of_fits hfits,
      fun data size => diskfsWrite_ne_error_of_fits hfits data size _⟩

instance (v : View) (name : CStr) (slot : Slot) : Decidable (v.Opens name slot) :=
  inferInstanceAs (Decidable (_ ∧ _))

instance (v : View) (name : CStr) : Decidable (FitsFreeSlot v name) :=
  inferInstanceAs (Decidable (∀ slot : Slot, v.Opens name slot → NameFits name (v.files slot).name))

/-- A call that would make an entry makes it under the given name. -/
def CallFits (m : Machine) : Call → Prop
  | .create name => FitsFreeSlot m.view name
  | .mkdir name => FitsFreeSlot m.view name
  | .write name _ _ => FitsFreeSlot m.view name
  | .delete _ => True
  | .cd _ => True

/-- The name under which a call may make an entry. -/
def Call.entryName : Call → Option CStr
  | .create name => some name
  | .mkdir name => some name
  | .write name _ _ => some name
  | .delete _ => none
  | .cd _ => none

/-- A call that may make an entry meets create-then-lookup. -/
def LookupAfterCall (m : Machine) (c : Call) : Prop :=
  ∀ name, c.entryName = some name → CreateThenLookup m name

theorem lookupAfterCall_iff (m : Machine) (c : Call) : LookupAfterCall m c ↔ CallFits m c := by
  cases c <;> simp [LookupAfterCall, Call.entryName, CallFits, createThenLookup_iff]

/-- In a run from `diskfs_init`, create-then-lookup holds at every call exactly
if every entry is made under a name that fits its slot. -/
theorem createThenLookup_run_iff (b : Machine) (calls : List Call) :
    Attempted step LookupAfterCall (diskfsInit b).machine calls ↔
      Attempted step CallFits (diskfsInit b).machine calls :=
  attempted_congr lookupAfterCall_iff _ calls

instance (m : Machine) : (c : Call) → Decidable (CallFits m c)
  | .create name => inferInstanceAs (Decidable (FitsFreeSlot m.view name))
  | .mkdir name => inferInstanceAs (Decidable (FitsFreeSlot m.view name))
  | .write name _ _ => inferInstanceAs (Decidable (FitsFreeSlot m.view name))
  | .delete _ => inferInstanceAs (Decidable True)
  | .cd _ => inferInstanceAs (Decidable True)

/-- The name `a`. -/
def nameA : CStr := ⟨text "a", by decide⟩

/-- The name `ab`. -/
def nameAb : CStr := ⟨text "ab", by decide⟩

/-- The state after `ab` was created and deleted again: slot 1 is free and its
name field still holds `ab`. -/
def residueMachine : Machine :=
  (diskfsDelete (diskfsCreate (diskfsInit bareMachine).machine nameAb).machine nameAb).machine

/-- A slot that once held `ab` stores `a` as `ab`: the entry just created is not
found, and `diskfs_write` indexes `files[-1]`. -/
theorem createThenLookup_fails_after_longer_name :
    run step (diskfsInit bareMachine).machine [.create nameAb, .delete nameAb] =
        .ok residueMachine ∧
      ¬ CreateThenLookup residueMachine nameA ∧
      diskfsWrite residueMachine nameA (fun _ => 0) 0 = .error (.filesIndex (-1)) := by
  refine ⟨rfl, fun h => ?_, by rfl⟩
  have hopen : residueMachine.view.Opens nameA ⟨1, by decide⟩ := by decide +kernel
  have hlost : ¬ NameFits nameA (residueMachine.files ⟨1, by decide⟩).name := by decide +kernel
  obtain ⟨hret, hnone⟩ := makeEntry_lost fileKind hopen hlost
  obtain ⟨slot, _, hfound, _⟩ := h.create hret
  exact absurd (hnone.symm.trans hfound) (by simp)

/-! ## Unique names -/

/-- No two used slots have the same parent and the same stored name. -/
def UniqueNames (files : Files) : Prop :=
  ∀ i j, (files i).used ≠ 0 → (files j).used ≠ 0 → (files i).parent = (files j).parent →
    (files i).name.toCStr = (files j).name.toCStr → i = j

/-- The name of every used slot holds a NUL. -/
def NamesTerminated (files : Files) : Prop :=
  ∀ i, (files i).used ≠ 0 → ∃ nul, (files i).name nul = 0

/-- A deleted name is gone: after a successful `diskfs_delete(name)` the same
directory has no entry of that name. -/
def DeleteRemoves (m : Machine) : Prop :=
  ∀ name, (diskfsDelete m name).ret = 0 → diskfsExists (diskfsDelete m name).machine name = false

/-- What a run keeps about names. -/
structure NamesInv (files : Files) : Prop where
  terminated : NamesTerminated files
  unique : UniqueNames files

/-- Names stay unique when slots are given up or change only in other fields. -/
theorem NamesInv.of_fewer {files files' : Files} (h : NamesInv files)
    (hname : ∀ j, (files' j).name = (files j).name)
    (hparent : ∀ j, (files' j).parent = (files j).parent)
    (hused : ∀ j, (files' j).used ≠ 0 → (files j).used ≠ 0) : NamesInv files' := by
  constructor
  · intro i hi
    rw [hname]
    exact h.terminated i (hused i hi)
  · intro i j hi hj hij hstr
    rw [hparent, hparent] at hij
    rw [hname, hname] at hstr
    exact h.unique i j (hused i hi) (hused j hj) hij hstr

theorem NamesInv.store {v : View} (h : NamesInv v.files) (i : Slot) (data : Nat → UInt8)
    (size : Int32) : NamesInv (v.store i data size).files :=
  h.of_fewer (by simp) (by simp) (by simp)

theorem NamesInv.remove {v : View} (h : NamesInv v.files) (i : Slot) :
    NamesInv (v.remove i).files :=
  h.of_fewer (by simp) (by simp) (fun j hj => ((v.remove_used_ne_zero i j).mp hj).2)

/-- A used slot below the current directory whose stored name is `name` answers
to it. -/
theorem answers_of_toCStr {v : View} (hterm : NamesTerminated v.files) {name : CStr} {j : Slot}
    (hused : (v.files j).used ≠ 0) (hparent : (v.files j).parent = v.dir)
    (hname : (v.files j).name.toCStr = name.bytes) : Answers v.files name v.dir j := by
  obtain ⟨nul, hnul⟩ := hterm j hused
  exact ⟨hused, hparent, (nameMatches_iff_toCStr hnul).mpr hname⟩

/-- The stored name of a slot that answers to `name`. -/
theorem toCStr_of_answers {files : Files} (hterm : NamesTerminated files) {name : CStr}
    {parent : Int32} {j : Slot} (h : Answers files name parent j) :
    (files j).name.toCStr = name.bytes := by
  obtain ⟨nul, hnul⟩ := hterm j h.used
  exact (nameMatches_iff_toCStr hnul).mp h.name

/-- A new entry whose name fits collides with no entry of its directory: the
lookup before the insert would have found that entry. -/
theorem NamesInv.insert {v : View} (h : NamesInv v.files) (isDir : Int32) {name : CStr}
    {slot : Slot} (hopen : v.Opens name slot) (hfits : NameFits name (v.files slot).name) :
    NamesInv (v.insert isDir name slot).files := by
  have hstored : (newFile isDir name v.dir (v.files slot)).name.toCStr = name.bytes :=
    (toCStr_storeName_iff name _).mpr hfits
  have hfree : ∀ j, (v.files j).used ≠ 0 → (v.files j).parent = v.dir →
      (v.files j).name.toCStr ≠ name.bytes := fun j hused hparent hname =>
    findFile_none_iff.mp hopen.1 j (answers_of_toCStr h.terminated hused hparent hname)
  constructor
  · intro i hused
    by_cases hi : i = slot
    · subst hi
      rw [v.insert_self]
      exact ⟨⟨31, by decide⟩, storeName_last name (v.files i).name⟩
    · rw [v.insert_of_ne isDir name hi] at hused ⊢
      exact h.terminated i hused
  · intro i j hi hj hij hstr
    by_cases his : i = slot
    · by_cases hjs : j = slot
      · rw [his, hjs]
      · subst his
        rw [v.insert_self, v.insert_of_ne isDir name hjs] at hij hstr
        rw [v.insert_of_ne isDir name hjs] at hj
        exact absurd (hstr.symm.trans hstored) (hfree j hj hij.symm)
    · rw [v.insert_of_ne isDir name his] at hi hij hstr
      by_cases hjs : j = slot
      · subst hjs
        rw [v.insert_self] at hij hstr
        exact absurd (hstr.trans hstored) (hfree i hi hij)
      · rw [v.insert_of_ne isDir name hjs] at hj hij hstr
        exact h.unique i j hi hj hij hstr

/-- A call whose name fits keeps names terminated and unique. -/
theorem NamesInv.step {m m' : Machine} {c : Call} (h : NamesInv m.files) (hfits : CallFits m c)
    (hstep : DiskFs.step m c = .ok m') : NamesInv m'.files := by
  have hv : NamesInv m.view.files := h
  have key : ∀ v', Does m.view c v' → NamesInv v'.files := by
    intro v' hdoes
    cases hdoes with
    | nothing => exact hv
    | create hopen => exact hv.insert 0 hopen (hfits _ hopen)
    | mkdir hopen => exact hv.insert 1 hopen (hfits _ hopen)
    | write hfind _ => exact hv.store _ _ _
    | writeNew hopen _ _ => exact (hv.insert 0 hopen (hfits _ hopen)).store _ _ _
    | writeTooLarge hopen _ => exact hv.insert 0 hopen (hfits _ hopen)
    | delete hfind => exact hv.remove _
    | cdRoot => exact hv
    | cdUp _ _ _ => exact hv
    | cdDown _ _ => exact hv
  exact key m'.view (step_does hstep)

/-- With unique terminated names, deleting a name removes its only entry. -/
theorem NamesInv.deleteRemoves {m : Machine} (h : NamesInv m.files) : DeleteRemoves m := by
  intro name hret
  have hview := diskfsDelete_view m name
  cases hfind : m.view.lookup name with
  | none =>
      have hnone : findFile m.files name m.currentDir = none := hfind
      simp only [diskfsDelete, hnone] at hret
      exact absurd hret (by decide)
  | some i =>
      rw [hfind] at hview
      have hi := findFile_some hfind
      have hgone : (m.view.remove i).lookup name = none := by
        refine findFile_none_iff.mpr fun j hj => ?_
        obtain ⟨hne, hused⟩ := (m.view.remove_used_ne_zero i j).mp hj.used
        have hj' : Answers m.files name m.currentDir j :=
          ⟨hused, by simpa using hj.parent, by simpa using hj.name⟩
        have hjname := toCStr_of_answers h.terminated hj'
        have hiname := toCStr_of_answers h.terminated hi
        exact hne (h.unique j i hused hi.used (hj'.parent.trans hi.parent.symm)
          (hjname.trans hiname.symm))
      have : (diskfsDelete m name).machine.view.lookup name = none := by rw [hview, hgone]
      exact Option.isSome_eq_false_iff.mpr (Option.isNone_iff_eq_none.mpr this)

theorem namesInv_fresh {m : Machine} (h : Fresh m) : NamesInv m.files := by
  obtain ⟨files, hview⟩ := h.view
  have hfiles : m.files = freshFiles files := congrArg View.files hview
  have honly : ∀ i, (m.files i).used ≠ 0 → i = rootSlot := by
    intro i hi
    by_contra hne
    exact hi (hfiles ▸ freshFiles_unused files hne)
  constructor
  · intro i hi
    obtain rfl := honly i hi
    exact ⟨⟨1, by decide⟩, by simp [hfiles, freshFiles, CharArray.set]⟩
  · intro i j hi hj _ _
    rw [honly i hi, honly j hj]

/-- In a run from a fresh file system in which every entry is made under a name
that fits its slot, names are unique in every state and a deleted name is gone. -/
theorem uniqueNames_of_fitting_run {m : Machine} (hfresh : Fresh m) {calls : List Call}
    (hfits : Guarded step CallFits m calls) :
    Along step (fun m => UniqueNames m.files ∧ DeleteRemoves m) m calls := by
  have hrun : Along step (fun m => NamesInv m.files) m calls :=
    along_of_guarded (fun _ _ _ h hfits hstep => h.step hfits hstep) (namesInv_fresh hfresh) hfits
  exact hrun.mono fun _ h => ⟨h.unique, h.deleteRemoves⟩

theorem uniqueNames_of_fitting_run_two_entries :
    Along step (fun m => UniqueNames m.files ∧ DeleteRemoves m) (diskfsInit bareMachine).machine
      [.create nameA, .mkdir nameAb] := by
  refine uniqueNames_of_fitting_run fresh_bareMachine fun m₁ h₁ => ⟨by decide +kernel, ?_⟩
  obtain rfl := Except.ok.inj h₁
  exact fun m₂ _ => ⟨by decide +kernel, trivial⟩

/-- A name of 32 bytes. -/
def longName : CStr := ⟨List.replicate 32 97, by decide⟩

/-- Its first 31 bytes. -/
def shortened : CStr := ⟨List.replicate 31 97, by decide⟩

/-- The state after the 32-byte name was created twice. -/
def twinMachine : Machine :=
  (diskfsCreate (diskfsCreate (diskfsInit bareMachine).machine longName).machine longName).machine

/-- A 32-byte name is stored shortened and never found again, so it can be
created twice; deleting the shortened name then leaves its twin. -/
theorem uniqueNames_fails_for_long_name :
    run step (diskfsInit bareMachine).machine [.create longName, .create longName] =
        .ok twinMachine ∧
      ¬ UniqueNames twinMachine.files ∧ (diskfsDelete twinMachine shortened).ret = 0 ∧
      diskfsExists (diskfsDelete twinMachine shortened).machine shortened = true := by
  refine ⟨rfl, fun h => ?_, by decide +kernel, by decide +kernel⟩
  have htwins := h ⟨1, by decide⟩ ⟨2, by decide⟩ (by decide +kernel) (by decide +kernel)
    (by decide +kernel) (by decide +kernel)
  exact absurd htwins (by decide)

end FalastinOS.DiskFs
