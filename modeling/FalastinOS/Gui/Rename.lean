/-
  Gui/Rename.lean --- what a rename in the file manager does to the data.

  `fileman_keypress` renames a file by reading it, deleting it, and writing what it read
  under the new name, or creating an empty file if nothing was read.  No step looks at the
  result of the one before.  So the file is lost when the new name is taken by another entry,
  or when it does not fit the slot in which it is put (`NameFits`).

  `rename_cases` says what a rename leaves, and `rename_preserves_iff` when that is the file
  under its new name and everything else as before.
-/
import FalastinOS.DiskFs.Contents
import FalastinOS.Gui.FileManager

set_option autoImplicit false

namespace FalastinOS.Gui.FileManager

open FalastinOS.Foundation FalastinOS.Drivers FalastinOS.DiskFs

/-! ## What a rename leaves -/

/-- The table after the bytes read were written to slot `k`; nothing is written if there were
none. -/
def filled (v : View) (k : Slot) (bytes : List UInt8) : View :=
  if bytes = [] then v else v.store k (Shell.bytesAt bytes) (Int32.ofNat bytes.length)

section Filled

variable (v : View) (k l : Slot) (bytes : List UInt8)

/-- A field that a write does not touch. -/
theorem filled_field {β : Type} (field : File → β)
    (h : ∀ data size, field ((v.store k data size).files l) = field (v.files l)) :
    field ((filled v k bytes).files l) = field (v.files l) := by
  unfold filled
  split
  · rfl
  · exact h _ _

@[simp] theorem filled_name : ((filled v k bytes).files l).name = (v.files l).name :=
  filled_field v k l bytes File.name fun data size => v.store_name k l data size

@[simp] theorem filled_used : ((filled v k bytes).files l).used = (v.files l).used :=
  filled_field v k l bytes File.used fun data size => v.store_used k l data size

@[simp] theorem filled_isDir : ((filled v k bytes).files l).isDir = (v.files l).isDir :=
  filled_field v k l bytes File.isDir fun data size => v.store_isDir k l data size

@[simp] theorem filled_parent : ((filled v k bytes).files l).parent = (v.files l).parent :=
  filled_field v k l bytes File.parent fun data size => v.store_parent k l data size

theorem filled_of_ne {k l : Slot} (h : l ≠ k) : (filled v k bytes).files l = v.files l :=
  filled_field v k l bytes id fun data size => v.store_of_ne data size h

theorem answers_filled (name : CStr) (parent : Int32) :
    Answers (filled v k bytes).files name parent l ↔ Answers v.files name parent l := by
  constructor
  · rintro ⟨hused, hparent, hname⟩
    rw [filled_used] at hused
    rw [filled_parent] at hparent
    rw [filled_name] at hname
    exact ⟨hused, hparent, hname⟩
  · rintro ⟨hused, hparent, hname⟩
    refine ⟨?_, ?_, ?_⟩
    · rwa [filled_used]
    · rwa [filled_parent]
    · rwa [filled_name]

theorem contents_filled {bytes : List UInt8} (hne : bytes ≠ []) (hlen : bytes.length ≤ 8192) :
    ((filled v k bytes).files k).contents = bytes := by
  rw [filled, if_neg hne, contents_store v k _ (int32_ofNat_le hlen)]
  exact bytesOf_getD (by omega)

end Filled

variable {m : Machine} {name newName : CStr} {j : Slot}

theorem length_contents (f : File) : f.contents.length = f.size.toInt.toNat := by
  simp [File.contents]

/-- The whole file is read. -/
theorem diskfsRead_whole (hfind : m.view.lookup name = some j) (hsize : (m.files j).size ≤ 8192) :
    diskfsRead m name 8192 = .ok ⟨(m.files j).size, [], (m.files j).contents⟩ := by
  have hlookup : findFile m.files name m.currentDir = some j := hfind
  rw [diskfsRead, hlookup]
  dsimp only
  rw [if_neg (Int32.not_lt.mpr hsize), if_neg (Int32.not_lt.mpr hsize)]
  rfl

/-- The size of a sound record as the length of its contents. -/
theorem size_eq_ofNat {f : File} (hlow : 0 ≤ f.size) (hhigh : f.size ≤ 8192) :
    f.size = Int32.ofNat f.contents.length ∧ f.contents.length ≤ 8192 := by
  have hlow' : (0 : Int) ≤ f.size.toInt := Int32.le_iff_toInt_le.mp hlow
  have hhigh' : f.size.toInt ≤ 8192 := Int32.le_iff_toInt_le.mp hhigh
  have hlen := length_contents f
  refine ⟨?_, by omega⟩
  rw [← Int32.toInt_inj, Int32.toInt_ofNat_of_lt (by omega), hlen]
  omega

theorem size_pos_iff (f : File) : 0 < f.size ↔ f.contents ≠ [] := by
  rw [Int32.lt_iff_toInt_lt, ← List.length_pos_iff, length_contents]
  have hzero : (0 : Int32).toInt = 0 := rfl
  omega

/-- The table when the file in slot `j` was read and deleted. -/
theorem view_deleted (hfind : m.view.lookup name = some j) :
    (diskfsDelete m name).machine.view = m.view.remove j := by
  rw [diskfsDelete_view, hfind]

/-- A slot is free after the deletion. -/
theorem opens_of_lookup_none (hnone : (m.view.remove j).lookup newName = none) :
    ∃ slot, (m.view.remove j).Opens newName slot := by
  cases hfree : findFree (m.view.remove j).files with
  | some slot => exact ⟨slot, hnone, hfree⟩
  | none =>
      have hused := List.find?_eq_none.mp hfree j (List.mem_finRange j)
      simp [View.remove] at hused

theorem rename_of_nil (hfind : m.view.lookup name = some j) (hsize : (m.files j).size ≤ 8192)
    (hnil : (m.files j).contents = []) :
    rename m name newName = .ok (diskfsCreate (diskfsDelete m name).machine newName).machine := by
  have hpos : ¬ 0 < (m.files j).size := by
    rw [size_pos_iff, hnil]
    exact fun h => h rfl
  rw [rename, diskfsRead_whole hfind hsize]
  dsimp only
  rw [if_neg hpos]
  rfl

theorem rename_of_ne_nil (hfind : m.view.lookup name = some j)
    (hsize : 0 ≤ (m.files j).size ∧ (m.files j).size ≤ 8192) (hne : (m.files j).contents ≠ []) :
    rename m name newName =
      DiskFs.step (diskfsDelete m name).machine (.write newName
        (Shell.bytesAt (m.files j).contents) (Int32.ofNat (m.files j).contents.length)) := by
  rw [rename, diskfsRead_whole hfind hsize.2, ← (size_eq_ofNat hsize.1 hsize.2).1]
  dsimp only
  rw [if_pos ((size_pos_iff _).mpr hne)]

section Write

variable {d : Machine} {bytes : List UInt8}

/-- The write of a rename to an entry that exists. -/
theorem step_write_found {k : Slot} (hk : d.view.lookup newName = some k) (hne : bytes ≠ [])
    (hlen : bytes.length ≤ 8192) :
    ∃ m', DiskFs.step d (.write newName (Shell.bytesAt bytes) (Int32.ofNat bytes.length)) =
      .ok m' ∧ m'.view = filled d.view k bytes := by
  obtain ⟨r, hr, _, hview⟩ := diskfsWrite_found hk (int32_ofNat_le hlen) (Shell.bytesAt bytes)
  refine ⟨r.machine, by rw [DiskFs.step, Call.exec, hr], ?_⟩
  rw [filled, if_neg hne, hview]

/-- The write of a rename to a new entry whose name fits. -/
theorem step_write_new {slot : Slot} (hopen : d.view.Opens newName slot)
    (hfits : NameFits newName (d.files slot).name) (hne : bytes ≠ [])
    (hlen : bytes.length ≤ 8192) :
    ∃ m', DiskFs.step d (.write newName (Shell.bytesAt bytes) (Int32.ofNat bytes.length)) =
      .ok m' ∧ m'.view = filled (d.view.insert 0 newName slot) slot bytes := by
  obtain ⟨r, hr, hview⟩ :=
    diskfsWrite_new hopen hfits (Shell.bytesAt bytes) (int32_ofNat_le hlen)
  refine ⟨r.machine, by rw [DiskFs.step, Call.exec, hr], ?_⟩
  rw [filled, if_neg hne, hview]

end Write

/-- What a rename leaves.  Either the new name leads to an entry that is overwritten with what
was read, or a new entry is made; if its name does not fit, nothing can be written to it. -/
theorem rename_cases (hfind : m.view.lookup name = some j)
    (hsize : 0 ≤ (m.files j).size ∧ (m.files j).size ≤ 8192) (newName : CStr) :
    (∃ k m', (m.view.remove j).lookup newName = some k ∧ rename m name newName = .ok m' ∧
      m'.view = filled (m.view.remove j) k (m.files j).contents) ∨
    (∃ slot m', (m.view.remove j).Opens newName slot ∧
      (NameFits newName (m.files slot).name ∨ (m.files j).contents = []) ∧
      rename m name newName = .ok m' ∧
      m'.view = filled ((m.view.remove j).insert 0 newName slot) slot (m.files j).contents) ∨
    (∃ slot e, (m.view.remove j).Opens newName slot ∧ ¬ NameFits newName (m.files slot).name ∧
      (m.files j).contents ≠ [] ∧ rename m name newName = .error e) := by
  have hd := view_deleted hfind
  have hlen := (size_eq_ofNat hsize.1 hsize.2).2
  have hname : ∀ slot, ((diskfsDelete m name).machine.files slot).name = (m.files slot).name := by
    intro slot
    rw [← Machine.view_files (diskfsDelete m name).machine, hd, View.remove_name]
    rfl
  by_cases hnil : (m.files j).contents = []
  · rw [rename_of_nil hfind hsize.2 hnil]
    rcases makeEntry_cases fileKind (diskfsDelete m name).machine newName with
      ⟨_, hsame, hclosed⟩ | ⟨slot, hopen, _, hview⟩
    · rw [hd] at hclosed
      cases hlookup : (m.view.remove j).lookup newName with
      | none =>
          obtain ⟨slot, hopen⟩ := opens_of_lookup_none hlookup
          exact absurd hopen (hclosed slot)
      | some k =>
          refine .inl ⟨k, _, rfl, rfl, ?_⟩
          rw [diskfsCreate, hsame, hd, hnil]
          rfl
    · refine .inr (.inl ⟨slot, _, ?_, .inr hnil, rfl, ?_⟩)
      · rwa [hd] at hopen
      · rw [diskfsCreate, hview, hd, hnil]
        rfl
  · rw [rename_of_ne_nil hfind hsize hnil]
    cases hlookup : (m.view.remove j).lookup newName with
    | some k =>
        rw [← hd] at hlookup
        obtain ⟨m', hstep, hview⟩ := step_write_found hlookup hnil hlen
        rw [hd] at hview
        exact .inl ⟨k, m', rfl, hstep, hview⟩
    | none =>
        obtain ⟨slot, hopen⟩ := opens_of_lookup_none hlookup
        have hopen' := hopen
        rw [← hd] at hopen'
        by_cases hfits : NameFits newName (m.files slot).name
        · obtain ⟨m', hstep, hview⟩ := step_write_new hopen' (by rwa [hname]) hnil hlen
          rw [hd] at hview
          exact .inr (.inl ⟨slot, m', hopen, .inl hfits, hstep, hview⟩)
        · obtain ⟨e, he⟩ := diskfsWrite_error_of_not_fits hopen' (by rwa [hname])
            (Shell.bytesAt (m.files j).contents) (int32_ofNat_le hlen)
          refine .inr (.inr ⟨slot, e, hopen, hfits, hnil, ?_⟩)
          rw [DiskFs.step, Call.exec, he]

/-! ## Renaming without a loss -/

/-- The selected entry is the file in slot `i` of the current directory. -/
structure Selects (f : FileManager) (m : Machine) (i : Slot) : Prop where
  used : (m.files i).used ≠ 0
  parent : (m.files i).parent = m.currentDir
  isDir : (m.files i).isDir = 0
  name : f.entry.name = (m.files i).name
  entryIsDir : f.entry.isDir = 0

/-- `n` was typed at the prompt for a new name. -/
structure Prompts (f : FileManager) (n : CStr) : Prop where
  mode : f.inputMode = .rename
  input : f.inputBuf = n.bytes
  length : 1 ≤ n.length ∧ n.length ≤ 31
  printable : ∀ b ∈ n.bytes, 32 ≤ b ∧ b ≤ 126

/-- An entry keeps its name, kind, place and content. -/
structure Keeps (f f' : File) : Prop where
  used : f'.used ≠ 0
  name : f'.name = f.name
  isDir : f'.isDir = f.isDir
  parent : f'.parent = f.parent
  contents : f'.contents = f.contents

/-- The file in slot `i` is now called `n`, and nothing else changed. -/
structure Renamed (v : View) (i : Slot) (n : CStr) (v' : View) : Prop where
  gone : n ≠ nameOf (v.files i).name → ∀ k, ¬ Answers v'.files (nameOf (v.files i).name) v.dir k
  moved : ∃ k, Answers v'.files n v.dir k ∧ (v'.files k).isDir = 0 ∧
    (v'.files k).contents = (v.files i).contents
  others : ∀ k, k ≠ i → (v.files k).used ≠ 0 → Keeps (v.files k) (v'.files k)

/-- The key left the table as it was, or it renamed the file. -/
def Preserves (f : FileManager) (m : Machine) (i : Slot) (n : CStr) : Prop :=
  ∃ m' f', f.keypress m 10 = .ok (m', f') ∧
    (m'.files = m.files ∨ Renamed m.view i n m'.view)

/-- The rename changes nothing: slot `j` is given up, it is the first free one, and what is put
into it is the empty file that was there, because its name starts with the new one. -/
structure Restores (v : View) (j : Slot) (n : CStr) : Prop where
  opens : (v.remove j).Opens n j
  isDir : (v.files j).isDir = 0
  empty : (v.files j).contents = []
  starts : ∀ k, k.val < n.length → (v.files j).name k = n.byte k.val

/-- The rename of slot `i` to `n` loses nothing. -/
structure Safe (v : View) (i : Slot) (n : CStr) : Prop where
  fits : FitsFreeSlot (v.remove i) n
  alone : n = nameOf (v.files i).name ∨ (v.remove i).lookup (nameOf (v.files i).name) = none
  target : ∀ k, (v.remove i).lookup n = some k →
    ((v.files i).contents ≠ [] → (v.files k).contents = (v.files i).contents) ∧
    ∃ l, Answers (v.remove i).files n v.dir l ∧ (v.files l).isDir = 0 ∧
      (v.files l).contents = (v.files i).contents

/-- The rename restores the first entry of that name, or the file is this entry and its rename
is safe. -/
def RenameSafe (v : View) (i : Slot) (n : CStr) : Prop :=
  ∃ j, v.lookup (nameOf (v.files i).name) = some j ∧ (Restores v j n ∨ (j = i ∧ Safe v i n))

theorem Keeps.refl {f : File} (h : f.used ≠ 0) : Keeps f f := ⟨h, rfl, rfl, rfl, rfl⟩

section Tables

variable {v : View} {i j k l slot : Slot} {n : CStr} {bytes : List UInt8}

theorem answers_remove (v : View) (j l : Slot) (name : CStr) (parent : Int32) :
    Answers (v.remove j).files name parent l ↔ l ≠ j ∧ Answers v.files name parent l := by
  constructor
  · rintro ⟨hused, hparent, hname⟩
    obtain ⟨hne, hused'⟩ := (v.remove_used_ne_zero j l).mp hused
    rw [View.remove_parent] at hparent
    rw [View.remove_name] at hname
    exact ⟨hne, hused', hparent, hname⟩
  · rintro ⟨hne, hused, hparent, hname⟩
    refine ⟨(v.remove_used_ne_zero j l).mpr ⟨hne, hused⟩, ?_, ?_⟩
    · rwa [View.remove_parent]
    · rwa [View.remove_name]

/-- A write of what is there already. -/
theorem contents_filled_same (h : bytes ≠ [] → (v.files k).contents = bytes)
    (hlen : bytes.length ≤ 8192) :
    ((filled v k bytes).files l).contents = (v.files l).contents := by
  by_cases hlk : l = k
  · by_cases hne : bytes = []
    · rw [filled, if_pos hne]
    · rw [hlk, contents_filled v k hne hlen, h hne]
  · rw [filled_of_ne v bytes hlk]

/-- The name leads to another entry: nothing is lost if that is one with the same content. -/
theorem overwrite_preserves_iff (hj : v.lookup (nameOf (v.files i).name) = some j)
    (hk : (v.remove j).lookup n = some k) (hlen : (v.files j).contents.length ≤ 8192) :
    ((filled (v.remove j) k (v.files j).contents).files = v.files ∨
      Renamed v i n (filled (v.remove j) k (v.files j).contents)) ↔ j = i ∧ Safe v i n := by
  have hjused := (findFile_some hj).used
  obtain ⟨hkj, hkanswers⟩ := (answers_remove v j k n v.dir).mp (findFile_some hk)
  have hgone : ((filled (v.remove j) k (v.files j).contents).files j).used = 0 := by
    rw [filled_used]
    simp [View.remove]
  constructor
  · rintro (hsame | hrenamed)
    · rw [hsame] at hgone
      exact absurd hgone hjused
    · obtain rfl : j = i := by
        by_contra hne
        exact (hrenamed.others j hne hjused).used hgone
      refine ⟨rfl, fun slot hopen => absurd (hopen.1.symm.trans hk) (by simp), ?_, fun k' hk' => ?_⟩
      · by_cases hn : n = nameOf (v.files j).name
        · exact .inl hn
        · refine .inr (findFile_none_iff.mpr fun l hl => hrenamed.gone hn l ?_)
          exact (answers_filled ..).mpr hl
      · obtain rfl : k = k' := Option.some.inj (hk.symm.trans hk')
        refine ⟨fun hne => ?_, ?_⟩
        · rw [← (hrenamed.others k hkj hkanswers.used).contents, contents_filled _ _ hne hlen]
        · obtain ⟨l, hl, hdir, hcontents⟩ := hrenamed.moved
          have hl' := (answers_filled ..).mp hl
          obtain ⟨hlj, hlanswers⟩ := (answers_remove ..).mp hl'
          have hkeeps := hrenamed.others l hlj hlanswers.used
          exact ⟨l, hl', hkeeps.isDir ▸ hdir, hkeeps.contents ▸ hcontents⟩
  · rintro ⟨rfl, hsafe⟩
    obtain ⟨hfirst, l, hl, hdir, hcontents⟩ := hsafe.target k hk
    have hother : ∀ l, l ≠ j → (v.remove j).files l = v.files l := fun l hne => v.remove_of_ne hne
    have hsame : ∀ l, ((filled (v.remove j) k (v.files j).contents).files l).contents =
        ((v.remove j).files l).contents := fun l =>
      contents_filled_same (fun hne => by rw [hother k hkj]; exact hfirst hne) hlen
    refine .inr ⟨fun hn l' hl' => ?_, ⟨l, (answers_filled ..).mpr hl, ?_, ?_⟩,
      fun l' hne hused => ?_⟩
    · have hnone := hsafe.alone.resolve_left hn
      exact findFile_none_iff.mp hnone l' ((answers_filled ..).mp hl')
    · rw [filled_isDir, View.remove_isDir, hdir]
    · rw [hsame, hother l ((answers_remove ..).mp hl).1, hcontents]
    · refine ⟨?_, ?_, ?_, ?_, ?_⟩
      · rwa [filled_used, hother l' hne]
      · rw [filled_name, hother l' hne]
      · rw [filled_isDir, hother l' hne]
      · rw [filled_parent, hother l' hne]
      · rw [hsame, hother l' hne]

/-- The table with a new entry in `slot`, filled. -/
theorem made_of_ne (v : View) (n : CStr) (bytes : List UInt8) (h : l ≠ slot) :
    (filled (v.insert 0 n slot) slot bytes).files l = v.files l := by
  rw [filled_of_ne _ _ h, v.insert_of_ne 0 n h]

theorem contents_made (v : View) (n : CStr) (slot : Slot) (hlen : bytes.length ≤ 8192) :
    ((filled (v.insert 0 n slot) slot bytes).files slot).contents = bytes := by
  by_cases hne : bytes = []
  · rw [filled, if_pos hne, v.insert_self, hne]
    rfl
  · exact contents_filled _ _ hne hlen

theorem answers_made {w : View} (hopen : w.Opens n slot) :
    Answers (filled (w.insert 0 n slot) slot bytes).files n w.dir l ↔
      l = slot ∧ NameFits n (w.files slot).name := by
  rw [answers_filled, answers_insert 0 hopen]

/-- Storing a name over one that starts with it changes nothing. -/
theorem storeName_eq_self_iff {a : CharArray maxFilename} (hend : a ⟨31, by decide⟩ = 0)
    (hlen : n.length ≤ 31) :
    storeName n a = a ↔ ∀ k, k.val < n.length → a k = n.byte k.val := by
  constructor
  · intro h k hk
    rw [← h, storeName_apply, if_neg (by omega), if_pos hk]
  · intro h
    funext k
    rw [storeName_apply]
    split
    · rename_i hk
      rw [← hend]
      exact congrArg a (Fin.ext hk.symm)
    · split
      · rename_i hk
        exact (h k hk).symm
      · rfl

/-- An entry that is made anew where it was, with a name that starts with the new one. -/
theorem made_eq_self_iff (hj : Answers v.files (nameOf (v.files i).name) v.dir j)
    (hend : (v.files j).name ⟨31, by decide⟩ = 0) (hflag : (v.files j).used = 1)
    (hsize : 0 ≤ (v.files j).size) (hnil : (v.files j).contents = []) (hlen : n.length ≤ 31) :
    ((v.remove j).insert 0 n j).files = v.files ↔
      (v.files j).isDir = 0 ∧ ∀ k, k.val < n.length → (v.files j).name k = n.byte k.val := by
  rw [← storeName_eq_self_iff hend hlen]
  have hself : ((v.remove j).insert 0 n j).files j =
      { v.files j with
        name := storeName n (v.files j).name, used := 1, isDir := 0, parent := v.dir,
        size := 0 } := by
    rw [View.insert_self, newFile, View.remove]
    simp
  constructor
  · intro hsame
    have hrecord := hself.symm.trans (congrFun hsame j)
    exact ⟨(congrArg File.isDir hrecord).symm, congrArg File.name hrecord⟩
  · rintro ⟨hdir, hname⟩
    funext l
    by_cases hl : l = j
    · have hpos : ¬ 0 < (v.files j).size := fun h => (size_pos_iff _).mp h hnil
      have hzero : (v.files j).size = 0 := Int32.le_antisymm (Int32.not_lt.mp hpos) hsize
      have hrecord : v.files j = ⟨(v.files j).name, (v.files j).data, (v.files j).size,
          (v.files j).used, (v.files j).isDir, (v.files j).parent⟩ := rfl
      rw [hzero, hflag, hdir, hj.parent] at hrecord
      rw [hl, hself, hname]
      exact hrecord.symm
    · rw [View.insert_of_ne _ 0 n hl, v.remove_of_ne hl]

/-- If the file itself keeps the new name from being free, it is the one that was deleted. -/
theorem eq_of_same_name (hi : Answers v.files (nameOf (v.files i).name) v.dir i)
    (hopen : (v.remove j).Opens n slot) (hn : n = nameOf (v.files i).name) : j = i := by
  by_contra hne
  refine findFile_none_iff.mp hopen.1 i ((answers_remove ..).mpr ⟨Ne.symm hne, ?_⟩)
  rw [hn]
  exact hi

/-- A slot in which an entry is left is not the free one. -/
theorem ne_free_slot (hopen : (v.remove j).Opens n slot) (hlj : l ≠ j)
    (hl : (v.files l).used ≠ 0) : l ≠ slot := by
  rintro rfl
  have hfree := findFree_some hopen.2
  rw [v.remove_of_ne hlj] at hfree
  exact hl hfree

theorem fitsFreeSlot_of_fits (hopen : (v.remove j).Opens n slot)
    (hfits : NameFits n (v.files slot).name) : FitsFreeSlot (v.remove j) n := by
  intro slot' hopen'
  obtain rfl : slot' = slot := Option.some.inj (hopen'.2.symm.trans hopen.2)
  rwa [View.remove_name]

/-- The table is as it was: the entry went back to its slot, under its name or under one that
its name starts with. -/
theorem safe_of_unchanged (hi : Answers v.files (nameOf (v.files i).name) v.dir i)
    (hj : v.lookup (nameOf (v.files i).name) = some j)
    (hend : ∀ k, (v.files k).name ⟨31, by decide⟩ = 0) (hflag : (v.files j).used = 1)
    (hsize : 0 ≤ (v.files j).size) (hn : n.length ≤ 31) (hopen : (v.remove j).Opens n slot)
    (hfits : NameFits n (v.files slot).name ∨ (v.files j).contents = [])
    (hsame : (filled ((v.remove j).insert 0 n slot) slot (v.files j).contents).files = v.files) :
    Restores v j n ∨ (j = i ∧ Safe v i n) := by
  have hjanswers := findFile_some hj
  obtain rfl : slot = j := by
    by_contra hne
    have hused : (v.files slot).used = 1 := by
      rw [← hsame, filled_used, View.insert_self]
      rfl
    refine ne_free_slot hopen hne ?_ rfl
    rw [hused]
    decide
  by_cases hnil : (v.files slot).contents = []
  · rw [hnil, filled, if_pos rfl] at hsame
    obtain ⟨hdir, hstarts⟩ :=
      (made_eq_self_iff hjanswers (hend slot) hflag hsize hnil hn).mp hsame
    exact .inl ⟨hopen, hdir, hnil, hstarts⟩
  · have hfits' := hfits.resolve_right hnil
    have hname : (v.files slot).name = storeName n (v.files slot).name := by
      nth_rewrite 1 [← hsame]
      rw [filled_name, View.insert_self, newFile, View.remove_name]
    have hold : n = nameOf (v.files i).name := by
      have hstored := (toCStr_storeName_iff n _).mpr hfits'
      rw [← hname, (nameMatches_iff_toCStr (hend slot)).mp hjanswers.name] at hstored
      exact (CStr.eq_of_bytes hstored).symm
    obtain rfl := eq_of_same_name hi hopen hold
    exact .inr ⟨rfl, fitsFreeSlot_of_fits hopen hfits', .inl hold,
      fun k hk => absurd (hopen.1.symm.trans hk) (by simp)⟩

/-- The file was renamed: it is the one that was deleted, and its new name fits. -/
theorem safe_of_renamed (hi : Answers v.files (nameOf (v.files i).name) v.dir i)
    (hopen : (v.remove j).Opens n slot)
    (hrenamed : Renamed v i n (filled ((v.remove j).insert 0 n slot) slot bytes)) :
    j = i ∧ Safe v i n := by
  obtain ⟨l, hl, _⟩ := hrenamed.moved
  obtain ⟨_, hfits⟩ := (answers_made hopen).mp hl
  rw [View.remove_name] at hfits
  -- an entry that is left answers to its name as before
  have hleft : ∀ l, Answers (v.remove j).files (nameOf (v.files i).name) v.dir l →
      Answers (filled ((v.remove j).insert 0 n slot) slot bytes).files
        (nameOf (v.files i).name) v.dir l := by
    intro l hl
    obtain ⟨hlj, hlanswers⟩ := (answers_remove ..).mp hl
    have hsame := made_of_ne (v.remove j) n bytes (ne_free_slot hopen hlj hlanswers.used)
    exact ⟨hsame ▸ hl.used, hsame ▸ hl.parent, hsame ▸ hl.name⟩
  obtain rfl : j = i := by
    by_contra hne
    by_cases hn : n = nameOf (v.files i).name
    · exact hne (eq_of_same_name hi hopen hn)
    · exact hrenamed.gone hn i (hleft i ((answers_remove ..).mpr ⟨Ne.symm hne, hi⟩))
  refine ⟨rfl, fitsFreeSlot_of_fits hopen hfits, ?_,
    fun k hk => absurd (hopen.1.symm.trans hk) (by simp)⟩
  by_cases hn : n = nameOf (v.files j).name
  · exact .inl hn
  · exact .inr (findFile_none_iff.mpr fun l hl => hrenamed.gone hn l (hleft l hl))

/-- A safe rename to a free name. -/
theorem renamed_of_safe (hlen : (v.files i).contents.length ≤ 8192)
    (hopen : (v.remove i).Opens n slot) (hsafe : Safe v i n) :
    Renamed v i n (filled ((v.remove i).insert 0 n slot) slot (v.files i).contents) := by
  have hfits := hsafe.fits slot hopen
  have hnew : Answers (filled ((v.remove i).insert 0 n slot) slot (v.files i).contents).files n
      v.dir slot := (answers_made hopen).mpr ⟨rfl, hfits⟩
  refine ⟨fun hn l hl => ?_, ⟨slot, hnew, ?_, contents_made _ _ _ hlen⟩, fun l hli hused => ?_⟩
  · have hnone := hsafe.alone.resolve_left hn
    by_cases hls : l = slot
    · have hstored := (toCStr_storeName_iff n _).mpr hfits
      have hname := hl.name
      rw [hls, filled_name, View.insert_self, newFile,
        nameMatches_iff_toCStr (storeName_last n _), hstored] at hname
      exact hn (CStr.eq_of_bytes hname)
    · have hsame := made_of_ne (v.remove i) n (v.files i).contents hls
      refine findFile_none_iff.mp hnone l ⟨hsame ▸ hl.used, hsame ▸ hl.parent, hsame ▸ hl.name⟩
  · rw [filled_isDir, View.insert_self]
    rfl
  · rw [made_of_ne _ _ _ (ne_free_slot hopen hli hused), v.remove_of_ne hli]
    exact .refl hused

/-- The name is free: nothing is lost if the file was renamed or went back to its place. -/
theorem make_preserves_iff (hi : Answers v.files (nameOf (v.files i).name) v.dir i)
    (hj : v.lookup (nameOf (v.files i).name) = some j)
    (hend : ∀ k, (v.files k).name ⟨31, by decide⟩ = 0) (hflag : (v.files j).used = 1)
    (hsize : 0 ≤ (v.files j).size ∧ (v.files j).size ≤ 8192) (hn : n.length ≤ 31)
    (hopen : (v.remove j).Opens n slot)
    (hfits : NameFits n (v.files slot).name ∨ (v.files j).contents = []) :
    ((filled ((v.remove j).insert 0 n slot) slot (v.files j).contents).files = v.files ∨
      Renamed v i n (filled ((v.remove j).insert 0 n slot) slot (v.files j).contents)) ↔
      Restores v j n ∨ (j = i ∧ Safe v i n) := by
  constructor
  · rintro (hsame | hrenamed)
    · exact safe_of_unchanged hi hj hend hflag hsize.1 hn hopen hfits hsame
    · exact .inr (safe_of_renamed hi hopen hrenamed)
  · rintro (hrestores | ⟨rfl, hsafe⟩)
    · obtain rfl : slot = j := Option.some.inj (hopen.2.symm.trans hrestores.opens.2)
      rw [hrestores.empty, filled, if_pos rfl]
      exact .inl ((made_eq_self_iff (findFile_some hj) (hend slot) hflag hsize.1
        hrestores.empty hn).mpr ⟨hrestores.isDir, hrestores.starts⟩)
    · exact .inr (renamed_of_safe (size_eq_ofNat hsize.1 hsize.2).2 hopen hsafe)

end Tables

/-! ## The key -/

variable {f : FileManager} {i : Slot} {n : CStr}

theorem input_of_prompts (h : f.Prompts n) : f.input = n := by
  refine CStr.eq_of_bytes ?_
  have hall : ∀ b ∈ n.bytes, decide (b ≠ 0) = true := by
    intro b hb
    rw [decide_eq_true_eq]
    exact fun hzero => n.noNul (hzero ▸ hb)
  have hbytes : f.input.bytes = f.inputBuf.takeWhile (· ≠ 0) := rfl
  rw [hbytes, h.input]
  exact List.takeWhile_eq_self_iff.mpr hall

theorem renames_of_prompts (hselects : f.Selects m i) (h : f.Prompts n) : f.Renames 10 := by
  refine ⟨h.mode, rfl, ?_, hselects.entryIsDir⟩
  rw [h.input]
  exact h.length.1

/-- Enter at the prompt is the rename. -/
theorem preserves_iff (hselects : f.Selects m i) (h : f.Prompts n) :
    f.Preserves m i n ↔ ∃ m', rename m (nameOf (m.files i).name) n = .ok m' ∧
      (m'.files = m.files ∨ Renamed m.view i n m'.view) := by
  have hname : f.name = nameOf (m.files i).name := congrArg nameOf hselects.name
  unfold Preserves
  rw [keypress_renames (renames_of_prompts hselects h), hname, input_of_prompts h]
  simp only [refreshed_ok]
  constructor
  · rintro ⟨m', f', ⟨hrename, _⟩, hpreserves⟩
    exact ⟨m', hrename, hpreserves⟩
  · rintro ⟨m', hrename, hpreserves⟩
    exact ⟨m', _, ⟨hrename, rfl⟩, hpreserves⟩

theorem outcome_iff {m' : Machine} {w : View} (hrename : rename m name n = .ok m')
    (hview : m'.view = w) :
    (∃ m'', rename m name n = .ok m'' ∧ (m''.files = m.files ∨ Renamed m.view i n m''.view)) ↔
      (w.files = m.view.files ∨ Renamed m.view i n w) := by
  subst hview
  rw [hrename]
  simp only [Except.ok.injEq, exists_eq_left', Machine.view_files]

/-- A rename loses nothing exactly if it is safe. -/
theorem rename_iff_safe (hm : Reachable m)
    (hi : Answers m.files (nameOf (m.files i).name) m.currentDir i) (hn : n.length ≤ 31) :
    (∃ m', rename m (nameOf (m.files i).name) n = .ok m' ∧
      (m'.files = m.files ∨ Renamed m.view i n m'.view)) ↔ RenameSafe m.view i n := by
  have hrep := hm.representation
  cases hj : m.view.lookup (nameOf (m.files i).name) with
  | none => exact absurd hi (findFile_none_iff.mp hj i)
  | some j =>
      have hused := (findFile_some hj).used
      have hsize := hrep.size j hused
      have hsafe : RenameSafe m.view i n ↔ Restores m.view j n ∨ (j = i ∧ Safe m.view i n) := by
        unfold RenameSafe
        rw [m.view_files, hj]
        simp
      rw [hsafe]
      rcases rename_cases hj hsize n with ⟨k, m', hk, hrename, hview⟩ |
        ⟨slot, m', hopen, hfits, hrename, hview⟩ | ⟨slot, e, hopen, hfits, hne, hrename⟩
      · have hnot : ¬ Restores m.view j n := fun hrestores =>
          absurd (hrestores.opens.1.symm.trans hk) (by simp)
        rw [outcome_iff hrename hview, or_iff_right hnot]
        exact overwrite_preserves_iff hj hk (size_eq_ofNat hsize.1 hsize.2).2
      · rw [outcome_iff hrename hview]
        exact make_preserves_iff hi hj hrep.nameEnd (hm.flagged j hused) hsize hn hopen hfits
      · rw [hrename]
        constructor
        · rintro ⟨m', hm', _⟩
          exact nomatch hm'
        · rintro (hrestores | ⟨rfl, hsafe'⟩)
          · exact absurd hrestores.empty hne
          · have hfits' := hsafe'.fits slot hopen
            rw [View.remove_name] at hfits'
            exact absurd hfits' hfits

/-- In a reachable state the selected file answers to its name. -/
theorem answers_of_selects (hm : Reachable m) (hselects : f.Selects m i) :
    Answers m.files (nameOf (m.files i).name) m.currentDir i :=
  ⟨hselects.used, hselects.parent,
    (nameMatches_iff_toCStr (hm.representation.nameEnd i)).mpr rfl⟩

/-- In every reachable state, the rename of the selected file to the name at the prompt loses
nothing exactly if it is safe. -/
theorem rename_preserves_iff (hm : Reachable m) (hselects : f.Selects m i) (h : f.Prompts n) :
    f.Preserves m i n ↔ RenameSafe m.view i n := by
  rw [preserves_iff hselects h]
  exact rename_iff_safe hm (answers_of_selects hm hselects) h.length.2

/-! ## What can be typed -/

/-- A key, as a step of the machine and the file manager. -/
def press (s : Machine × FileManager) (c : UInt8) : Except DiskFs.Fault (Machine × FileManager) :=
  s.2.keypress s.1 c

variable {mode : InputMode} {start : List UInt8}

theorem press_prompt (hmode : mode ≠ .normal) (c : UInt8) :
    press (m, f.prompt mode start) c = (f.prompt mode start).promptKey m c :=
  if_neg hmode

/-- Backspaces empty the prompt. -/
theorem run_press_backspace (hmode : mode ≠ .normal) {count : Nat}
    (hcount : start.length ≤ count) :
    run press (m, f.prompt mode start) (List.replicate count 8) = .ok (m, f.prompt mode []) := by
  induction count generalizing start with
  | zero =>
      rw [List.length_eq_zero_iff.mp (Nat.le_zero.mp hcount)]
      rfl
  | succ count ih =>
      have hkey : press (m, f.prompt mode start) 8 = .ok (m, f.prompt mode start.dropLast) := by
        rw [press_prompt hmode, promptKey, if_neg (by decide), if_pos rfl]
        rfl
      have hdrop : start.dropLast.length ≤ count := by
        rw [List.length_dropLast]
        omega
      rw [List.replicate_succ, run, hkey]
      exact ih hdrop

/-- Printable keys are appended while there is room. -/
theorem run_press_printable (hmode : mode ≠ .normal) {keys : List UInt8}
    (hkeys : ∀ b ∈ keys, 32 ≤ b ∧ b ≤ 126) (hroom : start.length + keys.length ≤ 31) :
    run press (m, f.prompt mode start) keys = .ok (m, f.prompt mode (start ++ keys)) := by
  induction keys generalizing start with
  | nil =>
      rw [List.append_nil]
      rfl
  | cons c rest ih =>
      rw [List.length_cons] at hroom
      have hc := hkeys c List.mem_cons_self
      have hnewline : c ≠ 10 := by
        rintro rfl
        exact absurd hc.1 (by decide)
      have hback : c ≠ 8 := by
        rintro rfl
        exact absurd hc.1 (by decide)
      have hfits : start.length < 31 := by omega
      have hkey : press (m, f.prompt mode start) c = .ok (m, f.prompt mode (start ++ [c])) := by
        rw [press_prompt hmode, promptKey, if_neg hnewline, if_neg hback]
        exact if_pos ⟨hc.1, hc.2, hfits⟩
      have hrest : (start ++ [c]).length + rest.length ≤ 31 := by
        rw [List.length_append, List.length_singleton]
        omega
      rw [run, hkey, List.append_cons start c rest]
      exact ih (fun b hb => hkeys b (List.mem_cons_of_mem c hb)) hrest

/-- Every name of 1 to 31 printable characters can be typed at the prompt for a new name. -/
theorem prompts_typed (hroom : start.length ≤ 31) (hlen : 1 ≤ n.length ∧ n.length ≤ 31)
    (hprintable : ∀ b ∈ n.bytes, 32 ≤ b ∧ b ≤ 126) :
    run press (m, f.prompt .rename start) (List.replicate 31 8 ++ n.bytes) =
        .ok (m, f.prompt .rename n.bytes) ∧ (f.prompt .rename n.bytes).Prompts n := by
  have hmode : InputMode.rename ≠ .normal := by decide
  have hempty : ([] : List UInt8).length + n.bytes.length ≤ 31 := by
    rw [List.length_nil, Nat.zero_add]
    exact hlen.2
  refine ⟨?_, rfl, rfl, hlen, hprintable⟩
  rw [run_append (run_press_backspace hmode hroom), run_press_printable hmode hprintable hempty,
    List.nil_append]

/-- The first file is selected, and the prompt has the new name `n`. -/
def renamePrompt (m : Machine) (n : CStr) : FileManager :=
  (boot.refreshEntries m).prompt .rename n.bytes

/-- Slot 1, where the first file is. -/
def slotOne : Slot := ⟨1, by decide⟩

theorem reachable_written : Reachable writtenReply.machine := by
  have hfresh : Reachable (diskfsInit bareMachine).machine := .fresh ⟨rfl, rfl⟩ (Or.inl rfl)
  exact hfresh.call (c := .write nameA (fun k => UInt8.ofNat (104 + k)) 2)
    (show (0 : Int32) ≤ 2 by decide) rfl

theorem selects_renamePrompt {m : Machine} (n : CStr)
    (hlisted : (renamePrompt m n).shown = some slotOne)
    (hfile : (m.files slotOne).isDir = 0) (hentry : (renamePrompt m n).entry.isDir = 0) :
    (renamePrompt m n).Selects m slotOne := by
  obtain ⟨hused, hparent, hname⟩ := accurate_refreshEntries m boot 0 slotOne hlisted
  exact ⟨hused, hparent, hfile, hname, hentry⟩

/-- The name `b`. -/
def nameB : CStr := ⟨text "b", by decide⟩

/-- The file `a` can be renamed to `b`. -/
theorem rename_preserves_iff_written :
    Reachable writtenReply.machine ∧
      (renamePrompt writtenReply.machine nameB).Preserves writtenReply.machine slotOne nameB := by
  have hselects : (renamePrompt writtenReply.machine nameB).Selects writtenReply.machine slotOne :=
    selects_renamePrompt nameB (by decide +kernel) (by decide +kernel) (by decide +kernel)
  have hprompts : (renamePrompt writtenReply.machine nameB).Prompts nameB :=
    ⟨rfl, rfl, by decide, by decide +kernel⟩
  have hfree : (writtenReply.machine.view.remove slotOne).lookup nameB = none := by decide +kernel
  refine ⟨reachable_written, (rename_preserves_iff reachable_written hselects hprompts).mpr ?_⟩
  refine ⟨slotOne, by decide +kernel, .inr ⟨rfl, ?_, .inr (by decide +kernel), fun k hk => ?_⟩⟩
  · exact show FitsFreeSlot _ _ by decide +kernel
  · exact absurd (hfree.symm.trans hk) (by simp)

/-- A machine with a file `a` and a directory `ab`. -/
def dirMachine : Machine := (diskfsMkdir writtenReply.machine nameAb).machine

theorem reachable_dirMachine : Reachable dirMachine :=
  reachable_written.call (c := .mkdir nameAb) trivial rfl

/-- The file `a` is renamed to `ab`, the name of a directory: it is deleted, and its bytes go
into the record of the directory. -/
theorem not_preserves_directory :
    Reachable dirMachine ∧ (renamePrompt dirMachine nameAb).Selects dirMachine slotOne ∧
      (renamePrompt dirMachine nameAb).Prompts nameAb ∧
      ¬ (renamePrompt dirMachine nameAb).Preserves dirMachine slotOne nameAb := by
  have hselects : (renamePrompt dirMachine nameAb).Selects dirMachine slotOne :=
    selects_renamePrompt nameAb (by decide +kernel) (by decide +kernel) (by decide +kernel)
  have hprompts : (renamePrompt dirMachine nameAb).Prompts nameAb :=
    ⟨rfl, rfl, by decide, by decide +kernel⟩
  refine ⟨reachable_dirMachine, hselects, hprompts, ?_⟩
  rw [preserves_iff hselects hprompts, rename_iff_safe reachable_dirMachine
    (answers_of_selects reachable_dirMachine hselects) hprompts.length.2]
  have htarget : (dirMachine.view.remove slotOne).lookup nameAb = some ⟨2, by decide⟩ := by
    decide +kernel
  rintro ⟨j, hj, hrestores | ⟨rfl, hsafe⟩⟩
  · obtain rfl : slotOne = j := by
      have hfirst : dirMachine.view.lookup (nameOf (dirMachine.files slotOne).name) =
          some slotOne := by decide +kernel
      exact Option.some.inj (hfirst.symm.trans hj)
    exact absurd (hrestores.opens.1.symm.trans htarget) (by simp)
  · obtain ⟨_, l, hl, hdir, _⟩ := hsafe.target _ htarget
    have honly : ∀ l : Slot, (dirMachine.files l).isDir = 0 →
        nameMatches nameAb (dirMachine.files l).name = false := by decide +kernel
    have hname := hl.name
    rw [View.remove_name] at hname
    exact absurd (hname.symm.trans (honly l hdir)) (by decide)

end FalastinOS.Gui.FileManager
