/-
  DiskFs/Tree.lean --- the directory tree.

  `diskfs_delete` does not look for children, so a used slot may have a parent
  that is free, or one that was freed and reused.  What every run keeps all the
  same is `TreeInv`: the links between used slots have no cycle, and the current
  directory hangs on the root by used directories.  The argument for a delete is
  that the deleted entry is a child of the current directory; were it also an
  ancestor, there would be a cycle already.

  `representation_of_reachable` adds the bounds on the fields of a record.
  `noOrphans_iff_deletes_leaves` says which runs keep the whole table a tree.
-/
import FalastinOS.DiskFs.Names
import FalastinOS.Foundation.Forest

set_option autoImplicit false

namespace FalastinOS.DiskFs

open FalastinOS.Foundation FalastinOS.Drivers Relation

/-! ## Links -/

/-- The parent of the used slot `i` is the used slot `j`. -/
structure Link (files : Files) (i j : Slot) : Prop where
  used : (files i).used ≠ 0
  parentUsed : (files j).used ≠ 0
  parent : (files i).parent = slotInt j

/-- A link between two directories. -/
structure DirLink (files : Files) (i j : Slot) : Prop extends Link files i j where
  isDir : (files i).isDir ≠ 0
  parentIsDir : (files j).isDir ≠ 0

/-- A slot has one parent. -/
theorem Link.unique {files files' : Files} {i j k : Slot} (h : Link files i j)
    (h' : Link files' i k) (hsame : (files' i).parent = (files i).parent) : j = k :=
  slotInt_injective (h.parent.symm.trans (hsame.symm.trans h'.parent))

/-- Slots that agree in use, kind and parent carry the same links. -/
theorem DirLink.of_agree {files files' : Files} {i j : Slot} (h : DirLink files i j)
    (hi : files' i = files i) (hj : files' j = files j) : DirLink files' i j :=
  ⟨⟨hi ▸ h.used, hj ▸ h.parentUsed, hi ▸ h.parent⟩, hi ▸ h.isDir, hj ▸ h.parentIsDir⟩

theorem slotInt_ne_neg_one (i : Slot) : slotInt i ≠ -1 := by
  intro h
  have hint := congrArg Int32.toInt h
  rw [toInt_slotInt] at hint
  exact absurd hint (by simp)

theorem slotInt_root : slotInt rootSlot = 0 := by decide

/-! ## The invariant of every run -/

/-- The current directory is the used directory `here`, and hangs on the root by
used directories. -/
structure Stands (v : View) (here : Slot) : Prop where
  dir : v.dir = slotInt here
  used : (v.files here).used ≠ 0
  isDir : (v.files here).isDir ≠ 0
  reaches : ReflTransGen (DirLink v.files) here rootSlot

/-- What no call can break. -/
structure TreeInv (v : View) : Prop where
  rootUsed : (v.files rootSlot).used ≠ 0
  rootIsDir : (v.files rootSlot).isDir ≠ 0
  rootParent : (v.files rootSlot).parent = -1
  parents : ∀ i, (v.files i).used ≠ 0 → i ≠ rootSlot → ∃ j, (v.files i).parent = slotInt j
  acyclic : Acyclic (Link v.files)
  stands : ∃ here, Stands v here

theorem treeInv_freshFiles (files : Files) : TreeInv ⟨freshFiles files, 0⟩ := by
  obtain ⟨hused, hisDir, hparent, _⟩ := freshFiles_root files
  have hu : (freshFiles files rootSlot).used ≠ 0 := by rw [hused]; decide
  have hd : (freshFiles files rootSlot).isDir ≠ 0 := by rw [hisDir]; decide
  have honly : ∀ i, (freshFiles files i).used ≠ 0 → i = rootSlot := by
    intro i hi
    by_contra hne
    exact hi (freshFiles_unused files hne)
  refine ⟨hu, hd, hparent, fun i hi hne => absurd (honly i hi) hne, ?_,
    rootSlot, ⟨slotInt_root.symm, hu, hd, .refl⟩⟩
  -- The only used slot is the root, and its parent is no slot.
  intro x hcycle
  obtain ⟨y, hxy, _⟩ := TransGen.head'_iff.mp hcycle
  obtain rfl := honly x hxy.used
  exact slotInt_ne_neg_one y (hxy.parent.symm.trans hparent)

/-- Edits of other fields do not matter. -/
theorem TreeInv.store {v : View} (h : TreeInv v) (i : Slot) (data : Nat → UInt8) (size : Int32) :
    TreeInv (v.store i data size) := by
  obtain ⟨here, hhere⟩ := h.stands
  have hdir : ∀ x y, DirLink v.files x y → DirLink (v.store i data size).files x y := by
    intro x y hxy
    refine ⟨⟨?_, ?_, ?_⟩, ?_, ?_⟩
    · simpa using hxy.used
    · simpa using hxy.parentUsed
    · simpa using hxy.parent
    · simpa using hxy.isDir
    · simpa using hxy.parentIsDir
  refine ⟨by simpa using h.rootUsed, by simpa using h.rootIsDir, by simpa using h.rootParent,
    fun j hj hne => by simpa using h.parents j (by simpa using hj) hne, ?_, here,
    ⟨by simpa using hhere.dir, by simpa using hhere.used, by simpa using hhere.isDir,
      ReflTransGen.mono hdir _ _ hhere.reaches⟩⟩
  refine h.acyclic.mono fun x y hxy => ⟨?_, ?_, ?_⟩
  · simpa using hxy.used
  · simpa using hxy.parentUsed
  · simpa using hxy.parent

/-- A free slot cannot be reached from the current directory, not even by links
that lead into a new entry. -/
theorem not_reaches_free {v : View} (h : TreeInv v) {files' : Files} {here slot : Slot}
    (hhere : Stands v here) (hfree : (v.files slot).used = 0)
    (hsame : ∀ i, i ≠ slot → files' i = v.files i) : ¬ ReflTransGen (Link files') here slot := by
  intro hpath
  have hkept : ∀ i, (v.files i).used ≠ 0 → files' i = v.files i :=
    fun i hi => hsame i fun heq => hi (heq ▸ hfree)
  have hback : ReflTransGen (DirLink v.files) slot rootSlot := by
    refine reaches_of_follow (fun z hz => ?_) (fun x u w hxu hxw => ?_) hhere.reaches hpath
    · exact slotInt_ne_neg_one z
        (hz.parent.symm.trans ((hkept _ h.rootUsed) ▸ h.rootParent))
    · exact hxu.toLink.unique hxw (by rw [hkept x hxu.used])
  -- On the way back to the root the free slot would have to be used.
  rcases ReflTransGen.cases_head hback with heq | ⟨y, hy, _⟩
  · exact h.rootUsed (heq ▸ hfree)
  · exact hy.used hfree

/-- A new entry hangs below the current directory. -/
theorem TreeInv.insert {v : View} (h : TreeInv v) (isDir : Int32) {name : CStr} {slot : Slot}
    (hopen : v.Opens name slot) : TreeInv (v.insert isDir name slot) := by
  obtain ⟨here, hhere⟩ := h.stands
  have hfree : (v.files slot).used = 0 := findFree_some hopen.2
  have hsame : ∀ i, i ≠ slot → (v.insert isDir name slot).files i = v.files i :=
    fun i hi => v.insert_of_ne isDir name hi
  have hkept : ∀ i, (v.files i).used ≠ 0 → (v.insert isDir name slot).files i = v.files i :=
    fun i hi => hsame i fun heq => hi (heq ▸ hfree)
  have hnew : ((v.insert isDir name slot).files slot).parent = slotInt here := by
    rw [v.insert_self]
    exact hhere.dir
  have hroot := hkept rootSlot h.rootUsed
  refine ⟨hroot ▸ h.rootUsed, hroot ▸ h.rootIsDir, hroot ▸ h.rootParent, ?_, ?_, here, ?_⟩
  · intro i hi hne
    by_cases his : i = slot
    · exact ⟨here, his ▸ hnew⟩
    · rw [hsame i his] at hi ⊢
      exact h.parents i hi hne
  · refine acyclic_of_new_node h.acyclic (a := slot) (c := here) (fun x y hxy hx hy => ?_)
      (fun y hy => slotInt_injective (hy.parent.symm.trans hnew))
      (not_reaches_free h hhere hfree hsame)
    exact ⟨hsame x hx ▸ hxy.used, hsame y hy ▸ hxy.parentUsed, hsame x hx ▸ hxy.parent⟩
  · refine ⟨hhere.dir, hkept here hhere.used ▸ hhere.used, hkept here hhere.used ▸ hhere.isDir, ?_⟩
    exact ReflTransGen.mono (fun x y hxy =>
      hxy.of_agree (hkept x hxy.used) (hkept y hxy.parentUsed)) _ _ hhere.reaches

/-- A child of the current directory is not the directory and not above it. -/
theorem Stands.not_reaches_child {v : View} (h : TreeInv v) {here i : Slot} (hhere : Stands v here)
    (hused : (v.files i).used ≠ 0) (hparent : (v.files i).parent = v.dir) :
    ¬ ReflTransGen (DirLink v.files) here i := by
  intro hpath
  have hlink : Link v.files i here := ⟨hused, hhere.used, hparent.trans hhere.dir⟩
  exact h.acyclic i (TransGen.head' hlink
    (ReflTransGen.mono (fun _ _ hxy => hxy.toLink) _ _ hpath))

/-- Deleting a child of the current directory. -/
theorem TreeInv.remove {v : View} (h : TreeInv v) {i : Slot} (hused : (v.files i).used ≠ 0)
    (hparent : (v.files i).parent = v.dir) : TreeInv (v.remove i) := by
  obtain ⟨here, hhere⟩ := h.stands
  have hroot : rootSlot ≠ i := by
    rintro rfl
    exact slotInt_ne_neg_one here (hhere.dir.symm.trans (hparent.symm.trans h.rootParent))
  have havoid := hhere.not_reaches_child h hused hparent
  have hne : here ≠ i := fun heq => havoid (heq ▸ .refl)
  refine ⟨(v.remove_used_ne_zero i _).mpr ⟨hroot, h.rootUsed⟩, by simpa using h.rootIsDir,
    by simpa using h.rootParent, fun j hj hjr => ?_, ?_, here, ?_⟩
  · simpa using h.parents j ((v.remove_used_ne_zero i j).mp hj).2 hjr
  · refine h.acyclic.mono fun x y hxy => ?_
    exact ⟨((v.remove_used_ne_zero i x).mp hxy.used).2,
      ((v.remove_used_ne_zero i y).mp hxy.parentUsed).2, by simpa using hxy.parent⟩
  · refine ⟨by simpa using hhere.dir, (v.remove_used_ne_zero i _).mpr ⟨hne, hhere.used⟩,
      by simpa using hhere.isDir, reaches_of_avoid hhere.reaches havoid fun x y hxy hx hy => ?_⟩
    exact ⟨⟨(v.remove_used_ne_zero i x).mpr ⟨hx, hxy.used⟩,
      (v.remove_used_ne_zero i y).mpr ⟨hy, hxy.parentUsed⟩, by simpa using hxy.parent⟩,
      by simpa using hxy.isDir, by simpa using hxy.parentIsDir⟩

/-- A change of directory to a slot that stands. -/
theorem TreeInv.move {v : View} (h : TreeInv v) {dir : Int32} {there : Slot}
    (hthere : Stands ⟨v.files, dir⟩ there) : TreeInv ⟨v.files, dir⟩ :=
  ⟨h.rootUsed, h.rootIsDir, h.rootParent, h.parents, h.acyclic, there, hthere⟩

theorem Stands.up {v : View} {here there : Slot} (h : Stands v here)
    (hdir : v.dir = slotInt there) (hroot : v.dir ≠ 0) :
    ∃ up, Stands ⟨v.files, (v.files there).parent⟩ up := by
  obtain rfl : here = there := slotInt_injective (h.dir.symm.trans hdir)
  have hne : here ≠ rootSlot := by
    rintro rfl
    exact hroot (h.dir.trans slotInt_root)
  obtain ⟨up, hlink, hreach⟩ := link_of_reaches_ne h.reaches hne
  exact ⟨up, hlink.parent, hlink.parentUsed, hlink.parentIsDir, hreach⟩

theorem Stands.down {v : View} {here : Slot} (h : Stands v here) {i : Slot}
    (hused : (v.files i).used ≠ 0) (hparent : (v.files i).parent = v.dir)
    (hisDir : (v.files i).isDir ≠ 0) : Stands ⟨v.files, slotInt i⟩ i :=
  ⟨rfl, hused, hisDir, h.reaches.head
    ⟨⟨hused, h.used, hparent.trans h.dir⟩, hisDir, h.isDir⟩⟩

/-- Every effect of a call keeps the tree invariant. -/
theorem TreeInv.does {v v' : View} {c : Call} (h : TreeInv v) (hdoes : Does v c v') :
    TreeInv v' := by
  cases hdoes with
  | nothing => exact h
  | create hopen => exact h.insert 0 hopen
  | mkdir hopen => exact h.insert 1 hopen
  | write _ _ => exact h.store _ _ _
  | writeNew hopen _ _ => exact (h.insert 0 hopen).store _ _ _
  | writeTooLarge hopen _ => exact h.insert 0 hopen
  | delete hfind => exact h.remove (findFile_some hfind).used (findFile_some hfind).parent
  | cdRoot => exact h.move ⟨slotInt_root.symm, h.rootUsed, h.rootIsDir, .refl⟩
  | cdUp hdir hroot _ =>
      obtain ⟨here, hhere⟩ := h.stands
      obtain ⟨up, hup⟩ := hhere.up hdir hroot
      exact h.move hup
  | cdDown hfind hisDir =>
      obtain ⟨here, hhere⟩ := h.stands
      exact h.move (hhere.down (findFile_some hfind).used (findFile_some hfind).parent hisDir)

/-! ## The representation -/

/-- The representation of a file system by the table and the current directory. -/
structure Representation (v : View) : Prop extends TreeInv v where
  nameEnd : ∀ i, (v.files i).name ⟨31, by decide⟩ = 0
  size : ∀ i, (v.files i).used ≠ 0 → 0 ≤ (v.files i).size ∧ (v.files i).size ≤ 8192

/-- The size a call passes is not negative. -/
def SizeNonneg : Call → Prop
  | .write _ _ size => 0 ≤ size
  | _ => True

theorem Representation.insert {v : View} (h : Representation v) (isDir : Int32) {name : CStr}
    {slot : Slot} (hopen : v.Opens name slot) : Representation (v.insert isDir name slot) := by
  refine ⟨h.toTreeInv.insert isDir hopen, fun i => ?_, fun i hi => ?_⟩
  · by_cases his : i = slot
    · subst his
      rw [v.insert_self]
      exact storeName_last name (v.files i).name
    · rw [v.insert_of_ne isDir name his]
      exact h.nameEnd i
  · by_cases his : i = slot
    · subst his
      rw [v.insert_self]
      exact ⟨show (0 : Int32) ≤ 0 by decide, show (0 : Int32) ≤ 8192 by decide⟩
    · rw [v.insert_of_ne isDir name his] at hi ⊢
      exact h.size i hi

theorem Representation.store {v : View} (h : Representation v) (i : Slot) (data : Nat → UInt8)
    {size : Int32} (hlow : 0 ≤ size) (hhigh : size ≤ 8192) :
    Representation (v.store i data size) := by
  refine ⟨h.toTreeInv.store i data size, fun j => by simpa using h.nameEnd j, fun j hj => ?_⟩
  by_cases hji : j = i
  · subst hji
    simpa [View.store] using ⟨hlow, hhigh⟩
  · rw [v.store_of_ne data size hji] at hj ⊢
    exact h.size j hj

/-- A call with a size that is not negative keeps the representation. -/
theorem Representation.does {v v' : View} {c : Call} (h : Representation v) (hsize : SizeNonneg c)
    (hdoes : Does v c v') : Representation v' := by
  have htree := h.toTreeInv.does hdoes
  cases hdoes with
  | nothing => exact h
  | create hopen => exact h.insert 0 hopen
  | mkdir hopen => exact h.insert 1 hopen
  | write _ hle => exact h.store _ _ hsize hle
  | writeNew hopen _ hle => exact (h.insert 0 hopen).store _ _ hsize hle
  | writeTooLarge hopen _ => exact h.insert 0 hopen
  | delete hfind =>
      exact ⟨htree, fun j => by simpa using h.nameEnd j,
        fun j hj => by simpa using h.size j ((v.remove_used_ne_zero _ j).mp hj).2⟩
  | cdRoot => exact ⟨htree, h.nameEnd, h.size⟩
  | cdUp _ _ _ => exact ⟨htree, h.nameEnd, h.size⟩
  | cdDown _ _ => exact ⟨htree, h.nameEnd, h.size⟩

/-- Static storage is still zero when the kernel calls `diskfs_init`; the drive
is arbitrary. -/
structure Boot (m : Machine) : Prop where
  files : m.files = zeroFiles
  currentDir : m.currentDir = 0

/-- `diskfs_init` finds no file system: there is no drive, or its superblock
cannot be read or is not ours. -/
def FindsNone (m : Machine) : Prop :=
  m.ata.present = false ∨ (ataReadSector m.ata fsStartLba fun _ => 0).ret ≠ 0 ∨
    superblockValid (ataReadSector m.ata fsStartLba fun _ => 0).buffer = false

/-- The states of the file system: those after a `diskfs_init` that found none,
those a call leads to, and those after a `diskfs_init` on a drive, healthy or
not, that holds the saved image of such a state. -/
inductive Reachable : Machine → Prop where
  | fresh {b : Machine} : Boot b → FindsNone b → Reachable (diskfsInit b).machine
  | call {m m' : Machine} {c : Call} : Reachable m → SizeNonneg c → step m c = .ok m' →
      Reachable m'
  | reload {m b : Machine} : Reachable m → Boot b → Image b.ata m.files →
      Reachable (diskfsInit b).machine

/-- A fresh `diskfs_init` whose table held only names that end in a NUL. -/
theorem representation_freshFiles {files : Files}
    (hname : ∀ i, (files i).name ⟨31, by decide⟩ = 0) :
    Representation ⟨freshFiles files, 0⟩ := by
  refine ⟨treeInv_freshFiles files, fun i => ?_, fun i hi => ?_⟩
  · by_cases hi : i = rootSlot
    · subst hi
      simpa [freshFiles, File.clear, CharArray.set] using hname rootSlot
    · simpa [freshFiles, Function.update_of_ne hi, File.clear, CharArray.set] using hname i
  · by_cases hir : i = rootSlot
    · subst hir
      have hsize := (freshFiles_root files).2.2.2
      exact ⟨Int32.le_of_eq hsize.symm, by simp only [hsize]; decide⟩
    · exact absurd (freshFiles_unused files hir) hi

theorem diskfsLoad_of_findsNone {b : Machine} (h : FindsNone b) :
    loads b = false ∧ (if ataDrivePresent b.ata then (diskfsLoad b).2 else b).files = b.files := by
  unfold loads ataDrivePresent diskfsLoad
  rcases h with habsent | hread | hsuper
  · simp [habsent]
  · simp only [if_pos hread]
    exact ⟨by simp, by split <;> rfl⟩
  · by_cases hread : (ataReadSector b.ata fsStartLba fun _ => 0).ret ≠ 0
    · simp only [if_pos hread]
      exact ⟨by simp, by split <;> rfl⟩
    · simp only [if_neg hread, hsuper, Bool.not_false, if_true]
      exact ⟨by simp, by split <;> rfl⟩

/-- The names a load takes from an image end in a NUL if those of the table it
is the image of do, also when the load fails half way. -/
theorem nameEnd_diskfsLoad {b : Machine} {files : Files} (himage : Image b.ata files)
    (hboot : Boot b) (hname : ∀ i, (files i).name ⟨31, by decide⟩ = 0) (i : Slot) :
    ((diskfsLoad b).2.files i).name ⟨31, by decide⟩ = 0 := by
  obtain ⟨j, _, hfiles⟩ := diskfsLoad_spec b
  have hi : i.val < 64 := i.isLt
  have hidx : i.val * recordSize + 31 < totalBytes := by
    unfold totalBytes maxFiles recordSize
    omega
  have hbyte : ∀ files : Files, rawOf files (i.val * recordSize + 31) =
      (files i).name ⟨31, by decide⟩ := by
    intro files
    rw [rawOf_at files i (by decide)]
    exact File.byte_name _ ⟨31, by decide⟩
  rw [hfiles]
  simp only [filesOf, File.ofBytes, rawWithSectors]
  split
  · rw [diskByte_of_image himage hidx, hbyte, hname i]
  · rw [hbyte, hboot.files]
    rfl

/-- `diskfs_init` on a drive that holds the saved image of a table. -/
theorem representation_reload {b : Machine} {v : View} (h : Representation v) (hboot : Boot b)
    (himage : Image b.ata v.files) : Representation (diskfsInit b).machine.view := by
  cases hloads : loads b with
  | true =>
      obtain ⟨hp, hload⟩ := Bool.and_eq_true_iff.mp hloads
      have hfiles := diskfsLoad_of_image himage hload
      have hview : (diskfsInit b).machine.view = ⟨v.files, 0⟩ := by
        simp [diskfsInit, hp, hload, Machine.view, hfiles, hboot.currentDir]
      rw [hview]
      exact ⟨h.toTreeInv.move ⟨slotInt_root.symm, h.rootUsed, h.rootIsDir, .refl⟩, h.nameEnd,
        h.size⟩
  | false =>
      rw [diskfsInit_view_of_not_loads hloads]
      refine representation_freshFiles fun i => ?_
      split
      · exact nameEnd_diskfsLoad himage hboot h.nameEnd i
      · rw [hboot.files]
        rfl

theorem Reachable.representation {m : Machine} (h : Reachable m) : Representation m.view := by
  induction h with
  | @fresh b hboot hnone =>
      obtain ⟨hloads, hfiles⟩ := diskfsLoad_of_findsNone hnone
      rw [diskfsInit_view_of_not_loads hloads, hfiles, hboot.files]
      exact representation_freshFiles fun _ => rfl
  | call _ hsize hstep ih => exact ih.does hsize (step_does hstep)
  | reload _ hboot himage ih => exact representation_reload ih hboot himage

/-- `used` is 0 or 1. -/
def Flagged (files : Files) : Prop := ∀ i, (files i).used ≠ 0 → (files i).used = 1

theorem flagged_freshFiles (files : Files) : Flagged (freshFiles files) := by
  intro i hused
  by_cases hroot : i = rootSlot
  · rw [hroot, (freshFiles_root files).1]
  · exact absurd (freshFiles_unused files hroot) hused

theorem Flagged.insert {v : View} (h : Flagged v.files) (isDir : Int32) (name : CStr)
    (slot : Slot) : Flagged (v.insert isDir name slot).files := by
  intro i hused
  by_cases his : i = slot
  · rw [his, v.insert_self]
    rfl
  · rw [v.insert_of_ne isDir name his] at hused ⊢
    exact h i hused

theorem Flagged.store {v : View} (h : Flagged v.files) (i : Slot) (data : Nat → UInt8)
    (size : Int32) : Flagged (v.store i data size).files := by
  intro j
  rw [v.store_used]
  exact h j

theorem Flagged.remove {v : View} (h : Flagged v.files) (i : Slot) :
    Flagged (v.remove i).files := by
  intro j hused
  obtain ⟨hji, hj⟩ := (v.remove_used_ne_zero i j).mp hused
  rw [v.remove_of_ne hji]
  exact h j hj

theorem Flagged.does {v v' : View} {c : Call} (h : Flagged v.files) (hdoes : Does v c v') :
    Flagged v'.files := by
  cases hdoes with
  | nothing => exact h
  | create _ => exact h.insert 0 _ _
  | mkdir _ => exact h.insert 1 _ _
  | write _ _ => exact h.store _ _ _
  | writeNew _ _ _ => exact (h.insert 0 _ _).store _ _ _
  | writeTooLarge _ _ => exact h.insert 0 _ _
  | delete _ => exact h.remove _
  | cdRoot => exact h
  | cdUp _ _ _ => exact h
  | cdDown _ _ => exact h

theorem Reachable.flagged {m : Machine} (h : Reachable m) : Flagged m.files := by
  induction h with
  | fresh _ hnone =>
      rw [← Machine.view_files, diskfsInit_view_of_not_loads (diskfsLoad_of_findsNone hnone).1]
      exact flagged_freshFiles _
  | call _ _ hstep ih => exact Flagged.does ih (step_does hstep)
  | @reload m b _ _ himage ih =>
      cases hloads : loads b with
      | true =>
          obtain ⟨hp, hload⟩ := Bool.and_eq_true_iff.mp hloads
          rw [diskfsInit, if_pos hp, if_pos hload, diskfsLoad_of_image himage hload]
          exact ih
      | false =>
          rw [← Machine.view_files, diskfsInit_view_of_not_loads hloads]
          exact flagged_freshFiles _

/-- The representation invariant of the file system, in every reachable state. -/
theorem representation_of_reachable {m : Machine} (h : Reachable m) : Representation m.view :=
  h.representation

/-- A directory is made and entered. -/
def insideDir : Machine :=
  { (diskfsMkdir (diskfsInit bareMachine).machine nameA).machine with currentDir := 1 }

/-- A machine that starts with the drive `d` on which the state of `m` was saved. -/
def rebootOn (m : Machine) (d : Ata) : Machine :=
  ⟨zeroFiles, 0, (diskfsSave { m with ata := d }).machine.ata⟩

theorem image_rebootOn (m : Machine) {d : Ata} (hd : d.Working) :
    Image (rebootOn m d).ata m.files :=
  diskfsSave_image hd

theorem representation_of_reachable_rebooted :
    Representation insideDir.view ∧
      Representation (diskfsInit (rebootOn insideDir blankDrive)).machine.view := by
  have hfresh : Reachable (diskfsInit bareMachine).machine := .fresh ⟨rfl, rfl⟩ (Or.inl rfl)
  have hmade := hfresh.call (c := .mkdir nameA) trivial rfl
  have hentered : Reachable insideDir := hmade.call (c := .cd nameA) trivial (by rfl)
  exact ⟨representation_of_reachable hentered, representation_of_reachable
    (hentered.reload ⟨rfl, rfl⟩ (image_rebootOn insideDir working_blankDrive))⟩

/-! ## Orphans -/

/-- Every used slot but the root has a used directory as its parent and hangs on
the root. -/
structure NoOrphans (files : Files) : Prop where
  parent : ∀ i, (files i).used ≠ 0 → i ≠ rootSlot →
    ∃ j, (files i).parent = slotInt j ∧ (files j).used ≠ 0 ∧ (files j).isDir ≠ 0
  reaches : ∀ i, (files i).used ≠ 0 → i ≠ rootSlot → ReflTransGen (Link files) i rootSlot

/-- A delete removes an entry without children. -/
def DeletesLeaf (m : Machine) : Call → Prop
  | .delete name => ∀ i, m.view.lookup name = some i →
      ∀ j, (m.files j).used ≠ 0 → (m.files j).parent ≠ slotInt i
  | _ => True

theorem noOrphans_freshFiles (files : Files) : NoOrphans (freshFiles files) :=
  ⟨fun _ hi hne => absurd (freshFiles_unused files hne) hi,
    fun _ hi hne => absurd (freshFiles_unused files hne) hi⟩

theorem NoOrphans.store {v : View} (h : NoOrphans v.files) (i : Slot) (data : Nat → UInt8)
    (size : Int32) : NoOrphans (v.store i data size).files := by
  constructor
  · intro j hj hne
    simpa using h.parent j (by simpa using hj) hne
  · intro j hj hne
    refine ReflTransGen.mono (fun x y hxy => ⟨?_, ?_, ?_⟩) _ _ (h.reaches j (by simpa using hj) hne)
    · simpa using hxy.used
    · simpa using hxy.parentUsed
    · simpa using hxy.parent

/-- A new entry is a child of the current directory, and no other link changes. -/
theorem NoOrphans.insert {v : View} (h : NoOrphans v.files) (htree : TreeInv v) (isDir : Int32)
    {name : CStr} {slot : Slot} (hopen : v.Opens name slot) :
    NoOrphans (v.insert isDir name slot).files := by
  obtain ⟨here, hhere⟩ := htree.stands
  have hfree : (v.files slot).used = 0 := findFree_some hopen.2
  have hkept : ∀ i, (v.files i).used ≠ 0 → (v.insert isDir name slot).files i = v.files i :=
    fun i hi => v.insert_of_ne isDir name fun heq => hi (heq ▸ hfree)
  have hnew : ((v.insert isDir name slot).files slot).parent = slotInt here := by
    rw [v.insert_self]
    exact hhere.dir
  have hlinks : ∀ x y, Link v.files x y → Link (v.insert isDir name slot).files x y :=
    fun x y hxy => ⟨hkept x hxy.used ▸ hxy.used, hkept y hxy.parentUsed ▸ hxy.parentUsed,
      hkept x hxy.used ▸ hxy.parent⟩
  constructor
  · intro i hi hne
    by_cases his : i = slot
    · subst his
      exact ⟨here, hnew, hkept here hhere.used ▸ hhere.used, hkept here hhere.used ▸ hhere.isDir⟩
    · rw [v.insert_of_ne isDir name his] at hi ⊢
      obtain ⟨j, hparent, hused, hisDir⟩ := h.parent i hi hne
      exact ⟨j, hparent, hkept j hused ▸ hused, hkept j hused ▸ hisDir⟩
  · intro i hi hne
    by_cases his : i = slot
    · subst his
      have hpath := ReflTransGen.mono (fun x y hxy => hlinks x y (DirLink.toLink hxy)) _ _
        hhere.reaches
      exact hpath.head ⟨hi, hkept here hhere.used ▸ hhere.used, hnew⟩
    · rw [v.insert_of_ne isDir name his] at hi
      exact ReflTransGen.mono hlinks _ _ (h.reaches i hi hne)

/-- Deleting an entry leaves no orphan exactly if the entry has no children. -/
theorem noOrphans_remove_iff {v : View} (h : NoOrphans v.files) (htree : TreeInv v) (i : Slot) :
    NoOrphans (v.remove i).files ↔
      ∀ j, (v.files j).used ≠ 0 → (v.files j).parent ≠ slotInt i := by
  constructor
  · intro hafter j hj hchild
    have hji : j ≠ i := by
      rintro rfl
      exact htree.acyclic j (.single ⟨hj, hj, hchild⟩)
    have hjr : j ≠ rootSlot := by
      rintro rfl
      exact slotInt_ne_neg_one i (hchild.symm.trans htree.rootParent)
    obtain ⟨k, hk, hused, _⟩ := hafter.parent j ((v.remove_used_ne_zero i j).mpr ⟨hji, hj⟩) hjr
    rw [v.remove_parent] at hk
    exact ((v.remove_used_ne_zero i k).mp hused).1 (slotInt_injective (hk.symm.trans hchild))
  · intro hleaf
    constructor
    · intro j hj hne
      obtain ⟨k, hparent, hused, hisDir⟩ :=
        h.parent j ((v.remove_used_ne_zero i j).mp hj).2 hne
      have hki : k ≠ i := by
        rintro rfl
        exact hleaf j ((v.remove_used_ne_zero k j).mp hj).2 hparent
      exact ⟨k, by simpa using hparent, (v.remove_used_ne_zero i k).mpr ⟨hki, hused⟩,
        by simpa using hisDir⟩
    · intro j hj hne
      obtain ⟨hji, hused⟩ := (v.remove_used_ne_zero i j).mp hj
      have havoid : ¬ ReflTransGen (Link v.files) j i := by
        intro hpath
        rcases ReflTransGen.cases_tail hpath with heq | ⟨k, _, hki⟩
        · exact hji heq.symm
        · exact hleaf k hki.used hki.parent
      refine reaches_of_avoid (h.reaches j hused hne) havoid fun x y hxy hx hy => ?_
      exact ⟨(v.remove_used_ne_zero i x).mpr ⟨hx, hxy.used⟩,
        (v.remove_used_ne_zero i y).mpr ⟨hy, hxy.parentUsed⟩, by simpa using hxy.parent⟩

/-- Every effect but the removal of a parent leaves no orphans. -/
theorem NoOrphans.does {v v' : View} {c : Call} (h : NoOrphans v.files) (htree : TreeInv v)
    (hdoes : Does v c v') (hleaf : ∀ name i, c = .delete name → v.lookup name = some i →
      ∀ j, (v.files j).used ≠ 0 → (v.files j).parent ≠ slotInt i) : NoOrphans v'.files := by
  cases hdoes with
  | nothing => exact h
  | create hopen => exact h.insert htree 0 hopen
  | mkdir hopen => exact h.insert htree 1 hopen
  | write _ _ => exact h.store _ _ _
  | writeNew hopen _ _ => exact (h.insert htree 0 hopen).store _ _ _
  | writeTooLarge hopen _ => exact h.insert htree 0 hopen
  | delete hfind => exact (noOrphans_remove_iff h htree _).mpr (hleaf _ _ rfl hfind)
  | cdRoot => exact h
  | cdUp _ _ _ => exact h
  | cdDown _ _ => exact h

/-- From a table without orphans, a call leads to one exactly if it deletes no
parent. -/
theorem noOrphans_step_iff {m m' : Machine} {c : Call} (htree : TreeInv m.view)
    (h : NoOrphans m.files) (hstep : step m c = .ok m') :
    NoOrphans m'.files ↔ DeletesLeaf m c := by
  constructor
  · intro hafter
    cases c with
    | delete name =>
        intro i hfind
        obtain rfl := Except.ok.inj hstep
        have hview := diskfsDelete_view m name
        rw [hfind] at hview
        have hfiles : (diskfsDelete m name).machine.files = (m.view.remove i).files :=
          congrArg View.files hview
        rw [hfiles] at hafter
        exact (noOrphans_remove_iff h htree i).mp hafter
    | create name => trivial
    | mkdir name => trivial
    | write name data size => trivial
    | cd path => trivial
  · intro hleaf
    refine NoOrphans.does h htree (step_does hstep) fun name i hc hfind => ?_
    subst hc
    exact hleaf i hfind

/-- In a run from a fresh file system no entry is ever orphaned exactly if every
delete of the run removes an entry without children. -/
theorem noOrphans_iff_deletes_leaves {m : Machine} (hfresh : Fresh m) (calls : List Call) :
    Along step (fun m => NoOrphans m.files) m calls ↔ Guarded step DeletesLeaf m calls := by
  obtain ⟨files, hview⟩ := hfresh.view
  have htree : TreeInv m.view := hview ▸ treeInv_freshFiles files
  have hnone : NoOrphans m.files := by
    have hfiles : m.files = freshFiles files := congrArg View.files hview
    exact hfiles ▸ noOrphans_freshFiles files
  exact along_iff_guarded (J := fun m => TreeInv m.view)
    (fun _ _ _ h hstep => h.does (step_does hstep))
    (fun _ _ _ htree h hstep => noOrphans_step_iff htree h hstep) htree hnone

theorem noOrphans_iff_deletes_leaves_mkdir :
    Along step (fun m => NoOrphans m.files) (diskfsInit bareMachine).machine [.mkdir nameA] :=
  (noOrphans_iff_deletes_leaves fresh_bareMachine [.mkdir nameA]).mpr fun _ _ =>
    ⟨trivial, trivial⟩

/-- The path `/`. -/
def pathRoot : CStr := ⟨text "/", by decide⟩

/-- A file is made in a directory, and the directory is deleted from the root. -/
def orphaning : List Call :=
  [.mkdir nameA, .cd nameA, .create nameAb, .cd pathRoot, .delete nameA]

/-- The state those calls lead to. -/
def orphanedMachine : Machine :=
  (diskfsDelete { (diskfsCreate insideDir nameAb).machine with currentDir := 0 } nameA).machine

/-- Deleting a directory with a file in it orphans the file. -/
theorem noOrphans_fails_after_delete :
    run step (diskfsInit bareMachine).machine orphaning = .ok orphanedMachine ∧
      ¬ NoOrphans orphanedMachine.files := by
  refine ⟨by rfl, fun h => ?_⟩
  have hparent : (orphanedMachine.files ⟨2, by decide⟩).parent = slotInt ⟨1, by decide⟩ := by
    decide +kernel
  obtain ⟨j, hj, hused, _⟩ := h.parent ⟨2, by decide⟩ (by decide +kernel) (by decide)
  obtain rfl := slotInt_injective (hparent.symm.trans hj)
  exact absurd hused (by decide +kernel)

end FalastinOS.DiskFs
