/-
  DiskFs/Failures.lean --- what a call that returns -1 leaves behind.

  Every operation checks before it edits, with one exception: `diskfs_write` of
  an unknown name first makes the entry and saves it, and only then compares the
  size with `MAX_FILE_SIZE`.  `unchanged_of_failure_iff` is the exact statement
  for one call, `cleanFailure_run_iff` for a run.
-/
import FalastinOS.DiskFs.Names

set_option autoImplicit false

namespace FalastinOS.DiskFs

open FalastinOS.Foundation FalastinOS.Drivers

/-- Table, current directory and medium are as before. -/
structure Unchanged (m m' : Machine) : Prop where
  files : m'.files = m.files
  currentDir : m'.currentDir = m.currentDir
  sectors : m'.ata.sectors = m.ata.sectors

theorem Unchanged.refl (m : Machine) : Unchanged m m := ⟨rfl, rfl, rfl⟩

/-- More than 8192 bytes are written to a name that has no entry, and there is a
free slot to make one. -/
def TooLargeForNew (m : Machine) : Call → Prop
  | .write name _ size => 8192 < size ∧ ∃ slot, m.view.Opens name slot
  | _ => False

/-- A failed `diskfs_create` or `diskfs_mkdir` did nothing. -/
theorem makeEntry_failed {kind : EntryKind} {m : Machine} {name : CStr}
    (hret : (makeEntry kind m name).ret = -1) : (makeEntry kind m name).machine = m := by
  rcases makeEntry_cases kind m name with ⟨_, hsame, _⟩ | ⟨_, _, hdone, _⟩
  · exact hsame
  · rw [hdone] at hret
    exact absurd hret (by decide)

theorem diskfsDelete_failed {m : Machine} {name : CStr} (hret : (diskfsDelete m name).ret = -1) :
    (diskfsDelete m name).machine = m := by
  unfold diskfsDelete at hret ⊢
  cases hfind : findFile m.files name m.currentDir with
  | none => rfl
  | some i =>
      simp only [hfind] at hret
      exact absurd hret (by decide)

/-- A reply that says 0 does not say -1. -/
theorem not_failed {out : List UInt8} {m : Machine} {r : Reply}
    (h : (Except.ok ⟨0, out, m⟩ : Except Fault Reply) = .ok r) : r.ret ≠ -1 := by
  obtain rfl := Except.ok.inj h
  exact show (0 : Int32) ≠ -1 by decide

theorem diskfsCd_failed {m : Machine} {path : CStr} {r : Reply} (h : diskfsCd m path = .ok r)
    (hret : r.ret = -1) : r.machine = m := by
  unfold diskfsCd at h
  split at h
  · exact absurd hret (not_failed h)
  split at h
  · split at h
    · exact absurd hret (not_failed h)
    · cases hhere : slotAt m.currentDir with
      | none => simp only [hhere, reduceCtorEq] at h
      | some here =>
          simp only [hhere] at h
          split at h
          · exact absurd hret (not_failed h)
          · obtain rfl := Except.ok.inj h
            rfl
  · cases hfind : findFile m.files path m.currentDir with
    | none =>
        simp only [hfind] at h
        obtain rfl := Except.ok.inj h
        rfl
    | some i =>
        simp only [hfind] at h
        split at h
        · exact absurd hret (not_failed h)
        · obtain rfl := Except.ok.inj h
          rfl

/-- A failed `diskfs_write`: nothing happened, or the data were too large for a
name that had no entry, and the entry is there now. -/
theorem diskfsWrite_failed {m : Machine} {name : CStr} {data : Nat → UInt8} {size : Int32}
    {r : Reply} (h : diskfsWrite m name data size = .ok r) (hret : r.ret = -1) :
    (r.machine = m ∧ ¬ TooLargeForNew m (.write name data size)) ∨
    ∃ slot, m.view.Opens name slot ∧ 8192 < size ∧ r.machine.view = m.view.insert 0 name slot := by
  unfold diskfsWrite at h
  cases hfind : findFile m.files name m.currentDir with
  | some i =>
      simp only [hfind] at h
      rcases storeData_ok h with ⟨_, _, hsame⟩ | ⟨_, _, _, hdone, _⟩
      · refine Or.inl ⟨hsame, fun ⟨_, slot, hopen⟩ => ?_⟩
        exact absurd (hfind.symm.trans hopen.1) (by simp)
      · exact absurd (hdone.symm.trans hret) (by decide)
  | none =>
      simp only [hfind] at h
      rcases makeEntry_cases fileKind m name with
        ⟨hfail, hsame, hclosed⟩ | ⟨slot, hopen, hdone, hview⟩
      · rw [if_pos (by rw [diskfsCreate, hfail]; decide)] at h
        obtain rfl := Except.ok.inj h
        exact Or.inl ⟨hsame, fun ⟨_, slot, hopen⟩ => hclosed slot hopen⟩
      · rw [if_neg (by rw [diskfsCreate, hdone]; decide)] at h
        rcases storeData_ok h with ⟨hsize, _, hsame⟩ | ⟨_, _, _, hstored, _⟩
        · exact Or.inr ⟨slot, hopen, hsize, by rw [hsame]; exact hview⟩
        · exact absurd (hstored.symm.trans hret) (by decide)

/-- A call that returns -1 changes nothing exactly if it did not write too much
to a new name. -/
theorem unchanged_of_failure_iff {m : Machine} {c : Call} {r : Reply} (h : c.exec m = .ok r)
    (hret : r.ret = -1) : Unchanged m r.machine ↔ ¬ TooLargeForNew m c := by
  cases c with
  | create name =>
      obtain rfl := Except.ok.inj h
      refine iff_of_true ?_ (fun hlarge => hlarge)
      rw [show (diskfsCreate m name).machine = m from makeEntry_failed hret]
      exact Unchanged.refl m
  | mkdir name =>
      obtain rfl := Except.ok.inj h
      refine iff_of_true ?_ (fun hlarge => hlarge)
      rw [show (diskfsMkdir m name).machine = m from makeEntry_failed hret]
      exact Unchanged.refl m
  | write name data size =>
      rcases diskfsWrite_failed h hret with ⟨hsame, hsmall⟩ | ⟨slot, hopen, hsize, hview⟩
      · exact iff_of_true (hsame ▸ Unchanged.refl m) hsmall
      · refine iff_of_false (fun hunchanged => ?_) fun hsmall => hsmall ⟨hsize, slot, hopen⟩
        -- The slot was free before the call and holds the new entry after it.
        have hbefore : (m.files slot).used = 0 := findFree_some hopen.2
        have hafter : (r.machine.files slot).used = 1 := by
          have hfiles : r.machine.files = (m.view.insert 0 name slot).files :=
            congrArg View.files hview
          rw [hfiles, View.insert_self]
          rfl
        rw [hunchanged.files, hbefore] at hafter
        exact absurd hafter (by decide)
  | delete name =>
      obtain rfl := Except.ok.inj h
      refine iff_of_true ?_ (fun hlarge => hlarge)
      rw [diskfsDelete_failed hret]
      exact Unchanged.refl m
  | cd path =>
      refine iff_of_true ?_ (fun hlarge => hlarge)
      rw [diskfsCd_failed h hret]
      exact Unchanged.refl m

/-- If the call returns -1, it changed nothing. -/
def CleanFailure (m : Machine) (c : Call) : Prop :=
  ∀ r, c.exec m = .ok r → r.ret = -1 → Unchanged m r.machine

/-- Too much data for a new name is refused. -/
theorem exec_of_tooLargeForNew {m : Machine} {c : Call} (h : TooLargeForNew m c) :
    ∃ r, c.exec m = .ok r ∧ r.ret = -1 := by
  cases c with
  | write name data size =>
      obtain ⟨hsize, slot, hopen⟩ := h
      have hnone : findFile m.files name m.currentDir = none := hopen.1
      rcases makeEntry_cases fileKind m name with ⟨_, _, hclosed⟩ | ⟨_, _, hdone, _⟩
      · exact absurd hopen (hclosed slot)
      · have hcreated : (diskfsCreate m name).ret = 0 := hdone
        simp only [Call.exec, diskfsWrite, hnone, hcreated, ne_eq, not_true_eq_false, if_false,
          storeData, if_pos hsize]
        exact ⟨_, rfl, rfl⟩
  | create _ => exact h.elim
  | mkdir _ => exact h.elim
  | delete _ => exact h.elim
  | cd _ => exact h.elim

theorem cleanFailure_iff (m : Machine) (c : Call) : CleanFailure m c ↔ ¬ TooLargeForNew m c := by
  constructor
  · intro hclean hlarge
    obtain ⟨r, hr, hret⟩ := exec_of_tooLargeForNew hlarge
    exact (unchanged_of_failure_iff hr hret).mp (hclean r hr hret) hlarge
  · exact fun hsmall r hr hret => (unchanged_of_failure_iff hr hret).mpr hsmall

/-- In a run from `diskfs_init`, every call that returns -1 changes nothing
exactly if no call writes too much to a new name. -/
theorem cleanFailure_run_iff (b : Machine) (calls : List Call) :
    Attempted step CleanFailure (diskfsInit b).machine calls ↔
      Attempted step (fun m c => ¬ TooLargeForNew m c) (diskfsInit b).machine calls :=
  attempted_congr cleanFailure_iff _ calls

/-- Writing 8193 bytes to a new name fails, and the name has an entry
afterwards. -/
theorem unchanged_fails_for_large_new_file :
    ∃ r, (Call.write nameA (fun _ => 0) 8193).exec (diskfsInit bareMachine).machine = .ok r ∧
      r.ret = -1 ∧ diskfsExists (diskfsInit bareMachine).machine nameA = false ∧
      diskfsExists r.machine nameA = true ∧
      ¬ Unchanged (diskfsInit bareMachine).machine r.machine := by
  refine ⟨_, rfl, by decide +kernel, by decide +kernel, by decide +kernel, fun h => ?_⟩
  have hused := congrArg (fun files : Files => (files ⟨1, by decide⟩).used) h.files
  exact absurd hused (by decide +kernel)

end FalastinOS.DiskFs
