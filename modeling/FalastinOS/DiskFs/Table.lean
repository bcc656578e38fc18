/-
  DiskFs/Table.lean --- the file table of `diskfs.c` and its two searches.

  The table is an array of 64 records.  Integer fields are C `int`s, so they are
  `Int32`; `find_file` and `find_free` return -1 for "none", here `none`.

  The name of a record is 32 bytes.  `find_file` compares all 32 of them, while
  the copy loop of `diskfs_create` and `diskfs_mkdir` stores at most 31, writes
  a NUL at index 31 only, and does not terminate a shorter name.  What a slot
  held before therefore stays part of the stored name; `toCStr_storeName_iff`
  says exactly when the stored name is the given one.
-/
import FalastinOS.Foundation.CString
import Mathlib.Data.List.FinRange
import Mathlib.Logic.Function.Basic

set_option autoImplicit false

namespace FalastinOS.DiskFs

open FalastinOS.Foundation

/-- `MAX_FILES`. -/
def maxFiles : Nat := 64

/-- `MAX_FILE_SIZE`. -/
def maxFileSize : Nat := 8192

/-- `MAX_FILENAME`. -/
def maxFilename : Nat := 32

/-- An index of the file table. -/
abbrev Slot : Type := Fin maxFiles

/-- Slot 0, the root directory. -/
def rootSlot : Slot := ⟨0, by decide⟩

/-- `File`. -/
structure File where
  name : CharArray maxFilename
  data : CharArray maxFileSize
  size : Int32
  used : Int32
  isDir : Int32
  parent : Int32

/-- `files[MAX_FILES]`. -/
abbrev Files : Type := Slot → File

/-- The slot number as the `int` the code stores in `parent` and `current_dir`. -/
def slotInt (i : Slot) : Int32 := Int32.ofNat i.val

theorem toInt_slotInt (i : Slot) : (slotInt i).toInt = (i.val : Int) :=
  Int32.toInt_ofNat_of_lt (Nat.lt_trans i.isLt (by decide))

theorem slotInt_injective {i j : Slot} (h : slotInt i = slotInt j) : i = j := by
  have hint : ((i.val : Int)) = j.val := by rw [← toInt_slotInt, ← toInt_slotInt, h]
  exact Fin.ext (by omega)

/-- The slot a C index denotes, if it lies inside the table. -/
def slotAt (i : Int32) : Option Slot :=
  if h : 0 ≤ i.toInt ∧ i.toInt < 64 then some ⟨i.toInt.toNat, by unfold maxFiles; omega⟩ else none

theorem slotAt_eq_some {i : Int32} {s : Slot} : slotAt i = some s ↔ i = slotInt s := by
  constructor
  · intro h
    unfold slotAt at h
    split at h
    · rename_i hrange
      obtain rfl := Option.some.inj h
      rw [← Int32.toInt_inj, toInt_slotInt]
      exact (Int.toNat_of_nonneg hrange.1).symm
    · exact absurd h (by simp)
  · rintro rfl
    have hs : s.val < 64 := s.isLt
    simp only [slotAt, toInt_slotInt]
    rw [dif_pos ⟨by omega, by omega⟩]
    simp

/-! ## `find_file` -/

/-- The inner loop of `find_file` from index `j` on, `n` iterations left:
compare, stop at the first difference, stop at a common NUL. -/
def matchLoop (name : CStr) (stored : CharArray maxFilename) : Nat → Nat → Bool
  | 0, _ => true
  | n + 1, j =>
      let c := if h : j < maxFilename then stored ⟨j, h⟩ else 0
      if name.byte j ≠ c then false
      else if name.byte j = 0 ∧ c = 0 then true
      else matchLoop name stored n (j + 1)

/-- Does the stored name match over the 32 bytes `find_file` compares? -/
def nameMatches (name : CStr) (stored : CharArray maxFilename) : Bool :=
  matchLoop name stored maxFilename 0

/-- `find_file(name, parent)`: the first used slot with that parent and name. -/
def findFile (files : Files) (name : CStr) (parent : Int32) : Option Slot :=
  (List.finRange maxFiles).find? fun i =>
    decide ((files i).used ≠ 0) && decide ((files i).parent = parent)
      && nameMatches name (files i).name

/-- `find_free()`: the first unused slot. -/
def findFree (files : Files) : Option Slot :=
  (List.finRange maxFiles).find? fun i => decide ((files i).used = 0)

/-- Slot `i` answers a search for `name` below `parent`. -/
structure Answers (files : Files) (name : CStr) (parent : Int32) (i : Slot) : Prop where
  used : (files i).used ≠ 0
  parent : (files i).parent = parent
  name : nameMatches name (files i).name = true

theorem findFile_some {files : Files} {name : CStr} {parent : Int32} {i : Slot}
    (h : findFile files name parent = some i) : Answers files name parent i := by
  have htest := List.find?_some h
  simp only [Bool.and_eq_true, decide_eq_true_eq] at htest
  exact ⟨htest.1.1, htest.1.2, htest.2⟩

theorem findFile_none_iff {files : Files} {name : CStr} {parent : Int32} :
    findFile files name parent = none ↔ ∀ i, ¬ Answers files name parent i := by
  unfold findFile
  rw [List.find?_eq_none]
  constructor
  · intro h i hi
    have := h i (List.mem_finRange i)
    simp [hi.used, hi.parent, hi.name] at this
  · intro h i _ htest
    simp only [Bool.and_eq_true, decide_eq_true_eq] at htest
    exact h i ⟨htest.1.1, htest.1.2, htest.2⟩

/-- No slot before the one found answers. -/
theorem findFile_le {files : Files} {name : CStr} {parent : Int32} {i j : Slot}
    (h : findFile files name parent = some i) (hj : Answers files name parent j) : i ≤ j := by
  obtain ⟨_, n, hn, rfl, hbefore⟩ := List.find?_eq_some_iff_getElem.mp h
  rw [List.length_finRange] at hn
  rw [List.getElem_finRange, Fin.le_def]
  by_contra hlt
  have hfalse := hbefore j.val (not_le.mp hlt)
  simp [hj.used, hj.parent, hj.name] at hfalse

/-- When a single slot answers, that slot is found. -/
theorem findFile_eq_of_unique {files : Files} {name : CStr} {parent : Int32} {i : Slot}
    (hi : Answers files name parent i)
    (huniq : ∀ j, Answers files name parent j → j = i) :
    findFile files name parent = some i := by
  cases hfind : findFile files name parent with
  | none => exact absurd hi (findFile_none_iff.mp hfind i)
  | some j => rw [huniq j (findFile_some hfind)]

theorem findFree_some {files : Files} {i : Slot} (h : findFree files = some i) :
    (files i).used = 0 := by
  have htest := List.find?_some h
  exact of_decide_eq_true htest

/-! ## The stored name -/

/-- The copy loop `for (i = 0; i < 31 && name[i]; i++) dst[i] = name[i]`, from
index `i` on with `n` iterations left. -/
def copyNameLoop (name : CStr) : Nat → Nat → CharArray maxFilename → CharArray maxFilename
  | 0, _, dst => dst
  | n + 1, i, dst =>
      if name.byte i = 0 then dst
      else copyNameLoop name n (i + 1) (dst.set i (name.byte i))

/-- The name field after the copy loop and the store of the final NUL. -/
def storeName (name : CStr) (old : CharArray maxFilename) : CharArray maxFilename :=
  (copyNameLoop name (maxFilename - 1) 0 old).set (maxFilename - 1) 0

theorem copyNameLoop_apply (name : CStr) (n : Nat) :
    ∀ (i : Nat) (dst : CharArray maxFilename) (k : Fin maxFilename),
      copyNameLoop name n i dst k =
        if i ≤ k.val ∧ k.val < i + n ∧ k.val < name.length then name.byte k.val else dst k := by
  induction n with
  | zero =>
      intro i dst k
      rw [if_neg (by omega)]
      rfl
  | succ n ih =>
      intro i dst k
      rw [copyNameLoop]
      split
      · rename_i hstop
        rw [CStr.byte_eq_zero_iff] at hstop
        rw [if_neg (by omega)]
      · rename_i hgo
        rw [CStr.byte_eq_zero_iff, not_le] at hgo
        rw [ih]
        exact dst.ite_set name.byte k (by omega)

/-- The stored name, byte by byte: the given bytes, then what the slot held
before, and a NUL at the last index. -/
theorem storeName_apply (name : CStr) (old : CharArray maxFilename) (k : Fin maxFilename) :
    storeName name old k =
      if k.val = 31 then 0
      else if k.val < name.length then name.byte k.val else old k := by
  have hk : k.val < 32 := k.isLt
  simp only [storeName, CharArray.set, copyNameLoop_apply, maxFilename]
  by_cases h31 : k.val = 31
  · simp [h31]
  · rw [if_neg (by omega), if_neg h31]
    congr 1
    exact propext (by omega)

/-- The comparison from index `j` on, as a statement about the bytes: as long
as the terminator of `name` was not passed, it compares up to and including
that terminator, or to the end of the array. -/
theorem matchLoop_iff (name : CStr) (stored : CharArray maxFilename) (n : Nat) :
    ∀ j, j + n = maxFilename → j ≤ name.length →
      (matchLoop name stored n j = true ↔
        ∀ k : Fin maxFilename, j ≤ k.val → k.val ≤ name.length → stored k = name.byte k.val) := by
  induction n with
  | zero =>
      intro j hj _
      simp only [matchLoop, true_iff]
      intro k hk
      exact absurd k.isLt (by omega)
  | succ n ih =>
      intro j hj hlen
      have hlt : j < maxFilename := by omega
      simp only [matchLoop, dif_pos hlt]
      by_cases heq : name.byte j = stored ⟨j, hlt⟩
      · rw [if_neg (by simpa using heq)]
        by_cases hnul : name.byte j = 0
        · rw [if_pos ⟨hnul, heq ▸ hnul⟩]
          simp only [true_iff]
          intro k hjk hkl
          have hend := (name.byte_eq_zero_iff j).mp hnul
          obtain rfl : k = ⟨j, hlt⟩ := Fin.ext (by simp only; omega)
          exact heq.symm
        · have hgo : j < name.length := by
            rw [CStr.byte_eq_zero_iff] at hnul
            omega
          rw [if_neg (fun h => hnul h.1), ih (j + 1) (by omega) hgo]
          constructor
          · intro h k hjk hkl
            by_cases hk : k.val = j
            · obtain rfl : k = ⟨j, hlt⟩ := Fin.ext hk
              exact heq.symm
            · exact h k (by omega) hkl
          · intro h k hjk hkl
            exact h k (by omega) hkl
      · rw [if_pos (by simpa using heq)]
        simp only [Bool.false_eq_true, false_iff]
        intro h
        exact heq (h ⟨j, hlt⟩ (Nat.le_refl j) hlen).symm

theorem nameMatches_iff (name : CStr) (stored : CharArray maxFilename) :
    nameMatches name stored = true ↔
      ∀ k : Fin maxFilename, k.val ≤ name.length → stored k = name.byte k.val := by
  rw [nameMatches, matchLoop_iff name stored maxFilename 0 (Nat.zero_add _) (Nat.zero_le _)]
  exact ⟨fun h k => h k (Nat.zero_le _), fun h k _ => h k⟩

/-- On a field that holds a NUL, a match is equality of C strings. -/
theorem nameMatches_iff_toCStr {name : CStr} {stored : CharArray maxFilename}
    {nul : Fin maxFilename} (hnul : stored nul = 0) :
    nameMatches name stored = true ↔ stored.toCStr = name.bytes := by
  rw [nameMatches_iff, CharArray.toCStr_eq_iff stored name.noNul]
  constructor
  · intro h
    have hlen : name.length ≤ nul.val := by
      by_contra hlong
      have hbyte := h nul (by omega)
      rw [hnul] at hbyte
      exact hlong ((name.byte_eq_zero_iff nul.val).mp hbyte.symm)
    refine ⟨Nat.le_trans hlen (Nat.le_of_lt nul.isLt), fun k => ⟨fun hk => ?_, fun hk => ?_⟩⟩
    · rw [h k (Nat.le_of_lt hk), name.byte_of_lt hk]
    · rw [h k (Nat.le_of_eq hk), CStr.byte_eq_zero_iff]
      exact Nat.le_of_eq hk.symm
  · rintro ⟨hlen, h⟩ k hk
    rcases Nat.lt_or_eq_of_le hk with hlt | heq
    · rw [(h k).1 hlt, name.byte_of_lt hlt]
    · rw [(h k).2 heq, eq_comm, CStr.byte_eq_zero_iff]
      exact Nat.le_of_eq heq.symm

/-- The given name fits the slot: it has at most 31 bytes, and the byte that
should terminate it is already NUL there (at index 31 the code stores it). -/
def NameFits (name : CStr) (old : CharArray maxFilename) : Prop :=
  ∃ h : name.length ≤ 31, name.length = 31 ∨ old ⟨name.length, Nat.lt_succ_of_le h⟩ = 0

instance (name : CStr) (old : CharArray maxFilename) : Decidable (NameFits name old) :=
  inferInstanceAs (Decidable (∃ _ : name.length ≤ 31, _))

theorem storeName_last (name : CStr) (old : CharArray maxFilename) :
    storeName name old ⟨31, by decide⟩ = 0 := by
  rw [storeName_apply, if_pos rfl]

/-- The stored name is the given one exactly when the name fits the slot. -/
theorem toCStr_storeName_iff (name : CStr) (old : CharArray maxFilename) :
    (storeName name old).toCStr = name.bytes ↔ NameFits name old := by
  rw [← nameMatches_iff_toCStr (storeName_last name old), nameMatches_iff]
  constructor
  · intro h
    have hlen : name.length ≤ 31 := by
      by_contra hlong
      have h31 := h ⟨31, by decide⟩ (by simp only; omega)
      rw [storeName_last] at h31
      have := (name.byte_eq_zero_iff 31).mp h31.symm
      omega
    refine ⟨hlen, ?_⟩
    by_cases h31 : name.length = 31
    · exact Or.inl h31
    · right
      have hend := h ⟨name.length, Nat.lt_succ_of_le hlen⟩ (Nat.le_refl _)
      rw [storeName_apply, if_neg h31, if_neg (Nat.lt_irrefl _)] at hend
      rw [hend, CStr.byte_eq_zero_iff]
  · rintro ⟨hlen, hend⟩ k hk
    rw [storeName_apply]
    rcases Nat.lt_or_eq_of_le hk with hlt | heq
    · rw [if_neg (by omega), if_pos hlt]
    · have hnul : name.byte k.val = 0 := by
        rw [CStr.byte_eq_zero_iff]
        exact Nat.le_of_eq heq.symm
      rw [hnul]
      rcases hend with h31 | hres
      · rw [if_pos (heq.trans h31)]
      · split
        · rfl
        · rw [if_neg (by omega), ← hres]
          exact congrArg old (Fin.ext heq)

/-- The stored name answers a search for the given one exactly when it fits. -/
theorem nameMatches_storeName_iff (name : CStr) (old : CharArray maxFilename) :
    nameMatches name (storeName name old) = true ↔ NameFits name old := by
  rw [nameMatches_iff_toCStr (storeName_last name old), toCStr_storeName_iff]

end FalastinOS.DiskFs
