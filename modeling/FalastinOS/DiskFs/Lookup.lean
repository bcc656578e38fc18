/-
  DiskFs/Lookup.lean --- `find_file` reads no name too far and misses no entry.

  The comparison of `find_file` runs over all 32 bytes of a stored name and looks at
  `name` at each of them, whatever the length of `name` is.  `findFile` of `Table` takes
  what stands behind the terminator for NULs; here a read there is an error, and
  `findFileReading_eq` says that there is none.  A name that ends inside the 32 bytes
  either differs from the stored one at its terminator or ends together with it.

  `findFile_exact` is the specification of the search that the other modules use.
-/
import FalastinOS.DiskFs.Table
import FalastinOS.Foundation.Execution
import FalastinOS.Libc.Strings

set_option autoImplicit false

namespace FalastinOS.DiskFs

open FalastinOS.Foundation
open FalastinOS.Libc (Overread peek peek_of_le)

/-! ## The search with its reads -/

/-- The inner loop of `find_file` from index `j` on, `n` iterations left. -/
def matchReading (name : CStr) (stored : CharArray maxFilename) : Nat → Nat → Except Overread Bool
  | 0, _ => .ok true
  | n + 1, j => do
      let a ← peek name j
      let c := if h : j < maxFilename then stored ⟨j, h⟩ else 0
      if a ≠ c then return false
      if a = 0 ∧ c = 0 then return true
      matchReading name stored n (j + 1)

/-- The outer loop of `find_file` over the slots that are left. -/
def findReading (files : Files) (name : CStr) (parent : Int32) :
    List Slot → Except Overread (Option Slot)
  | [] => .ok none
  | i :: rest =>
      if (files i).used ≠ 0 ∧ (files i).parent = parent then do
        if ← matchReading name (files i).name maxFilename 0 then return some i
        findReading files name parent rest
      else findReading files name parent rest

/-- `find_file(name, parent)`, with an error for a read behind the end of `name`. -/
def findFileReading (files : Files) (name : CStr) (parent : Int32) :
    Except Overread (Option Slot) :=
  findReading files name parent (List.finRange maxFiles)

/-- Slot `i` is in use below `parent`, and its name is the C string `name`. -/
structure Named (files : Files) (name : CStr) (parent : Int32) (i : Slot) : Prop where
  used : (files i).used ≠ 0
  parent : (files i).parent = parent
  name : (files i).name.toCStr = name.bytes

/-! ## The reads -/

/-- The comparison goes on behind an index only if `name` does not end there. -/
theorem matchReading_eq (name : CStr) (stored : CharArray maxFilename) (n : Nat) :
    ∀ {j : Nat}, j ≤ name.length →
      matchReading name stored n j = .ok (matchLoop name stored n j) := by
  induction n with
  | zero => exact fun _ => rfl
  | succ n ih =>
      intro j hj
      rw [matchReading, peek_of_le hj, ok_bind, matchLoop]
      dsimp only
      generalize (if h : j < maxFilename then stored ⟨j, h⟩ else 0) = c
      by_cases hdiffer : name.byte j ≠ c
      · rw [if_pos hdiffer, if_pos hdiffer]
        rfl
      · rw [if_neg hdiffer, if_neg hdiffer]
        by_cases hend : name.byte j = 0 ∧ c = 0
        · rw [if_pos hend, if_pos hend]
          rfl
        · have hsame : name.byte j = c := not_not.mp hdiffer
          have hmore : ¬ name.length ≤ j := by
            rw [← name.byte_eq_zero_iff]
            exact fun hzero => hend ⟨hzero, hsame ▸ hzero⟩
          rw [if_neg hend, if_neg hend]
          exact ih (by omega)

theorem findReading_eq (files : Files) (name : CStr) (parent : Int32) (slots : List Slot) :
    findReading files name parent slots = .ok (slots.find? fun i =>
      decide ((files i).used ≠ 0) && decide ((files i).parent = parent)
        && nameMatches name (files i).name) := by
  induction slots with
  | nil => rfl
  | cons i rest ih =>
      rw [findReading, List.find?_cons]
      by_cases hentry : (files i).used ≠ 0 ∧ (files i).parent = parent
      · rw [if_pos hentry, matchReading_eq _ _ _ (Nat.zero_le _), ok_bind]
        cases hmatch : matchLoop name (files i).name maxFilename 0 with
        | true =>
            rw [nameMatches, hmatch, decide_eq_true hentry.1, decide_eq_true hentry.2]
            rfl
        | false =>
            rw [nameMatches, hmatch, Bool.and_false]
            exact ih
      · have htest :
            (decide ((files i).used ≠ 0) && decide ((files i).parent = parent)) = false := by
          rw [← Bool.decide_and]
          exact decide_eq_false hentry
        rw [if_neg hentry, ih, htest, Bool.false_and]

/-- The search reads nothing behind the end of the name, and finds what `findFile` finds. -/
theorem findFileReading_eq (files : Files) (name : CStr) (parent : Int32) :
    findFileReading files name parent = .ok (findFile files name parent) :=
  findReading_eq files name parent _

/-! ## What is found -/

/-- The byte at index 31 ends every stored name. -/
abbrev Ended (files : Files) : Prop := ∀ i, (files i).name ⟨31, by decide⟩ = 0

variable {files : Files} {name : CStr} {parent : Int32}

theorem named_iff (hend : Ended files) (i : Slot) :
    Named files name parent i ↔ Answers files name parent i := by
  constructor
  · rintro ⟨hused, hparent, hname⟩
    exact ⟨hused, hparent, (nameMatches_iff_toCStr (hend i)).mpr hname⟩
  · rintro ⟨hused, hparent, hname⟩
    exact ⟨hused, hparent, (nameMatches_iff_toCStr (hend i)).mp hname⟩

/-- A stored name has at most 31 characters. -/
theorem Named.length_lt (hend : Ended files) {i : Slot} (h : Named files name parent i) :
    name.length < 32 := by
  have hbytes := (nameMatches_iff name _).mp ((named_iff hend i).mp h).name
  by_contra hlong
  have hlast := hbytes ⟨31, by decide⟩ (by simp only; omega)
  rw [hend i] at hlast
  have hle : name.length ≤ 31 := (name.byte_eq_zero_iff 31).mp hlast.symm
  omega

theorem findFile_eq_some_iff (hend : Ended files) (i : Slot) :
    findFile files name parent = some i ↔
      Named files name parent i ∧ ∀ j, Named files name parent j → i ≤ j := by
  simp only [named_iff hend]
  constructor
  · exact fun h => ⟨findFile_some h, fun j hj => findFile_le h hj⟩
  · rintro ⟨hi, hleast⟩
    cases hfind : findFile files name parent with
    | none => exact absurd hi (findFile_none_iff.mp hfind i)
    | some j =>
        exact congrArg some (le_antisymm (findFile_le hfind hi) (hleast j (findFile_some hfind)))

/-- In a table whose names end, `find_file` returns the first slot in use that has the parent
and the name, or -1 if there is none; and it reads no name behind its end. -/
theorem findFile_exact (files : Files) (hend : Ended files) (name : CStr) (parent : Int32) :
    ∃ found, findFileReading files name parent = .ok found ∧
      (∀ i, found = some i ↔
        Named files name parent i ∧ ∀ j, Named files name parent j → i ≤ j) ∧
      (found = none ↔ ∀ i, ¬ Named files name parent i) ∧
      (32 ≤ name.length → found = none) := by
  have hnone : findFile files name parent = none ↔ ∀ i, ¬ Named files name parent i := by
    simp only [named_iff hend, findFile_none_iff]
  refine ⟨findFile files name parent, findFileReading_eq files name parent,
    findFile_eq_some_iff hend, hnone, fun hlong => hnone.mpr fun i hi => ?_⟩
  exact absurd (hi.length_lt hend) (Nat.not_lt.mpr hlong)

/-- The name `lib`. -/
def libName : CStr := ⟨text "lib", by decide⟩

/-- Two entries of that name, in slots 3 and 5. -/
def twoEntries : Files := fun i =>
  ⟨storeName libName fun _ => 0, fun _ => 0, 0,
    if i.val = 3 ∨ i.val = 5 then 1 else 0, 0, 0⟩

/-- The first of them is found. -/
theorem findFile_exact_twoEntries :
    Ended twoEntries ∧
      findFileReading twoEntries libName 0 = .ok (some ⟨3, by decide⟩) := by
  have hend : Ended twoEntries := fun _ => storeName_last libName fun _ => 0
  obtain ⟨found, hok, hleast, -⟩ := findFile_exact twoEntries hend libName 0
  refine ⟨hend, hok.trans (congrArg Except.ok ((hleast _).mpr ⟨⟨by decide, rfl, by decide⟩, ?_⟩))⟩
  intro j hj
  have hused := hj.used
  rw [Fin.le_def]
  by_contra hlt
  refine hused (if_neg ?_)
  simp only at hlt
  omega

end FalastinOS.DiskFs
