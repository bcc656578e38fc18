/-
  Foundation/SeekFile.lean --- a file with an offset.

  What a program expects of a file it has opened: `read` takes what stands at the
  offset and moves the offset behind it, `write` puts its data there and leaves the
  rest of the file alone, and `seek` moves the offset.  A write behind the end fills
  the gap, and a write of nothing does nothing.

  `contents_write_eq_iff` says when a write leaves its data and nothing else: such a
  file can be stored as a whole.
-/
import Mathlib.Data.List.TakeDrop

set_option autoImplicit false

namespace FalastinOS.Foundation

/-- The contents of a file and an offset into it, which may lie behind the end. -/
structure SeekFile (α : Type) where
  contents : List α
  offset : Nat
  deriving DecidableEq

/-- Where a seek counts from. -/
inductive Whence where
  | start
  | here
  | finish
  deriving DecidableEq

namespace SeekFile

variable {α : Type}

/-- What a read of at most `n` items returns. -/
def peek (f : SeekFile α) (n : Nat) : List α := (f.contents.drop f.offset).take n

/-- The file after that read. -/
def read (f : SeekFile α) (n : Nat) : SeekFile α :=
  { f with offset := f.offset + (f.peek n).length }

/-- The file after `data` has been written; a gap is filled. -/
def write (fill : α) (f : SeekFile α) (data : List α) : SeekFile α :=
  if data = [] then f
  else
    { contents := f.contents.take f.offset ++
        (List.replicate (f.offset - f.contents.length) fill ++
          (data ++ f.contents.drop (f.offset + data.length)))
      offset := f.offset + data.length }

/-- The place a seek counts from. -/
def origin (f : SeekFile α) : Whence → Nat
  | .start => 0
  | .here => f.offset
  | .finish => f.contents.length

/-- The file after a seek; there is none if the new offset is negative or not below
`limit`. -/
def seek (limit : Nat) (f : SeekFile α) (w : Whence) (distance : Int) : Option (SeekFile α) :=
  if 0 ≤ f.origin w + distance ∧ f.origin w + distance < limit then
    some { f with offset := (f.origin w + distance).toNat }
  else none

variable (fill : α) (f : SeekFile α) {data : List α}

theorem length_contents_write (h : data ≠ []) :
    (f.write fill data).contents.length = max f.contents.length (f.offset + data.length) := by
  rw [write, if_neg h]
  simp only [List.length_append, List.length_take, List.length_replicate, List.length_drop]
  omega

/-- A write leaves its data and nothing else exactly if it covers the whole file. -/
theorem contents_write_eq_iff :
    (f.write fill data).contents = data ↔
      f.contents.length ≤ data.length ∧ (f.offset = 0 ∨ data = []) := by
  by_cases hdata : data = []
  · rw [write, if_pos hdata, hdata]
    simp
  · have hpos : 0 < data.length := List.length_pos_iff.mpr hdata
    constructor
    · intro h
      have hlength := f.length_contents_write fill hdata
      rw [h] at hlength
      exact ⟨by omega, .inl (by omega)⟩
    · rintro ⟨hle, hzero | hnil⟩
      · rw [write, if_neg hdata, hzero]
        simp [List.drop_eq_nil_of_le hle]
      · exact absurd hnil hdata

end SeekFile

end FalastinOS.Foundation
