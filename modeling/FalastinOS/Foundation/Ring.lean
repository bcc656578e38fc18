/-
  Foundation/Ring.lean --- records laid one after another in a ring of bytes.

  Positions in the ring are counted without bound; position `p` is at address `p % n`.
  A producer puts each record at its position and moves on by the record's stride, and
  `Laid m n head rs tail` says that the records `rs` lie so between the consumer's
  position and the producer's.  No record that is laid is split at the end of the ring.

  `Laid.blit` is the one fact about it that is not read off the definition: the next
  record destroys no record that is still there, as long as head and tail stay within
  one turn of the ring.

  Nothing here mentions a particular program.
-/
import FalastinOS.Foundation.Memory
import Mathlib.Data.List.GetD

set_option autoImplicit false

namespace FalastinOS.Foundation

namespace Mem

/-- Copy bytes to an address. -/
def blit (m : Mem) (a : Nat) (bytes : List UInt8) : Mem := fun x =>
  if a ≤ x ∧ x < a + bytes.length then bytes.getD (x - a) 0 else m x

/-- The `n` bytes from an address on. -/
def slice (m : Mem) (a n : Nat) : List UInt8 := (List.range n).map fun i => m (a + i)

@[simp] theorem length_slice (m : Mem) (a n : Nat) : (m.slice a n).length = n := by
  simp [slice]

/-- A slice is the list of its bytes. -/
theorem slice_eq_iff (m : Mem) (a : Nat) (bytes : List UInt8) :
    m.slice a bytes.length = bytes ↔ ∀ i (h : i < bytes.length), m (a + i) = bytes[i] := by
  constructor
  · intro h i hi
    have hget := List.getElem_of_eq h (i := i) (by simpa using hi)
    simpa [slice] using hget
  · intro h
    refine List.ext_getElem (by simp) fun i _ hi => ?_
    simpa [slice] using h i hi

theorem slice_congr {m m' : Mem} {a n : Nat} (h : ∀ x, a ≤ x → x < a + n → m' x = m x) :
    m'.slice a n = m.slice a n := by
  refine List.map_congr_left fun i hi => ?_
  have hi : i < n := List.mem_range.mp hi
  exact h (a + i) (by omega) (by omega)

/-- What was copied is there. -/
theorem slice_blit (m : Mem) (a : Nat) (bytes : List UInt8) :
    (m.blit a bytes).slice a bytes.length = bytes := by
  rw [slice_eq_iff]
  intro i hi
  rw [blit, if_pos (by omega), Nat.add_sub_cancel_left, List.getD_eq_getElem _ _ hi]

/-- One copy behind the other is a copy of both. -/
theorem blit_append (m : Mem) (a : Nat) (bytes bytes' : List UInt8) :
    (m.blit a bytes).blit (a + bytes.length) bytes' = m.blit a (bytes ++ bytes') := by
  funext x
  rw [blit, blit, blit, List.length_append]
  by_cases hsecond : a + bytes.length ≤ x ∧ x < a + bytes.length + bytes'.length
  · rw [if_pos hsecond, if_pos (by omega), List.getD_append_right _ _ _ _ (by omega), Nat.sub_sub]
  · rw [if_neg hsecond]
    by_cases hfirst : a ≤ x ∧ x < a + bytes.length
    · rw [if_pos hfirst, if_pos (by omega), List.getD_append _ _ _ _ (by omega)]
    · rw [if_neg hfirst, if_neg (by omega)]

theorem blit_outside (m : Mem) {a x : Nat} {bytes : List UInt8}
    (h : x < a ∨ a + bytes.length ≤ x) : m.blit a bytes x = m x := by
  rw [blit, if_neg (by omega)]

/-- What lies outside the copy is untouched. -/
theorem slice_blit_of_disjoint (m : Mem) {a b n : Nat} {bytes : List UInt8}
    (h : b + n ≤ a ∨ a + bytes.length ≤ b) : (m.blit a bytes).slice b n = m.slice b n := by
  refine slice_congr fun x hx hx' => ?_
  rw [blit, if_neg (by omega)]

end Mem

/-! ## Records -/

/-- A record and the room it takes in the ring. -/
structure Record where
  bytes : List UInt8
  stride : Nat
  fits : bytes.length ≤ stride

/-- The records lie one after another from position `head` to position `tail` of a ring of
`n` bytes. -/
def Laid (m : Mem) (n : Nat) : Nat → List Record → Nat → Prop
  | head, [], tail => head = tail
  | head, r :: rs, tail =>
      head % n + r.stride ≤ n ∧ m.slice (head % n) r.bytes.length = r.bytes ∧
        Laid m n (head + r.stride) rs tail

namespace Laid

variable {m : Mem} {n head tail : Nat} {rs : List Record}

/-- The positions differ by the room the records take. -/
theorem tail_eq (h : Laid m n head rs tail) : tail = head + (rs.map Record.stride).sum := by
  induction rs generalizing head with
  | nil => simpa [Laid, eq_comm] using h
  | cons r rs ih =>
      have hrest := ih h.2.2
      simp only [List.map_cons, List.sum_cons]
      omega

/-- Two stretches, the second after the first and both within one turn: written straight
on from its first address, the second shares no address with the first. -/
theorem stretch_disjoint {p s q t : Nat} (hafter : p + s ≤ q) (hturn : q + t ≤ p + n) :
    p % n + s ≤ q % n ∨ q % n + t ≤ p % n := by
  obtain rfl | hn := Nat.eq_zero_or_pos n
  · simp only [Nat.mod_zero]
    omega
  · have hp := Nat.div_add_mod p n
    have hq := Nat.div_add_mod q n
    have hlow : p / n ≤ q / n := Nat.div_le_div_right (by omega)
    have hhigh : q / n ≤ p / n + 1 := by
      rw [← Nat.add_div_right p hn]
      exact Nat.div_le_div_right (by omega)
    obtain heq | heq : q / n = p / n ∨ q / n = p / n + 1 := by omega
    · rw [heq] at hq
      omega
    · rw [heq, Nat.mul_add, Nat.mul_one] at hq
      omega

/-- A copy to the producer's address destroys no record, even if it runs over the end of
the ring. -/
theorem blit (h : Laid m n head rs tail) (bytes : List UInt8)
    (hroom : tail + bytes.length ≤ head + n) :
    Laid (m.blit (tail % n) bytes) n head rs tail := by
  induction rs generalizing head with
  | nil => exact h
  | cons r rs ih =>
      obtain ⟨hunsplit, hslice, hrest⟩ := h
      have htail := hrest.tail_eq
      refine ⟨hunsplit, ?_, ih hrest (by omega)⟩
      have hfits := r.fits
      have hdisjoint := stretch_disjoint (p := head) (s := r.stride) (by omega) hroom
      rw [m.slice_blit_of_disjoint (by omega), hslice]

theorem append {mid : Nat} {rs' : List Record} (h : Laid m n head rs mid)
    (h' : Laid m n mid rs' tail) : Laid m n head (rs ++ rs') tail := by
  induction rs generalizing head with
  | nil =>
      obtain rfl : head = mid := h
      exact h'
  | cons r rs ih => exact ⟨h.1, h.2.1, ih h.2.2⟩

/-- The producer's next record. -/
theorem snoc (h : Laid m n head rs tail) (r : Record) (hunsplit : tail % n + r.stride ≤ n)
    (hroom : tail + r.stride ≤ head + n) :
    Laid (m.blit (tail % n) r.bytes) n head (rs ++ [r]) (tail + r.stride) := by
  have hfits := r.fits
  have hold : Laid (m.blit (tail % n) r.bytes) n head rs tail := h.blit _ (by omega)
  exact hold.append ⟨hunsplit, m.slice_blit _ _, rfl⟩

end Laid

end FalastinOS.Foundation
