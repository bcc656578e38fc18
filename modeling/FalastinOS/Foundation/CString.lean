/-
  Foundation/CString.lean --- C strings and fixed character arrays.

  A C string argument is its bytes before the terminator; no NUL is among them,
  and reading at the length gives the terminator.  A fixed array of characters
  is a map from its indices; read as a C string it is the part before its first
  NUL, or the whole array when it holds none.  In a memory, the C string at an
  address is what stands from there to the next NUL.
-/
import FalastinOS.Foundation.Memory
import Mathlib.Data.List.GetD
import Mathlib.Data.List.OfFn
import Mathlib.Data.List.TakeWhile

set_option autoImplicit false

namespace FalastinOS.Foundation

/-- A NUL-terminated string, by the bytes before its terminator. -/
structure CStr where
  bytes : List UInt8
  noNul : (0 : UInt8) ∉ bytes
  deriving DecidableEq

namespace CStr

theorem eq_of_bytes {s t : CStr} (h : s.bytes = t.bytes) : s = t := by
  cases s
  cases t
  cases h
  rfl

/-- `strlen`. -/
def length (s : CStr) : Nat := s.bytes.length

/-- The byte at index `j`: the terminator stands at the length. -/
def byte (s : CStr) (j : Nat) : UInt8 := s.bytes.getD j 0

theorem byte_of_lt (s : CStr) {j : Nat} (h : j < s.length) : s.byte j = s.bytes[j] :=
  List.getD_eq_getElem _ _ h

theorem byte_eq_zero_iff (s : CStr) (j : Nat) : s.byte j = 0 ↔ s.length ≤ j := by
  unfold byte length
  constructor
  · intro h
    by_contra hlt
    have hj : j < s.bytes.length := by omega
    rw [List.getD_eq_getElem _ _ hj] at h
    exact s.noNul (h ▸ List.getElem_mem hj)
  · intro h
    exact List.getD_eq_default _ _ h

end CStr

/-- The bytes of a string literal of the source. -/
def text (s : String) : List UInt8 := s.toList.map fun c => UInt8.ofNat c.toNat

/-- A fixed array of `n` characters. -/
abbrev CharArray (n : Nat) : Type := Fin n → UInt8

namespace CharArray

variable {n : Nat}

/-- The array read as a C string. -/
def toCStr (a : CharArray n) : List UInt8 := (List.ofFn a).takeWhile (· ≠ 0)

theorem zero_notMem_toCStr (a : CharArray n) : (0 : UInt8) ∉ a.toCStr := by
  intro hmem
  have htest := List.mem_takeWhile_imp hmem
  simp at htest

/-- Store a character; an index outside the array is not one a C program may
use, and the guards of the modelled loops exclude it. -/
def set (a : CharArray n) (i : Nat) (b : UInt8) : CharArray n := fun k =>
  if k.val = i then b else a k

/-- A loop that copies the bytes of `source`: the store at `i`, and then those at the
indices `later`. -/
theorem ite_set (a : CharArray n) {i : Nat} (source : Nat → UInt8) {now later : Prop}
    [Decidable now] [Decidable later] (k : Fin n) (h : now ↔ k.val = i ∨ later) :
    (if later then source k.val else a.set i (source i) k) =
      if now then source k.val else a k := by
  by_cases hlater : later
  · rw [if_pos hlater, if_pos (h.mpr (.inr hlater))]
  · rw [if_neg hlater, set]
    by_cases hk : k.val = i
    · rw [if_pos hk, if_pos (h.mpr (.inl hk)), hk]
    · rw [if_neg hk, if_neg (fun hnow => (h.mp hnow).elim hk hlater)]

/-- Reading an array as a C string gives `s` exactly when the array starts with
the bytes of `s` and, where there is room, a NUL follows them. -/
theorem toCStr_eq_iff (a : CharArray n) {s : List UInt8} (hs : (0 : UInt8) ∉ s) :
    a.toCStr = s ↔ s.length ≤ n ∧ ∀ k : Fin n,
      (∀ h : k.val < s.length, a k = s[k.val]) ∧ (k.val = s.length → a k = 0) := by
  induction n generalizing s with
  | zero =>
      simp only [toCStr, List.ofFn_zero, List.takeWhile_nil]
      constructor
      · rintro rfl
        exact ⟨Nat.le_refl 0, fun k => k.elim0⟩
      · rintro ⟨hlen, _⟩
        exact (List.length_eq_zero_iff.mp (Nat.le_zero.mp hlen)).symm
  | succ n ih =>
      have hcons : a.toCStr = if a 0 = 0 then [] else a 0 :: toCStr fun i => a i.succ := by
        by_cases ha : a 0 = 0 <;> simp [toCStr, List.ofFn_succ, ha]
      rw [hcons]
      cases s with
      | nil =>
          by_cases ha : a 0 = 0
          · simp only [ha, if_true, true_iff]
            refine ⟨Nat.zero_le _, fun k => ⟨fun h => absurd h (by simp), fun h => ?_⟩⟩
            rw [show k = 0 from Fin.ext h, ha]
          · simp only [ha, if_false, reduceCtorEq, false_iff]
            rintro ⟨_, h⟩
            exact ha ((h 0).2 rfl)
      | cons b s =>
          rw [List.mem_cons, not_or] at hs
          have hb : b ≠ 0 := fun h => hs.1 h.symm
          by_cases ha : a 0 = 0
          · simp only [ha, if_true, reduceCtorEq, false_iff]
            rintro ⟨_, h⟩
            have h0 : a 0 = b := by simpa using (h 0).1 (by simp)
            exact hb (h0 ▸ ha)
          · simp only [ha, if_false, List.cons.injEq, ih _ hs.2]
            constructor
            · rintro ⟨h0, hlen, htail⟩
              refine ⟨by simpa using hlen, fun k => ?_⟩
              refine Fin.cases ?_ (fun i => ?_) k
              · exact ⟨fun _ => by simpa using h0, fun h => absurd h (by simp)⟩
              · exact ⟨fun h => by simpa using (htail i).1 (by simpa using h),
                  fun h => (htail i).2 (by simpa using h)⟩
            · rintro ⟨hlen, hk⟩
              refine ⟨by simpa using (hk 0).1 (by simp), by simpa using hlen, fun i => ?_⟩
              exact ⟨fun h => by simpa using (hk i.succ).1 (by simpa using h),
                fun h => (hk i.succ).2 (by simpa using h)⟩

end CharArray

/-- The C string at address `a`. -/
def StringAt (m : Mem) : Nat → List UInt8 → Prop
  | a, [] => m a = 0
  | a, c :: s => c ≠ 0 ∧ m a = c ∧ StringAt m (a + 1) s

namespace StringAt

variable {m m' : Mem} {s t : List UInt8}

/-- There is only one string at an address. -/
theorem unique {a : Nat} (hs : StringAt m a s) (ht : StringAt m a t) : s = t := by
  induction s generalizing a t with
  | nil =>
      cases t with
      | nil => rfl
      | cons d t => exact absurd (ht.2.1.symm.trans hs) ht.1
  | cons c s ih =>
      cases t with
      | nil => exact absurd (hs.2.1.symm.trans ht) hs.1
      | cons d t => rw [← hs.2.1, ← ht.2.1, ih hs.2.2 ht.2.2]

/-- A string depends only on its own bytes and its terminator. -/
theorem congr {a : Nat} (h : StringAt m a s)
    (hsame : ∀ x, a ≤ x → x ≤ a + s.length → m' x = m x) : StringAt m' a s := by
  induction s generalizing a with
  | nil => exact (hsame a (Nat.le_refl a) (Nat.le_add_right _ _)).trans h
  | cons c s ih =>
      refine ⟨h.1, (hsame a (Nat.le_refl a) (Nat.le_add_right _ _)).trans h.2.1, ?_⟩
      refine ih h.2.2 fun x hlow hhigh => hsame x (by omega) ?_
      rw [List.length_cons]
      omega

/-- The end of a string is a string. -/
theorem drop {a : Nat} (h : StringAt m a (s ++ t)) : StringAt m (a + s.length) t := by
  induction s generalizing a with
  | nil => exact h
  | cons c s ih =>
      rw [List.length_cons, show a + (s.length + 1) = a + 1 + s.length by omega]
      exact ih h.2.2

/-- A string with a NUL stored behind its first part is its first part. -/
theorem cut {a : Nat} (h : StringAt m a (s ++ t)) :
    StringAt (m.writeByte (a + s.length) 0) a s := by
  induction s generalizing a with
  | nil => exact Mem.writeByte_self m a 0
  | cons c s ih =>
      refine ⟨h.1, ?_, ?_⟩
      · rw [Mem.writeByte_of_ne m 0 (by rw [List.length_cons]; omega)]
        exact h.2.1
      · rw [List.length_cons, show a + (s.length + 1) = a + 1 + s.length by omega]
        exact ih h.2.2

theorem zero_notMem {a : Nat} (h : StringAt m a s) : (0 : UInt8) ∉ s := by
  induction s generalizing a with
  | nil => exact List.not_mem_nil
  | cons c s ih => exact fun hmem => (List.mem_cons.mp hmem).elim (fun hc => h.1 hc.symm) (ih h.2.2)

/-- The bytes of a string, its terminator included. -/
theorem byte {a : Nat} (h : StringAt m a s) : ∀ k ≤ s.length, m (a + k) = s.getD k 0 := by
  induction s generalizing a with
  | nil => exact fun k hk => Nat.le_zero.mp hk ▸ h
  | cons c s ih =>
      rintro (_ | k) hk
      · exact h.2.1
      · rw [List.getD_cons_succ, ← ih h.2.2 k (Nat.le_of_succ_le_succ hk), Nat.add_right_comm,
          Nat.add_assoc]

/-- A string read from an array that begins with it. -/
theorem toCStr_eq {n : Nat} (h : StringAt m 0 s) (hlen : s.length ≤ n) :
    CharArray.toCStr (fun k : Fin n => m k.val) = s := by
  refine (CharArray.toCStr_eq_iff _ h.zero_notMem).mpr ⟨hlen, fun k => ⟨fun hk => ?_, fun hk => ?_⟩⟩
  · have hbyte := h.byte k.val (Nat.le_of_lt hk)
    rwa [Nat.zero_add, List.getD_eq_getElem _ _ hk] at hbyte
  · have hbyte := h.byte k.val (Nat.le_of_eq hk)
    rwa [Nat.zero_add, hk, List.getD_eq_default _ _ (Nat.le_refl _), ← hk] at hbyte

end StringAt

/-- What is needed to find a string at an address. -/
theorem stringAt_of_bytes {m : Mem} {s : List UInt8} (hs : (0 : UInt8) ∉ s) : ∀ {a : Nat},
    (∀ k, k ≤ s.length → m (a + k) = s.getD k 0) → StringAt m a s := by
  induction s with
  | nil => exact fun h => h 0 (Nat.le_refl 0)
  | cons c s ih =>
      intro a h
      rw [List.mem_cons, not_or] at hs
      refine ⟨fun hc => hs.1 hc.symm, h 0 (Nat.zero_le _), ih hs.2 fun k hk => ?_⟩
      have hbyte := h (k + 1) (by simpa using hk)
      rw [List.getD_cons_succ] at hbyte
      rw [← hbyte]
      congr 1
      omega

end FalastinOS.Foundation
