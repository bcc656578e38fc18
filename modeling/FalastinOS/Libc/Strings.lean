/-
  Libc/Strings.lean --- `strstr` of `libc.c`.

  The outer loop tries each place of the haystack in turn.  The inner one advances two
  pointers over the characters that agree and has three ways to stop: the haystack ends,
  the needle ends, or two characters differ.  Only the second is a match, and the test
  behind the loop looks for it alone.

  A read behind the terminator of either string is an error here.
-/
import FalastinOS.Foundation.CString
import FalastinOS.Foundation.Execution

set_option autoImplicit false

namespace FalastinOS.Libc

open FalastinOS.Foundation

/-- A read behind the terminator of a string. -/
structure Overread where
  index : Nat
  deriving DecidableEq, Repr

/-- `*p` for a pointer to index `i` of a string. -/
def peek (s : CStr) (i : Nat) : Except Overread UInt8 :=
  if i ≤ s.length then .ok (s.byte i) else .error ⟨i⟩

/-- `while (*h && *n && *h == *n) { h++; n++; }` for at most `fuel` rounds; where `n` is in
the end.  Each round goes one character further in the needle. -/
def matchLoop (haystack needle : CStr) : Nat → Nat → Nat → Except Overread Nat
  | 0, _, n => .ok n
  | fuel + 1, h, n => do
      let a ← peek haystack h
      if a = 0 then return n
      let b ← peek needle n
      if b = 0 then return n
      if a = b then matchLoop haystack needle fuel (h + 1) (n + 1) else return n

/-- `for (; *haystack; haystack++)` for at most `fuel` rounds; no result is a null pointer. -/
def strstrLoop (haystack needle : CStr) : Nat → Nat → Except Overread (Option Nat)
  | 0, _ => .ok none
  | fuel + 1, i => do
      let a ← peek haystack i
      if a = 0 then return none
      let n ← matchLoop haystack needle (needle.length + 1) i 0
      let b ← peek needle n
      if b = 0 then return some i
      strstrLoop haystack needle fuel (i + 1)

/-- `strstr(haystack, needle)`, as an offset into the haystack. -/
def strstr (haystack needle : CStr) : Except Overread (Option Nat) := do
  let b ← peek needle 0
  if b = 0 then return some 0
  strstrLoop haystack needle (haystack.length + 1) 0

/-- The needle stands at offset `k` of the haystack. -/
def OccursAt (haystack needle : CStr) (k : Nat) : Prop :=
  k ≤ haystack.length ∧ needle.bytes <+: haystack.bytes.drop k

theorem peek_of_le {s : CStr} {i : Nat} (h : i ≤ s.length) : peek s i = .ok (s.byte i) := if_pos h

theorem byte_ne_zero_of_lt {s : CStr} {i : Nat} (h : i < s.length) : s.byte i ≠ 0 := by
  rw [ne_eq, CStr.byte_eq_zero_iff]
  omega

theorem drop_eq_cons {s : CStr} {i : Nat} (h : i < s.length) :
    s.bytes.drop i = s.byte i :: s.bytes.drop (i + 1) := by
  rw [CStr.byte_of_lt s h]
  exact List.drop_eq_getElem_cons h

theorem drop_length (s : CStr) : s.bytes.drop s.length = [] := List.drop_length

/-- The inner loop stays inside both strings, and gets to the end of the needle exactly if
what is left of it stands at `h`. -/
theorem matchLoop_spec (haystack needle : CStr) (fuel : Nat) : ∀ h n, h ≤ haystack.length →
    n ≤ needle.length → needle.length - n < fuel →
    ∃ stop, matchLoop haystack needle fuel h n = .ok stop ∧ stop ≤ needle.length ∧
      (stop = needle.length ↔ needle.bytes.drop n <+: haystack.bytes.drop h) := by
  induction fuel with
  | zero => exact fun _ _ _ _ hfuel => absurd hfuel (Nat.not_lt_zero _)
  | succ fuel ih =>
      intro h n hh hn hfuel
      rw [matchLoop, peek_of_le hh, ok_bind, peek_of_le hn, ok_bind]
      rcases Nat.lt_or_eq_of_le hn with hn' | rfl
      · rw [drop_eq_cons hn', if_neg (byte_ne_zero_of_lt hn')]
        rcases Nat.lt_or_eq_of_le hh with hh' | rfl
        · rw [drop_eq_cons hh', if_neg (byte_ne_zero_of_lt hh'), List.cons_prefix_cons]
          by_cases hsame : haystack.byte h = needle.byte n
          · obtain ⟨stop, hstop, hle, hiff⟩ := ih (h + 1) (n + 1) hh' hn' (by omega)
            refine ⟨stop, ?_, hle, ?_⟩
            · rw [if_pos hsame]
              exact hstop
            · rw [hiff, hsame]
              simp
          · refine ⟨n, ?_, hn, iff_of_false (by omega) fun hp => hsame hp.1.symm⟩
            rw [if_neg hsame]
            rfl
        · refine ⟨n, ?_, hn, iff_of_false (by omega) ?_⟩
          · rw [if_pos ((CStr.byte_eq_zero_iff _ _).mpr (Nat.le_refl _))]
            rfl
          · rw [drop_length]
            simp
      · refine ⟨needle.length, ?_, Nat.le_refl _, iff_of_true rfl ?_⟩
        · rw [if_pos (c := needle.byte needle.length = 0)
            ((CStr.byte_eq_zero_iff _ _).mpr (Nat.le_refl _)), ite_self]
          rfl
        · rw [drop_length]
          exact List.nil_prefix

/-- The outer loop finds the first place from `i` on. -/
theorem strstrLoop_spec (haystack : CStr) {needle : CStr} (hneedle : 0 < needle.length)
    (fuel : Nat) : ∀ i, i ≤ haystack.length → haystack.length - i < fuel →
    ∃ r, strstrLoop haystack needle fuel i = .ok r ∧
      (∀ k, r = some k → i ≤ k ∧ OccursAt haystack needle k ∧
        ∀ j, i ≤ j → j < k → ¬ OccursAt haystack needle j) ∧
      (r = none → ∀ j, i ≤ j → ¬ OccursAt haystack needle j) := by
  induction fuel with
  | zero => exact fun _ _ hfuel => absurd hfuel (Nat.not_lt_zero _)
  | succ fuel ih =>
      intro i hi hfuel
      rw [strstrLoop, peek_of_le hi, ok_bind]
      rcases Nat.lt_or_eq_of_le hi with hlt | rfl
      · obtain ⟨stop, hstop, hle, hiff⟩ :=
          matchLoop_spec haystack needle (needle.length + 1) i 0 hi (Nat.zero_le _) (by omega)
        rw [if_neg (byte_ne_zero_of_lt hlt), hstop, ok_bind, peek_of_le hle, ok_bind]
        rw [List.drop_zero] at hiff
        by_cases hend : needle.byte stop = 0
        · have hwhole : stop = needle.length :=
            Nat.le_antisymm hle ((CStr.byte_eq_zero_iff _ _).mp hend)
          refine ⟨some i, by rw [if_pos hend]; rfl, fun k hk => ?_, fun h => nomatch h⟩
          obtain rfl := Option.some.inj hk
          exact ⟨Nat.le_refl _, ⟨hi, hiff.mp hwhole⟩, fun j hj hj' => by omega⟩
        · have hnot : ¬ OccursAt haystack needle i := fun hocc =>
            hend ((CStr.byte_eq_zero_iff _ _).mpr (Nat.le_of_eq (hiff.mpr hocc.2).symm))
          obtain ⟨r, hr, hsome, hnone⟩ := ih (i + 1) hlt (by omega)
          -- what holds from the next place on holds from here on, since nothing stands here
          have hextend : ∀ j, i ≤ j → ¬ OccursAt haystack needle j ∨ i + 1 ≤ j := by
            intro j hj
            rcases Nat.lt_or_eq_of_le hj with hlater | rfl
            · exact .inr hlater
            · exact .inl hnot
          refine ⟨r, by rw [if_neg hend]; exact hr, fun k hk => ?_, fun h j hj => ?_⟩
          · obtain ⟨hik, hocc, hfirst⟩ := hsome k hk
            exact ⟨Nat.le_of_succ_le hik, hocc, fun j hj hjk =>
              (hextend j hj).elim id fun hlater => hfirst j hlater hjk⟩
          · exact (hextend j hj).elim id fun hlater => hnone h j hlater
      · refine ⟨none, by rw [if_pos ((CStr.byte_eq_zero_iff _ _).mpr (Nat.le_refl _))]; rfl,
          fun k hk => (nomatch hk), fun _ j hj hocc => ?_⟩
        -- a needle with characters does not stand at the end
        obtain ⟨hle, hprefix⟩ := hocc
        obtain rfl := Nat.le_antisymm hle hj
        rw [drop_length, List.prefix_nil] at hprefix
        rw [CStr.length, hprefix] at hneedle
        exact absurd hneedle (Nat.lt_irrefl 0)

/-- `strstr` returns the first place of the needle, or a null pointer if it has none, and
reads neither string behind its terminator. -/
theorem strstr_first (haystack needle : CStr) :
    ∃ r, strstr haystack needle = .ok r ∧
      (∀ k, r = some k ↔
        OccursAt haystack needle k ∧ ∀ j, j < k → ¬ OccursAt haystack needle j) ∧
      (r = none ↔ ∀ k, ¬ OccursAt haystack needle k) := by
  have hfound : ∃ r, strstr haystack needle = .ok r ∧
      (∀ k, r = some k → OccursAt haystack needle k ∧
        ∀ j, j < k → ¬ OccursAt haystack needle j) ∧
      (r = none → ∀ j, ¬ OccursAt haystack needle j) := by
    rw [strstr, peek_of_le (Nat.zero_le _), ok_bind]
    by_cases hempty : needle.byte 0 = 0
    · have hnil : needle.bytes = [] :=
        List.length_eq_zero_iff.mp (Nat.le_zero.mp ((CStr.byte_eq_zero_iff _ _).mp hempty))
      refine ⟨some 0, by rw [if_pos hempty]; rfl, fun k hk => ?_, fun h => nomatch h⟩
      obtain rfl := Option.some.inj hk
      refine ⟨⟨Nat.zero_le _, ?_⟩, fun j hj => absurd hj (Nat.not_lt_zero j)⟩
      rw [hnil]
      exact List.nil_prefix
    · have hneedle : 0 < needle.length := by
        rw [CStr.byte_eq_zero_iff] at hempty
        omega
      obtain ⟨r, hr, hsome, hnone⟩ := strstrLoop_spec haystack hneedle
        (haystack.length + 1) 0 (Nat.zero_le _) (by omega)
      refine ⟨r, by rw [if_neg hempty]; exact hr, fun k hk => ?_, fun h j => ?_⟩
      · obtain ⟨-, hocc, hfirst⟩ := hsome k hk
        exact ⟨hocc, fun j hj => hfirst j (Nat.zero_le _) hj⟩
      · exact hnone h j (Nat.zero_le _)
  obtain ⟨r, hr, hsome, hnone⟩ := hfound
  refine ⟨r, hr, fun k => ⟨hsome k, ?_⟩, hnone, ?_⟩
  · rintro ⟨hocc, hfirst⟩
    cases r with
    | none => exact absurd hocc (hnone rfl k)
    | some k' =>
        obtain ⟨hocc', hfirst'⟩ := hsome k' rfl
        rcases Nat.lt_trichotomy k k' with hlt | rfl | hlt
        · exact absurd hocc (hfirst' k hlt)
        · rfl
        · exact absurd hocc' (hfirst k' hlt)
  · intro hall
    cases r with
    | none => rfl
    | some k => exact absurd (hsome k rfl).1 (hall k)

end FalastinOS.Libc
