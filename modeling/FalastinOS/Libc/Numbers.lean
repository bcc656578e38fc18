/-
  Libc/Numbers.lean --- decimal numbers, printed and read back.

  `fmt_write_int` takes the digits of a number from the last to the first, by division,
  and writes them out backwards.  A reader takes them from the first to the last, each
  time with what it has so far multiplied by ten.  `foldl_numeral` says that any reader
  that does one such step right reads the whole numeral right; `atoi` computes modulo
  2^32, and so does the negation on both sides, which is why the least integer makes
  the round trip like the others.
-/
import FalastinOS.Libc.Vsnprintf
import Mathlib.Data.Nat.Digits.Lemmas

set_option autoImplicit false

namespace FalastinOS.Libc

open FalastinOS.Foundation

/-! ## `atoi` -/

/-- `if (*s == '-') { sign = -1; s++; } else if (*s == '+') s++;`. -/
def readSign : List UInt8 → Int32 × List UInt8
  | [] => (1, [])
  | c :: s => if c = 45 then (-1, s) else if c = 43 then (1, s) else (1, c :: s)

/-- `while (*s >= '0' && *s <= '9') result = result * 10 + (*s++ - '0')`. -/
def atoiLoop (result : Int32) : List UInt8 → Int32
  | [] => result
  | c :: s =>
      if isDigit c then atoiLoop (result * 10 + Int32.ofNat (c.toNat - 48)) s else result

/-- `atoi(s)`. -/
def atoi (s : CStr) : Int32 :=
  let s := s.bytes.dropWhile (· = 32)
  let (sign, s) := readSign s
  atoiLoop 0 s * sign

/-! ## Numerals -/

/-- The numeral of a number in a base up to 16. -/
def numeralIn (base v : Nat) : List UInt8 :=
  if v = 0 then [48] else ((Nat.digits base v).map digitChar).reverse

/-- The decimal numeral of a number. -/
def numeral (v : Nat) : List UInt8 :=
  if v = 0 then [48] else ((Nat.digits 10 v).map digitChar).reverse

theorem toNat_digitChar {d : Nat} (h : d < 10) : (digitChar d).toNat = 48 + d := by
  rw [digitChar, if_pos h, UInt8.toNat_ofNat']
  omega

theorem isDigit_digitChar {d : Nat} (h : d < 10) : isDigit (digitChar d) = true := by
  have hchar := toNat_digitChar h
  simp only [isDigit, Bool.and_eq_true, decide_eq_true_eq, UInt8.le_iff_toNat_le, hchar]
  exact ⟨Nat.le_add_right _ _, by simpa using Nat.le_of_lt_succ (by omega : 48 + d < 58)⟩

section Base

variable {base : Nat}

/-- The digits behind those of the number without its last one. -/
theorem digits_step (hbase : 1 < base) {v : Nat} (h : 0 < v) :
    ((Nat.digits base v).map digitChar).reverse =
      ((Nat.digits base (v / base)).map digitChar).reverse ++ [digitChar (v % base)] := by
  rw [Nat.digits_def' hbase h, List.map_cons, List.reverse_cons]

theorem exists_digit_of_mem_numeralIn (hbase : 1 < base) {v : Nat} {c : UInt8}
    (h : c ∈ numeralIn base v) : ∃ d, d < base ∧ c = digitChar d := by
  unfold numeralIn at h
  split at h
  · rw [List.mem_singleton.mp h]
    exact ⟨0, Nat.lt_trans Nat.zero_lt_one hbase, rfl⟩
  · rw [List.mem_reverse] at h
    obtain ⟨d, hd, rfl⟩ := List.mem_map.mp h
    exact ⟨d, Nat.digits_lt_base hbase hd, rfl⟩

theorem numeralIn_ne_nil (hbase : 1 < base) (v : Nat) : numeralIn base v ≠ [] := by
  unfold numeralIn
  split
  · simp
  · rename_i hpos
    rw [digits_step hbase (Nat.pos_of_ne_zero hpos)]
    simp

/-- A reader that reads one more digit right reads a numeral right. -/
theorem foldl_numeralIn (hbase : 1 < base) {β : Type} {f : β → UInt8 → β} {g : Nat → β}
    (hstep : ∀ a d, d < base → f (g a) (digitChar d) = g (a * base + d)) (v : Nat) :
    (numeralIn base v).foldl f (g 0) = g v := by
  have hdigits : ∀ v, (((Nat.digits base v).map digitChar).reverse).foldl f (g 0) = g v := by
    intro v
    induction v using Nat.strong_induction_on with
    | _ v ih =>
        rcases Nat.eq_zero_or_pos v with rfl | hpos
        · simp
        · rw [digits_step hbase hpos, List.foldl_append, ih (v / base) (Nat.div_lt_self hpos hbase),
            List.foldl_cons, List.foldl_nil, hstep _ _ (Nat.mod_lt _ (by omega)),
            Nat.div_add_mod']
  unfold numeralIn
  split
  · rename_i hzero
    subst hzero
    rw [List.foldl_cons, List.foldl_nil, show (48 : UInt8) = digitChar 0 from rfl,
      hstep 0 0 (by omega), Nat.zero_mul, Nat.zero_add]
  · exact hdigits v

end Base

theorem isDigit_of_mem_numeral {v : Nat} {c : UInt8} (h : c ∈ numeral v) : isDigit c = true := by
  obtain ⟨d, hd, rfl⟩ := exists_digit_of_mem_numeralIn (by decide) h
  exact isDigit_digitChar hd

theorem numeral_ne_nil (v : Nat) : numeral v ≠ [] := numeralIn_ne_nil (by decide) v

theorem length_numeral_le {v k : Nat} (hk : 1 ≤ k) (h : v < 10 ^ k) : (numeral v).length ≤ k := by
  unfold numeral
  split
  · exact hk
  · rw [List.length_reverse, List.length_map]
    exact (Nat.digits_length_le_iff (by decide) v).mpr h

theorem foldl_numeral {β : Type} {f : β → UInt8 → β} {g : Nat → β}
    (hstep : ∀ a d, d < 10 → f (g a) (digitChar d) = g (a * 10 + d)) (v : Nat) :
    (numeral v).foldl f (g 0) = g v :=
  foldl_numeralIn (by decide) hstep v

/-! ## The digits of `fmt_write_int` -/

/-- The loop finds the digits if it may run often enough. -/
theorem digitLoop_eq {base : Nat} (hbase : 1 < base) (n : Nat) : ∀ v, v < base ^ n →
    digitLoop base n v = (Nat.digits base v).map digitChar := by
  induction n with
  | zero =>
      intro v hv
      obtain rfl : v = 0 := by simpa using hv
      simp [digitLoop]
  | succ n ih =>
      intro v hv
      rw [digitLoop]
      split
      · rename_i hpos
        rw [Nat.digits_def' hbase hpos, List.map_cons, ih (v / base) ?_]
        rw [Nat.pow_succ] at hv
        exact Nat.div_lt_of_lt_mul (Nat.mul_comm _ _ ▸ hv)
      · rename_i hzero
        obtain rfl : v = 0 := by omega
        simp

/-- Thirty-two rounds are enough for the digits of a 32-bit number in any base. -/
theorem reverse_digitLoop {base : Nat} (hbase : 1 < base) {v : Nat} (hv : v < 2 ^ 32) :
    (if v = 0 then [48] else digitLoop base 32 v).reverse = numeralIn base v := by
  unfold numeralIn
  split
  · rfl
  · rw [digitLoop_eq hbase 32 _ (Nat.lt_of_lt_of_le hv (Nat.pow_le_pow_left hbase 32))]

/-- What `fmt_write_int` writes for a signed number, without padding. -/
theorem tmpChars_reverse (val : Int32) :
    (tmpChars val 10 false).reverse =
      if val < 0 then 45 :: numeral (-val).toUInt32.toNat else numeral val.toUInt32.toNat := by
  have hnumeral : ∀ u : UInt32,
      (if u.toNat = 0 then [48] else digitLoop 10 32 u.toNat).reverse = numeral u.toNat :=
    fun u => reverse_digitLoop (by decide) u.toNat_lt
  unfold tmpChars
  by_cases hneg : val < 0
  · simp only [hneg, decide_true, Bool.not_false, Bool.and_self, if_true, List.reverse_append,
      hnumeral]
    rfl
  · simp only [hneg, decide_false, Bool.and_false, Bool.false_eq_true, if_false, hnumeral]

/-- What it writes for an unsigned one. -/
theorem tmpChars_reverse_unsigned {base : Nat} (hbase : 1 < base) (val : Int32) :
    (tmpChars val base true).reverse = numeralIn base val.toUInt32.toNat := by
  unfold tmpChars
  exact reverse_digitLoop hbase val.toUInt32.toNat_lt

/-! ## Reading back -/

theorem atoiLoop_eq (s : List UInt8) (h : ∀ c ∈ s, isDigit c = true) : ∀ result,
    atoiLoop result s = s.foldl (fun r c => r * 10 + Int32.ofNat (c.toNat - 48)) result := by
  induction s with
  | nil => exact fun _ => rfl
  | cons c s ih =>
      intro result
      rw [atoiLoop, if_pos (h c List.mem_cons_self),
        ih (fun c' hc' => h c' (List.mem_cons_of_mem _ hc')), List.foldl_cons]

/-- An `int` in which the digits of a number are gathered wraps around as the number does. -/
theorem foldl_digits_numeral (v : Nat) :
    (numeral v).foldl (fun r c => r * 10 + Int32.ofNat (c.toNat - 48)) 0 = Int32.ofNat v := by
  refine foldl_numeral (g := Int32.ofNat) (fun a d hd => ?_) v
  rw [toNat_digitChar hd, Nat.add_sub_cancel_left, Int32.ofNat_add, Int32.ofNat_mul]
  rfl

theorem atoiLoop_numeral (v : Nat) : atoiLoop 0 (numeral v) = Int32.ofNat v := by
  rw [atoiLoop_eq _ fun c hc => isDigit_of_mem_numeral hc, foldl_digits_numeral]

theorem ofNat_toUInt32 (x : Int32) : Int32.ofNat x.toUInt32.toNat = x := by
  rw [← UInt32.toInt32_ofNat', UInt32.ofNat_toNat, Int32.toInt32_toUInt32]

/-- A digit is neither a blank nor a sign. -/
theorem ne_of_isDigit {c c' : UInt8} (h : isDigit c = true) (h' : isDigit c' = false) : c ≠ c' := by
  rintro rfl
  exact nomatch h.symm.trans h'

theorem atoi_eq {s : CStr} {val : Int32} (h : s.bytes = (tmpChars val 10 false).reverse) :
    atoi s = val := by
  unfold atoi
  rw [h, tmpChars_reverse]
  by_cases hneg : val < 0
  · rw [if_pos hneg, List.dropWhile_cons_of_neg (by decide)]
    show atoiLoop 0 (numeral (-val).toUInt32.toNat) * -1 = val
    rw [atoiLoop_numeral, ofNat_toUInt32]
    grind
  · rw [if_neg hneg]
    cases hdigits : numeral val.toUInt32.toNat with
    | nil => exact absurd hdigits (numeral_ne_nil _)
    | cons c cs =>
        have hc : isDigit c = true := isDigit_of_mem_numeral (hdigits ▸ List.mem_cons_self)
        rw [List.dropWhile_cons_of_neg (by simpa using ne_of_isDigit hc (by decide))]
        simp only [readSign, if_neg (ne_of_isDigit hc (show isDigit 45 = false by decide)),
          if_neg (ne_of_isDigit hc (show isDigit 43 = false by decide))]
        rw [← hdigits, atoiLoop_numeral, ofNat_toUInt32]
        grind

/-- The format "%d". -/
def decimalFormat : CStr := ⟨text "%d", by decide⟩

theorem pieces_decimalFormat : pieces decimalFormat.bytes = [.directive ⟨32, 0, 100, []⟩] := by
  have hread : readDirective (text "d") = some ⟨32, 0, 100, []⟩ := by decide
  show pieces (37 :: text "d") = _
  rw [pieces_directive hread, pieces]

/-- Without a width a number is not padded. -/
theorem numberOutput_of_pad_zero (val : Int32) (base : Nat) (unsign : Bool) {d : Directive}
    (h : d.pad = 0) : numberOutput val base unsign d = (tmpChars val base unsign).reverse := by
  have hpad : ((0 : Int32).toInt - (tmpChars val base unsign).length).toNat = 0 := by
    rw [show (0 : Int32).toInt = 0 by decide]
    omega
  rw [numberOutput, h, hpad, List.replicate_zero, List.nil_append]

theorem zero_notMem_numeral (v : Nat) : (0 : UInt8) ∉ numeral v :=
  fun hmem => absurd (isDigit_of_mem_numeral hmem) (by decide)

theorem zero_notMem_tmpChars (val : Int32) : (0 : UInt8) ∉ (tmpChars val 10 false).reverse := by
  rw [tmpChars_reverse]
  split
  · exact fun hmem => (List.mem_cons.mp hmem).elim (by decide) (zero_notMem_numeral _)
  · exact zero_notMem_numeral _

/-- A 32-bit number has at most ten digits and a sign. -/
theorem length_tmpChars_le (val : Int32) : (tmpChars val 10 false).reverse.length ≤ 11 := by
  have hdigits : ∀ u : UInt32, (numeral u.toNat).length ≤ 10 := fun u =>
    length_numeral_le (by decide) (Nat.lt_trans u.toNat_lt (by decide))
  rw [tmpChars_reverse]
  split
  · exact Nat.succ_le_succ (hdigits _)
  · exact Nat.le_succ_of_le (hdigits _)

/-- What `%d` prints. -/
theorem snprintf_decimal (val : Int32) (buf : Mem) {size : Nat} (hsize : 12 ≤ size) {args : VaList}
    (harg : args.word 0 = val.toUInt32) :
    ∃ r, snprintf buf size decimalFormat args = .ok r ∧
      r.Holds buf size (tmpChars val 10 false).reverse := by
  have hfmt : Complete decimalFormat := by
    rw [Complete, pieces_decimalFormat]
    decide
  have hout : outputOf args size (pieces decimalFormat.bytes) 0 =
      (tmpChars val 10 false).reverse := by
    rw [pieces_decimalFormat, outputOf, outputOf, List.append_nil, directiveOutput,
      if_pos (Or.inl rfl), harg, Int32.toInt32_toUInt32, numberOutput_of_pad_zero _ _ _ rfl]
  have hlength := length_tmpChars_le val
  obtain ⟨r, hok, hholds⟩ := vsnprintf_fits buf args hfmt (Nat.sub_le size 1)
    (by rw [hout]; omega)
  rw [hout] at hholds
  exact ⟨r, hok, hholds⟩

/-- `atoi` reads what `%d` prints. -/
theorem atoi_snprintf (val : Int32) (buf : Mem) {size : Nat} (hsize : 12 ≤ size) {args : VaList}
    (harg : args.word 0 = val.toUInt32) :
    ∃ r, snprintf buf size decimalFormat args = .ok r ∧ atoi (r.string size) = val := by
  obtain ⟨r, hok, hholds⟩ := snprintf_decimal val buf hsize harg
  exact ⟨r, hok, atoi_eq (hholds.string_eq (zero_notMem_tmpChars val))⟩

theorem atoi_snprintf_least :
    ∃ r, snprintf (fun _ => 0xAA) 12 decimalFormat ⟨fun _ => 0x80000000, fun _ => 0⟩ = .ok r ∧
      atoi (r.string 12) = -2147483648 :=
  atoi_snprintf (-2147483648) (fun _ => 0xAA) (Nat.le_refl 12) rfl

end FalastinOS.Libc
