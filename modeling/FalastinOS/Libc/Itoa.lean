/-
  Libc/Itoa.lean --- three printers of integers.

  `itoa` of `libc.c`, `print_int` of `fs.c` and `%d` each take the digits of a number by
  division and turn them round.  `%d` divides as an unsigned long; the other two divide
  an `int`, after they have negated it, and stop as soon as it is not positive.  The
  least integer is its own negation, so of it they print the sign alone.  `itoa` negates
  only in base 10, and of a negative number in another base it prints nothing.

  `printers_agree_iff` says that these are the only numbers that are printed wrong.
-/
import FalastinOS.Libc.Numbers

set_option autoImplicit false

namespace FalastinOS.Libc

open FalastinOS.Foundation

/-! ## `itoa` and `print_int` -/

/-- `while (val > 0) { buffer[i++] = char(val % base); val /= base; }`, at most `n` rounds.
The buffers of both functions have 32 characters. -/
def signedLoop (char : Nat → UInt8) (base : Int32) : Nat → Int32 → List UInt8
  | 0, _ => []
  | n + 1, val =>
      if 0 < val then char (val % base).toInt.toNat :: signedLoop char base n (val / base) else []

/-- `while (i > 0) buf[j++] = tmp[--i]; buf[j] = '\0';`. -/
def storeString (buf : Mem) : Nat → List UInt8 → Mem
  | j, [] => buf.writeByte j 0
  | j, c :: cs => storeString (buf.writeByte j c) (j + 1) cs

/-- `itoa(val, buf, base)`. -/
def itoa (val : Int32) (buf : Mem) (base : Int32) : Mem :=
  if val = 0 then (buf.writeByte 0 48).writeByte 1 0
  else
    let neg := decide (val < 0) && decide (base = 10)
    let val := if neg then -val else val
    let tmp := signedLoop digitChar base 32 val
    let tmp := if neg then tmp ++ [45] else tmp
    storeString buf 0 tmp.reverse

/-- `print_int(num)`, as the characters given to `put_char`. -/
def printInt (num : Int32) : List UInt8 :=
  if num = 0 then [48]
  else
    let sign := if num < 0 then [45] else []
    let num := if num < 0 then -num else num
    sign ++ (signedLoop (fun rem => UInt8.ofNat (48 + rem)) 10 32 num).reverse

/-! ## What they should print -/

/-- The value of a digit. -/
def digitValue (c : UInt8) : Option Nat :=
  if 48 ≤ c ∧ c ≤ 57 then some (c.toNat - 48)
  else if 97 ≤ c ∧ c ≤ 122 then some (c.toNat - 87)
  else none

/-- One more digit behind a numeral. -/
def appendDigit (base : Nat) (value : Option Nat) (c : UInt8) : Option Nat := do
  let value ← value
  let digit ← digitValue c
  if digit < base then some (value * base + digit) else none

/-- The value of a numeral, which has at least one digit. -/
def numeralValue (base : Nat) : List UInt8 → Option Nat
  | [] => none
  | c :: s => (c :: s).foldl (appendDigit base) (some 0)

/-- The number that a text denotes: a numeral, or a minus sign and a numeral. -/
def denotedBy (base : Nat) (text : List UInt8) : Option Int :=
  match text with
  | [] => none
  | c :: s =>
      if c = 45 then (numeralValue base s).map fun v => -(v : Int)
      else (numeralValue base (c :: s)).map fun v => (v : Int)

/-- The three printers give the same text. -/
def PrintersAgree (v : Int32) : Prop :=
  ∀ (buf : Mem) (size : Nat) (args : VaList), 12 ≤ size → args.word 0 = v.toUInt32 →
    ∃ r, snprintf buf size decimalFormat args = .ok r ∧
      StringAt r.buf 0 (printInt v) ∧ StringAt (itoa v buf 10) 0 (printInt v)

/-- `itoa` gives a text that is not empty and denotes the number; outside base 10 that is
the unsigned number with the same bits. -/
def ItoaDenotes (v base : Int32) : Prop :=
  ∀ buf : Mem, ∃ text, StringAt (itoa v buf base) 0 text ∧ text ≠ [] ∧
    denotedBy base.toInt.toNat text =
      some (if base = 10 then v.toInt else (v.toUInt32.toNat : Int))

/-! ## Digits -/

theorem signedLoop_of_not_pos (char : Nat → UInt8) (base : Int32) (n : Nat) {val : Int32}
    (h : ¬ 0 < val) : signedLoop char base n val = [] := by
  cases n with
  | zero => rfl
  | succ n => rw [signedLoop, if_neg h]

theorem toNat_ediv {a b : Int} (ha : 0 ≤ a) (hb : 0 ≤ b) : (a / b).toNat = a.toNat / b.toNat := by
  obtain ⟨n, rfl⟩ := Int.eq_ofNat_of_zero_le ha
  obtain ⟨k, rfl⟩ := Int.eq_ofNat_of_zero_le hb
  rw [← Int.natCast_ediv, Int.toNat_natCast, Int.toNat_natCast, Int.toNat_natCast]

/-- Division of an `int` that is not negative is division of a number. -/
theorem signedLoop_eq {char : Nat → UInt8} {base : Int32} (hbase : 0 < base.toInt)
    (hchar : ∀ d, d < base.toInt.toNat → char d = digitChar d) (n : Nat) : ∀ {val : Int32},
    0 ≤ val.toInt → signedLoop char base n val = digitLoop base.toInt.toNat n val.toInt.toNat := by
  have hone : base ≠ -1 := by
    rintro rfl
    exact absurd hbase (by decide)
  induction n with
  | zero => exact fun _ => rfl
  | succ n ih =>
      intro val hval
      rw [signedLoop, digitLoop]
      have hpos : 0 < val ↔ val.toInt.toNat > 0 := by
        rw [Int32.lt_iff_toInt_lt, Int32.toInt_zero]
        omega
      by_cases h : 0 < val
      · have hmod : (val % base).toInt.toNat = val.toInt.toNat % base.toInt.toNat := by
          rw [Int32.toInt_mod, Int.tmod_eq_emod_of_nonneg hval, Int.toNat_emod hval hbase.le]
        have hdiv : (val / base).toInt = val.toInt / base.toInt := by
          rw [Int32.toInt_div_of_ne_right _ _ hone, Int.tdiv_eq_ediv_of_nonneg hval]
        have hquot : 0 ≤ (val / base).toInt := by
          rw [hdiv]
          exact Int.ediv_nonneg hval hbase.le
        have hlt : val.toInt.toNat % base.toInt.toNat < base.toInt.toNat :=
          Nat.mod_lt _ (by omega)
        rw [if_pos h, if_pos (hpos.mp h), hmod, hchar _ hlt, ih hquot, hdiv,
          toNat_ediv hval hbase.le]
      · rw [if_neg h, if_neg (hpos.not.mp h)]

theorem signedLoop_numeral {char : Nat → UInt8} {base : Int32} (hbase : 1 < base.toInt)
    (hchar : ∀ d, d < base.toInt.toNat → char d = digitChar d) {val : Int32}
    (hval : 0 < val.toInt) :
    (signedLoop char base 32 val).reverse = numeralIn base.toInt.toNat val.toInt.toNat := by
  have hlt := val.toInt_lt
  rw [signedLoop_eq (by omega) hchar 32 (by omega), ← reverse_digitLoop (by omega) (by omega),
    if_neg (by omega)]

/-! ## Texts and numbers -/

theorem digitValue_digitChar : ∀ d, d < 16 → digitValue (digitChar d) = some d := by decide

theorem digitChar_ne : ∀ d, d < 16 → digitChar d ≠ 0 ∧ digitChar d ≠ 45 := by decide

section Base

variable {base : Nat}

theorem numeralValue_numeralIn (hbase : 1 < base) (hle : base ≤ 16) (v : Nat) :
    numeralValue base (numeralIn base v) = some v := by
  have hfold : (numeralIn base v).foldl (appendDigit base) (some 0) = some v := by
    refine foldl_numeralIn (g := some) hbase (fun a d hd => ?_) v
    simp only [appendDigit, digitValue_digitChar d (by omega), Option.bind_eq_bind,
      Option.bind_some, if_pos hd]
  cases hdigits : numeralIn base v with
  | nil => exact absurd hdigits (numeralIn_ne_nil hbase v)
  | cons c s =>
      rw [hdigits] at hfold
      exact hfold

theorem denotedBy_numeralIn (hbase : 1 < base) (hle : base ≤ 16) (v : Nat) :
    denotedBy base (numeralIn base v) = some (v : Int) := by
  have hvalue := numeralValue_numeralIn hbase hle v
  cases hdigits : numeralIn base v with
  | nil => exact absurd hdigits (numeralIn_ne_nil hbase v)
  | cons c s =>
      have hmem : c ∈ numeralIn base v := hdigits ▸ List.mem_cons_self
      obtain ⟨d, hd, rfl⟩ := exists_digit_of_mem_numeralIn hbase hmem
      rw [hdigits] at hvalue
      rw [denotedBy, if_neg (digitChar_ne d (by omega)).2, hvalue]
      rfl

theorem denotedBy_neg_numeralIn (hbase : 1 < base) (hle : base ≤ 16) (v : Nat) :
    denotedBy base (45 :: numeralIn base v) = some (-(v : Int)) := by
  rw [denotedBy, if_pos rfl, numeralValue_numeralIn hbase hle]
  rfl

theorem zero_notMem_numeralIn (hbase : 1 < base) (hle : base ≤ 16) (v : Nat) :
    (0 : UInt8) ∉ numeralIn base v := by
  intro hmem
  obtain ⟨d, hd, hzero⟩ := exists_digit_of_mem_numeralIn hbase hmem
  exact (digitChar_ne d (by omega)).1 hzero.symm

end Base

/-! ## The printers -/

theorem storeString_of_lt (cs : List UInt8) : ∀ (buf : Mem) (j : Nat) {x : Nat}, x < j →
    storeString buf j cs x = buf x := by
  induction cs with
  | nil => exact fun buf j x hx => Mem.writeByte_of_ne buf 0 (Nat.ne_of_lt hx)
  | cons c cs ih =>
      intro buf j x hx
      rw [storeString, ih _ _ (Nat.lt_succ_of_lt hx), Mem.writeByte_of_ne _ _ (Nat.ne_of_lt hx)]

theorem stringAt_storeString {cs : List UInt8} (hcs : (0 : UInt8) ∉ cs) : ∀ (buf : Mem) (j : Nat),
    StringAt (storeString buf j cs) j cs := by
  induction cs with
  | nil => exact fun buf j => Mem.writeByte_self buf j 0
  | cons c cs ih =>
      intro buf j
      rw [List.mem_cons, not_or] at hcs
      refine ⟨fun hc => hcs.1 hc.symm, ?_, ih hcs.2 _ _⟩
      rw [storeString, storeString_of_lt _ _ _ (Nat.lt_succ_self j), Mem.writeByte_self]

/-- An `int` is negative if its value is. -/
theorem neg_iff (v : Int32) : v < 0 ↔ v.toInt < 0 := by
  rw [Int32.lt_iff_toInt_lt, Int32.toInt_zero]

/-- Every number but the least has a negation. -/
theorem toInt_neg_of_ne {v : Int32} (h : v ≠ Int32.minValue) : (-v).toInt = -v.toInt := by
  have hlow := v.le_toInt
  have hhigh := v.toInt_lt
  have hne : v.toInt ≠ -2147483648 := fun heq => h (Int32.toInt_inj.mp heq)
  rw [Int32.toInt_neg, Int.bmod_eq_of_le (by omega) (by omega)]

/-- The text of a signed decimal numeral. -/
def signedNumeral (v : Int) : List UInt8 :=
  if v < 0 then 45 :: numeral v.natAbs else numeral v.natAbs

theorem zero_notMem_signedNumeral (v : Int) : (0 : UInt8) ∉ signedNumeral v := by
  unfold signedNumeral
  split
  · exact fun hmem => (List.mem_cons.mp hmem).elim (by decide) (zero_notMem_numeral _)
  · exact zero_notMem_numeral _

theorem denotedBy_signedNumeral (v : Int) : denotedBy 10 (signedNumeral v) = some v := by
  unfold signedNumeral
  split
  · rename_i hneg
    refine (denotedBy_neg_numeralIn (by decide) (by decide) v.natAbs).trans (congrArg some ?_)
    omega
  · rename_i hneg
    refine (denotedBy_numeralIn (by decide) (by decide) v.natAbs).trans (congrArg some ?_)
    omega

theorem toInt_eq (x : Int32) :
    x.toInt = if x.toUInt32.toNat < 2 ^ 31 then (x.toUInt32.toNat : Int)
      else x.toUInt32.toNat - 2 ^ 32 := by
  have h := toInt_toInt32 x.toUInt32
  rwa [Int32.toInt32_toUInt32] at h

/-- `%d` prints every number right. -/
theorem tmpChars_reverse_eq (v : Int32) :
    (tmpChars v 10 false).reverse = signedNumeral v.toInt := by
  have hvalue := toInt_eq v
  have hlt := v.toUInt32.toNat_lt
  have hneg := neg_iff v
  rw [tmpChars_reverse, signedNumeral]
  by_cases h : v < 0
  · rw [if_pos h, if_pos (hneg.mp h), Int32.toUInt32_neg, UInt32.toNat_neg]
    have habs : (UInt32.size - v.toUInt32.toNat) % UInt32.size = v.toInt.natAbs := by
      have hsize : UInt32.size = 4294967296 := rfl
      rw [hneg] at h
      rw [hsize]
      split at hvalue <;> omega
    rw [habs]
  · rw [if_neg h, if_neg (hneg.not.mp h)]
    have habs : v.toUInt32.toNat = v.toInt.natAbs := by
      rw [hneg] at h
      split at hvalue <;> omega
    rw [habs]

/-- The digits of a number that is negated if it is negative, and has a negation. -/
theorem signedLoop_decimal (char : Nat → UInt8) (hchar : ∀ d, d < 10 → char d = digitChar d)
    {v : Int32} (hmin : v ≠ Int32.minValue) (hzero : v ≠ 0) :
    (signedLoop char 10 32 (if v < 0 then -v else v)).reverse = numeral v.toInt.natAbs := by
  have hne : v.toInt ≠ 0 := fun h => hzero (Int32.toInt_inj.mp h)
  have hneg := neg_iff v
  have habs : (if v < 0 then -v else v).toInt = v.toInt.natAbs := by
    split
    · rename_i h
      rw [hneg] at h
      rw [toInt_neg_of_ne hmin]
      omega
    · rename_i h
      rw [hneg] at h
      omega
  have hbase : 1 < (10 : Int32).toInt := by decide
  have hpos : 0 < (if v < 0 then -v else v).toInt := by omega
  rw [signedLoop_numeral hbase hchar hpos, habs, Int.toNat_natCast]
  rfl

theorem printInt_eq {v : Int32} (h : v ≠ Int32.minValue) : printInt v = signedNumeral v.toInt := by
  unfold printInt
  by_cases hzero : v = 0
  · rw [if_pos hzero, hzero]
    decide
  · have hneg := neg_iff v
    rw [if_neg hzero]
    dsimp only
    rw [signedLoop_decimal _ (fun d hd => (if_pos hd).symm) h hzero, signedNumeral]
    by_cases hv : v < 0
    · rw [if_pos hv, if_pos (hneg.mp hv)]
      rfl
    · rw [if_neg hv, if_neg (hneg.not.mp hv)]
      rfl

theorem itoa_decimal {v : Int32} (h : v ≠ Int32.minValue) (buf : Mem) :
    StringAt (itoa v buf 10) 0 (signedNumeral v.toInt) := by
  unfold itoa
  by_cases hzero : v = 0
  · rw [if_pos hzero, hzero]
    exact ⟨by decide, rfl, rfl⟩
  · have hneg := neg_iff v
    have hdigits := signedLoop_decimal digitChar (fun _ _ => rfl) h hzero
    have hstring := stringAt_storeString (zero_notMem_signedNumeral v.toInt) buf 0
    rw [if_neg hzero]
    unfold signedNumeral at hstring ⊢
    by_cases hv : v < 0
    · rw [if_pos hv] at hdigits
      rw [if_pos (hneg.mp hv), ← hdigits] at hstring ⊢
      simp only [hv, decide_true, Bool.and_self, if_true, List.reverse_append]
      exact hstring
    · rw [if_neg hv] at hdigits
      rw [if_neg (hneg.not.mp hv), ← hdigits] at hstring ⊢
      simp only [hv, decide_false, Bool.false_and, Bool.false_eq_true, if_false]
      exact hstring

/-- In another base the digits are those of a number that is not negative. -/
theorem itoa_of_pos {v base : Int32} (hv : 0 < v.toInt) (hbase : 1 < base.toInt)
    (hle : base.toInt ≤ 16) (buf : Mem) :
    StringAt (itoa v buf base) 0 (numeralIn base.toInt.toNat v.toInt.toNat) := by
  have hzero : v ≠ 0 := by
    rintro rfl
    exact absurd hv (by decide)
  have hneg : ¬ v < 0 := by
    rw [neg_iff]
    omega
  have hdigits := signedLoop_numeral hbase (fun d _ => Eq.refl (digitChar d)) hv
  unfold itoa
  rw [if_neg hzero, ← hdigits]
  simp only [hneg, decide_false, Bool.false_and, Bool.false_eq_true, if_false]
  rw [hdigits]
  exact stringAt_storeString (zero_notMem_numeralIn (by omega) (by omega) _) buf 0

/-- Of a negative number in another base nothing is printed. -/
theorem itoa_of_neg {v base : Int32} (hv : v < 0) (hbase : base ≠ 10) (buf : Mem) :
    StringAt (itoa v buf base) 0 [] := by
  have hzero : v ≠ 0 := by
    rintro rfl
    exact absurd hv (by decide)
  have hnot : ¬ 0 < v := by
    rw [Int32.lt_iff_toInt_lt] at hv ⊢
    omega
  unfold itoa
  rw [if_neg hzero]
  simp only [hbase, decide_false, Bool.and_false, Bool.false_eq_true, if_false,
    signedLoop_of_not_pos _ _ _ hnot]
  exact stringAt_storeString List.not_mem_nil buf 0

/-- Of the least integer two of the printers print the sign only. -/
theorem printInt_minValue : printInt Int32.minValue = [45] := by decide

theorem itoa_minValue (buf : Mem) : StringAt (itoa Int32.minValue buf 10) 0 [45] := by
  have hdigits : signedLoop digitChar 10 32 (-Int32.minValue) = [] :=
    signedLoop_of_not_pos _ _ _ (by decide)
  have htmp : itoa Int32.minValue buf 10 =
      storeString buf 0 (signedLoop digitChar 10 32 (-Int32.minValue) ++ [45]).reverse := rfl
  rw [htmp, hdigits]
  exact stringAt_storeString (by decide) buf 0

theorem printersAgree_iff (v : Int32) : PrintersAgree v ↔ v ≠ Int32.minValue := by
  have hprinted : ∀ (buf : Mem) (size : Nat) (args : VaList), 12 ≤ size →
      args.word 0 = v.toUInt32 → ∃ r, snprintf buf size decimalFormat args = .ok r ∧
        StringAt r.buf 0 (signedNumeral v.toInt) := by
    intro buf size args hsize harg
    obtain ⟨r, hok, hholds⟩ := snprintf_decimal v buf hsize harg
    rw [tmpChars_reverse_eq] at hholds
    exact ⟨r, hok, hholds.stringAt (zero_notMem_signedNumeral _)⟩
  constructor
  · rintro hagree rfl
    obtain ⟨r, hok, htext, -⟩ := hagree (fun _ => 0) 12
      ⟨fun _ => Int32.minValue.toUInt32, fun _ => 0⟩ (Nat.le_refl 12) rfl
    obtain ⟨r', hok', htext'⟩ := hprinted (fun _ => 0) 12
      ⟨fun _ => Int32.minValue.toUInt32, fun _ => 0⟩ (Nat.le_refl 12) rfl
    obtain rfl := Except.ok.inj (hok.symm.trans hok')
    have hsame := congrArg (denotedBy 10) (htext.unique htext')
    rw [printInt_minValue, denotedBy_signedNumeral] at hsame
    exact nomatch hsame
  · intro h buf size args hsize harg
    obtain ⟨r, hok, htext⟩ := hprinted buf size args hsize harg
    rw [printInt_eq h]
    exact ⟨r, hok, htext, itoa_decimal h buf⟩

theorem itoaDenotes_decimal_iff (v : Int32) : ItoaDenotes v 10 ↔ v ≠ Int32.minValue := by
  constructor
  · rintro h rfl
    obtain ⟨text, htext, -, hvalue⟩ := h fun _ => 0
    rw [← (itoa_minValue fun _ => 0).unique htext] at hvalue
    exact nomatch hvalue
  · intro h buf
    refine ⟨signedNumeral v.toInt, itoa_decimal h buf, fun hnil => ?_, denotedBy_signedNumeral _⟩
    have hvalue := denotedBy_signedNumeral v.toInt
    rw [hnil] at hvalue
    exact nomatch hvalue

theorem itoaDenotes_iff {v base : Int32} (hlow : 2 ≤ base) (hhigh : base ≤ 16) (hne : base ≠ 10) :
    ItoaDenotes v base ↔ 0 ≤ v := by
  rw [Int32.le_iff_toInt_le] at hlow hhigh
  have htwo : (2 : Int32).toInt = 2 := rfl
  have hsixteen : (16 : Int32).toInt = 16 := rfl
  constructor
  · intro h
    by_contra hneg
    obtain ⟨text, htext, hnonempty, -⟩ := h fun _ => 0
    exact hnonempty ((itoa_of_neg (Int32.not_le.mp hneg) hne fun _ => 0).unique htext).symm
  · intro h buf
    rw [if_neg hne]
    rw [Int32.le_iff_toInt_le, Int32.toInt_zero] at h
    have hunsigned : (v.toUInt32.toNat : Int) = v.toInt.toNat := by
      have hvalue := toInt_eq v
      have hlt := v.toUInt32.toNat_lt
      split at hvalue <;> omega
    rw [hunsigned]
    refine ⟨numeralIn base.toInt.toNat v.toInt.toNat, ?_, numeralIn_ne_nil (by omega) _,
      denotedBy_numeralIn (by omega) (by omega) _⟩
    rcases Int.lt_or_eq_of_le h with hpos | hzero
    · exact itoa_of_pos hpos (by omega) (by omega) buf
    · obtain rfl : v = 0 := Int32.toInt_inj.mp hzero.symm
      exact ⟨by decide, rfl, rfl⟩

/-- The three printers agree on every number but the least one.  `itoa` prints a numeral
of every number but the least one in base 10, and of the numbers that are not negative
in the other bases. -/
theorem printers_agree_iff (v : Int32) :
    (PrintersAgree v ↔ v ≠ Int32.minValue) ∧
      ∀ base : Int32, 2 ≤ base → base ≤ 16 →
        (ItoaDenotes v base ↔ if base = 10 then v ≠ Int32.minValue else 0 ≤ v) := by
  refine ⟨printersAgree_iff v, fun base hlow hhigh => ?_⟩
  split
  · rename_i hten
    rw [hten]
    exact itoaDenotes_decimal_iff v
  · rename_i hten
    exact itoaDenotes_iff hlow hhigh hten

theorem printers_agree_iff_minusFive :
    PrintersAgree (-5) ∧ ItoaDenotes (-5) 10 ∧ ¬ ItoaDenotes (-5) 16 := by
  obtain ⟨hagree, hdenotes⟩ := printers_agree_iff (-5)
  refine ⟨hagree.mpr (by decide), ?_, ?_⟩
  · exact (hdenotes 10 (by decide) (by decide)).mpr (by decide)
  · exact fun h => absurd ((hdenotes 16 (by decide) (by decide)).mp h) (by decide)

/-- The least integer, and a negative number in base 16. -/
theorem printers_differ :
    ¬ PrintersAgree Int32.minValue ∧ ¬ ItoaDenotes (-1) 16 :=
  ⟨fun h => (printersAgree_iff _).mp h rfl,
    fun h => absurd ((itoaDenotes_iff (by decide) (by decide) (by decide)).mp h) (by decide)⟩

end FalastinOS.Libc
