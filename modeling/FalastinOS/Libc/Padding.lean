/-
  Libc/Padding.lean --- integers with a width.

  A width pads a number on the left, with blanks or, if a '0' stands before the width,
  with zeros.  Zeros belong between the sign and the digits.  `fmt_write_int` has the
  sign as one more of the reversed digits and pads before all of them, so a negative
  number that is padded with zeros gets them before its sign.  A width that does not
  fit in an `int` wraps around.

  `printsPadded_iff` says that everything else is padded as it should be.
-/
import FalastinOS.Libc.Itoa

set_option autoImplicit false

namespace FalastinOS.Libc

open FalastinOS.Foundation

/-- The conversions of integers. -/
inductive IntConv where
  | d
  | u
  | x
  deriving DecidableEq

namespace IntConv

/-- The conversion character. -/
def char : IntConv → UInt8
  | d => 100
  | u => 117
  | x => 120

/-- The sign of the numeral. -/
def sign (conv : IntConv) (v : UInt32) : List UInt8 :=
  match conv with
  | d => if v.toInt32.toInt < 0 then [45] else []
  | u => []
  | x => []

/-- The digits of the numeral. -/
def digits (conv : IntConv) (v : UInt32) : List UInt8 :=
  match conv with
  | d => numeral v.toInt32.toInt.natAbs
  | u => numeral v.toNat
  | x => numeralIn 16 v.toNat

/-- How many characters the numeral has. -/
def length (conv : IntConv) (v : UInt32) : Nat := (conv.sign v ++ conv.digits v).length

/-- The numeral padded on the left to `w` characters. -/
def padded (conv : IntConv) (zero : Bool) (w : Nat) (v : UInt32) : List UInt8 :=
  if zero then conv.sign v ++ (List.replicate (w - conv.length v) 48 ++ conv.digits v)
  else List.replicate (w - conv.length v) 32 ++ (conv.sign v ++ conv.digits v)

end IntConv

theorem zero_notMem_widthFormat (zero : Bool) (w : Nat) (conv : IntConv) :
    (0 : UInt8) ∉ 37 :: ((if zero then [48] else []) ++ (numeral w ++ [conv.char])) := by
  have hdigits := zero_notMem_numeral w
  cases zero <;> cases conv <;> simp [hdigits, IntConv.char]

/-- The format of a directive with a width: "%5d", "%08x". -/
def widthFormat (zero : Bool) (w : Nat) (conv : IntConv) : CStr :=
  ⟨37 :: ((if zero then [48] else []) ++ (numeral w ++ [conv.char])),
    zero_notMem_widthFormat zero w conv⟩

/-- A format prints a text, whatever the buffer, if it is longer than the text. -/
def Prints (fmt : CStr) (args : VaList) (text : List UInt8) : Prop :=
  ∀ (buf : Mem) (size : Nat), text.length < size →
    ∃ r, vsnprintf buf size fmt args = .ok r ∧ r.Holds buf size text

/-- A number is printed with a width as it should be. -/
def PrintsPadded (conv : IntConv) (zero : Bool) (w : Nat) (v : UInt32) : Prop :=
  ∀ args : VaList, args.word 0 = v → Prints (widthFormat zero w conv) args (conv.padded zero w v)

/-- The zeros come before a minus sign. -/
def ZerosBeforeSign (conv : IntConv) (zero : Bool) (w : Nat) (v : UInt32) : Prop :=
  conv = .d ∧ zero = true ∧ v.toInt32.toInt < 0 ∧ conv.length v < w

/-! ## The directive -/

/-- The digits of the width are read up to the conversion character. -/
theorem padLoop_append {digits rest : List UInt8} (h : ∀ c ∈ digits, isDigit c = true)
    {conv : UInt8} (hconv : isDigit conv = false) : ∀ pad, padLoop pad (digits ++ conv :: rest) =
      (digits.foldl (fun p c => p * 10 + Int32.ofNat (c.toNat - 48)) pad, conv :: rest) := by
  induction digits with
  | nil =>
      intro pad
      rw [List.nil_append, padLoop, if_neg (by simp [hconv])]
      rfl
  | cons c digits ih =>
      intro pad
      rw [List.cons_append, padLoop, if_pos (h c List.mem_cons_self),
        ih fun c' hc' => h c' (List.mem_cons_of_mem _ hc')]
      rfl

theorem padLoop_numeral (w : Nat) {conv : UInt8} (hconv : isDigit conv = false) :
    padLoop 0 (numeral w ++ [conv]) = (Int32.ofNat w, [conv]) := by
  rw [padLoop_append (fun c hc => isDigit_of_mem_numeral hc) hconv, foldl_digits_numeral]

/-- A numeral that is not zero does not begin with a zero. -/
theorem numeral_eq_cons {w : Nat} (h : w ≠ 0) : ∃ c cs, numeral w = c :: cs ∧ c ≠ 48 := by
  have hnonzero := Nat.getLast_digit_ne_zero 10 h
  have hlast : (Nat.digits 10 w).getLast (Nat.digits_ne_nil_iff_ne_zero.mpr h) < 10 :=
    Nat.digits_lt_base (by decide) (List.getLast_mem _)
  generalize hdigit : (Nat.digits 10 w).getLast (Nat.digits_ne_nil_iff_ne_zero.mpr h) = d at *
  have hchar : ∀ d, d < 10 → d ≠ 0 → digitChar d ≠ 48 := by decide
  refine ⟨digitChar d, ((Nat.digits 10 w).dropLast.map digitChar).reverse, ?_,
    hchar d hlast hnonzero⟩
  rw [numeral, if_neg h, ← List.dropLast_append_getLast (Nat.digits_ne_nil_iff_ne_zero.mpr h),
    hdigit]
  simp

/-- The width as the formatter reads it. -/
theorem readDirective_width (zero : Bool) (w : Nat) (conv : IntConv) : ∃ padch,
    readDirective ((if zero then [48] else []) ++ (numeral w ++ [conv.char])) =
        some ⟨padch, Int32.ofNat w, conv.char, []⟩ ∧
      padch ≠ 0 ∧ (w ≠ 0 → padch = if zero then 48 else 32) := by
  have hconv : isDigit conv.char = false := by cases conv <;> rfl
  have hloop := padLoop_numeral w hconv
  have hread : ∀ {fmt : List UInt8} {padch : UInt8} {left : List UInt8},
      readFlag fmt = (padch, left) → padLoop 0 left = (Int32.ofNat w, [conv.char]) →
      readDirective fmt = some ⟨padch, Int32.ofNat w, conv.char, []⟩ := by
    intro fmt padch left hflag hpad
    rw [readDirective, hflag, hpad]
  cases zero with
  | true => exact ⟨48, hread rfl hloop, by decide, fun _ => rfl⟩
  | false =>
      by_cases hw : w = 0
      · subst hw
        have hflag : readFlag (numeral 0 ++ [conv.char]) = (48, [conv.char]) := rfl
        refine ⟨48, hread hflag ?_, by decide, fun hne => absurd rfl hne⟩
        exact padLoop_append (fun c hc => absurd hc List.not_mem_nil) hconv 0
      · obtain ⟨c, cs, hcons, hc⟩ := numeral_eq_cons hw
        refine ⟨32, hread ?_ hloop, by decide, fun _ => rfl⟩
        show readFlag (numeral w ++ [conv.char]) = _
        rw [hcons, List.cons_append, readFlag, if_neg hc]

theorem pieces_widthFormat (zero : Bool) (w : Nat) (conv : IntConv) : ∃ padch,
    pieces (widthFormat zero w conv).bytes =
        [.directive ⟨padch, Int32.ofNat w, conv.char, []⟩] ∧
      padch ≠ 0 ∧ (w ≠ 0 → padch = if zero then 48 else 32) := by
  obtain ⟨padch, hread, hpadch⟩ := readDirective_width zero w conv
  refine ⟨padch, ?_, hpadch⟩
  rw [widthFormat, pieces_directive hread, pieces]

/-! ## What is printed -/

/-- The characters of `fmt_write_int` are the sign and the digits. -/
theorem directiveOutput_conv (conv : IntConv) (args : VaList) (k : Nat) (padch : UInt8)
    (pad : Int32) :
    directiveOutput args k ⟨padch, pad, conv.char, []⟩ 0 =
      List.replicate (pad.toInt - conv.length (args.word 0)).toNat padch ++
        (conv.sign (args.word 0) ++ conv.digits (args.word 0)) := by
  have hnumber : ∀ (base : Nat) (unsign : Bool),
      (tmpChars (args.word 0).toInt32 base unsign).reverse =
        conv.sign (args.word 0) ++ conv.digits (args.word 0) →
      numberOutput (args.word 0).toInt32 base unsign ⟨padch, pad, conv.char, []⟩ =
        List.replicate (pad.toInt - conv.length (args.word 0)).toNat padch ++
          (conv.sign (args.word 0) ++ conv.digits (args.word 0)) := by
    intro base unsign htmp
    rw [numberOutput, ← List.length_reverse, htmp]
    rfl
  cases conv with
  | d =>
      refine (if_pos (Or.inl rfl)).trans (hnumber 10 false ?_)
      rw [tmpChars_reverse_eq, signedNumeral]
      simp only [IntConv.sign, IntConv.digits]
      split <;> rfl
  | u => exact hnumber 10 true (tmpChars_reverse_unsigned (by decide) _)
  | x => exact hnumber 16 true (tmpChars_reverse_unsigned (by decide) _)

theorem zero_notMem_numeral_conv (conv : IntConv) (v : UInt32) :
    (0 : UInt8) ∉ conv.sign v ∧ (0 : UInt8) ∉ conv.digits v := by
  cases conv with
  | d =>
      refine ⟨?_, zero_notMem_numeral _⟩
      rw [IntConv.sign]
      split <;> decide
  | u => exact ⟨List.not_mem_nil, zero_notMem_numeral _⟩
  | x => exact ⟨List.not_mem_nil, zero_notMem_numeralIn (by decide) (by decide) _⟩

/-- What a format prints is the one text that it prints. -/
theorem prints_iff {fmt : CStr} {args : VaList} {out text : List UInt8} (hfmt : Complete fmt)
    (hout : ∀ k, outputOf args k (pieces fmt.bytes) 0 = out) (hnul : (0 : UInt8) ∉ out)
    (hnul' : (0 : UInt8) ∉ text) : Prints fmt args text ↔ out = text := by
  have hprints : ∀ (buf : Mem) (size : Nat), out.length < size →
      ∃ r, vsnprintf buf size fmt args = .ok r ∧ r.Holds buf size out := by
    intro buf size hsize
    have hfits := vsnprintf_fits buf args hfmt (Nat.sub_le size 1) (by rw [hout]; exact hsize)
    rwa [hout] at hfits
  constructor
  · intro htext
    obtain ⟨r, hok, hholds⟩ := hprints (fun _ => 0) (out.length + text.length + 1) (by omega)
    obtain ⟨r', hok', hholds'⟩ := htext (fun _ => 0) (out.length + text.length + 1) (by omega)
    obtain rfl := Except.ok.inj (hok.symm.trans hok')
    exact (hholds.stringAt hnul).unique (hholds'.stringAt hnul')
  · rintro rfl
    exact hprints

theorem zero_notMem_padded (conv : IntConv) (zero : Bool) (w : Nat) (v : UInt32) :
    (0 : UInt8) ∉ conv.padded zero w v := by
  obtain ⟨hsign, hdigits⟩ := zero_notMem_numeral_conv conv v
  cases zero <;> simp [IntConv.padded, hsign, hdigits]

theorem length_conv_le (conv : IntConv) (v : UInt32) : conv.length v ≤ 11 := by
  have hdecimal : ∀ n, n < 2 ^ 32 → (numeral n).length ≤ 10 := fun n hn =>
    length_numeral_le (by decide) (Nat.lt_trans hn (by decide))
  have hlt := v.toNat_lt
  cases conv with
  | d =>
      have habs := hdecimal v.toInt32.toInt.natAbs (by
        have hlow := v.toInt32.le_toInt
        have hhigh := v.toInt32.toInt_lt
        omega)
      simp only [IntConv.length, IntConv.sign, IntConv.digits, List.length_append]
      split <;> simp only [List.length_cons, List.length_nil] <;> omega
  | u =>
      have hdigits := hdecimal v.toNat hlt
      exact Nat.le_succ_of_le hdigits
  | x =>
      simp only [IntConv.length, IntConv.sign, IntConv.digits, List.nil_append, numeralIn]
      split
      · decide
      · rw [List.length_reverse, List.length_map]
        have hdigits := (Nat.digits_length_le_iff (b := 16) (k := 8) (by decide) v.toNat).mpr hlt
        omega

theorem length_padded (conv : IntConv) (zero : Bool) (w : Nat) (v : UInt32) :
    (conv.padded zero w v).length = max w (conv.length v) := by
  have hlength : conv.length v = (conv.sign v).length + (conv.digits v).length :=
    List.length_append
  cases zero <;> simp only [IntConv.padded, if_true, Bool.false_eq_true, if_false,
    List.length_append, List.length_replicate] <;> omega

/-- A width that is read as it is written gives the right text, unless zeros come before
a sign. -/
theorem output_eq_padded_iff (conv : IntConv) {zero : Bool} {w : Nat} (v : UInt32) {padch : UInt8}
    (hpadch : w ≠ 0 → padch = if zero then 48 else 32) :
    List.replicate (w - conv.length v) padch ++ (conv.sign v ++ conv.digits v) =
        conv.padded zero w v ↔ ¬ ZerosBeforeSign conv zero w v := by
  by_cases hfull : w ≤ conv.length v
  · -- nothing is padded
    refine iff_of_true ?_ fun h => absurd h.2.2.2 (Nat.not_lt.mpr hfull)
    rw [IntConv.padded, Nat.sub_eq_zero_of_le hfull]
    cases zero <;> rfl
  · obtain rfl := hpadch (by omega)
    cases zero with
    | false => exact iff_of_true rfl fun h => nomatch h.2.1
    | true =>
        rw [IntConv.padded, if_pos rfl, if_pos rfl]
        by_cases hsign : conv.sign v = []
        · refine iff_of_true (by rw [hsign]; rfl) ?_
          rintro ⟨rfl, -, hneg, -⟩
          rw [IntConv.sign, if_pos hneg] at hsign
          exact nomatch hsign
        · -- the first character is a zero on one side and the sign on the other
          obtain ⟨rfl, hneg⟩ : conv = .d ∧ v.toInt32.toInt < 0 := by
            cases conv with
            | d =>
                refine ⟨rfl, ?_⟩
                by_contra hneg
                exact hsign (if_neg hneg)
            | u => exact absurd rfl hsign
            | x => exact absurd rfl hsign
          refine iff_of_false (fun heq => ?_) (fun h => h ⟨rfl, rfl, hneg, by omega⟩)
          obtain ⟨k, hk⟩ : ∃ k, w - IntConv.d.length v = k + 1 :=
            ⟨w - IntConv.d.length v - 1, by omega⟩
          rw [hk, List.replicate_succ, IntConv.sign, if_pos hneg] at heq
          exact absurd (List.cons.inj heq).1 (by decide)

/-- The text that is printed, by the width as it is read. -/
theorem printsPadded_iff_eq (conv : IntConv) (zero : Bool) (w : Nat) (v : UInt32) : ∃ padch,
    (w ≠ 0 → padch = if zero then 48 else 32) ∧
    (PrintsPadded conv zero w v ↔
      List.replicate ((Int32.ofNat w).toInt - conv.length v).toNat padch ++
        (conv.sign v ++ conv.digits v) = conv.padded zero w v) := by
  obtain ⟨padch, hpieces, hnonzero, hpadch⟩ := pieces_widthFormat zero w conv
  have hfmt : Complete (widthFormat zero w conv) := by
    rw [Complete, hpieces]
    simp
  have hprints : ∀ args : VaList, args.word 0 = v →
      (Prints (widthFormat zero w conv) args (conv.padded zero w v) ↔
        List.replicate ((Int32.ofNat w).toInt - conv.length v).toNat padch ++
          (conv.sign v ++ conv.digits v) = conv.padded zero w v) := by
    intro args harg
    obtain ⟨hsign, hdigits⟩ := zero_notMem_numeral_conv conv v
    refine prints_iff hfmt (fun k => ?_) ?_ (zero_notMem_padded conv zero w v)
    · rw [hpieces, outputOf, outputOf, List.append_nil, directiveOutput_conv, harg]
    · simp [hsign, hdigits, hnonzero.symm]
  exact ⟨padch, hpadch, fun h => (hprints ⟨fun _ => v, fun _ => 0⟩ rfl).mp (h _ rfl),
    fun h args harg => (hprints args harg).mpr h⟩

/-- With a width that fits in an `int`. -/
theorem printsPadded_of_lt (conv : IntConv) (zero : Bool) {w : Nat} (v : UInt32) (hw : w < 2 ^ 31) :
    PrintsPadded conv zero w v ↔ ¬ ZerosBeforeSign conv zero w v := by
  obtain ⟨padch, hpadch, hprints⟩ := printsPadded_iff_eq conv zero w v
  have hcount : ((w : Int) - conv.length v).toNat = w - conv.length v := by omega
  rw [hprints, Int32.toInt_ofNat_of_lt hw, hcount, output_eq_padded_iff conv v hpadch]

/-- A number is printed with a width as it should be exactly if the width fits in an `int`
and it is not a negative number that is padded with zeros. -/
theorem printsPadded_iff (conv : IntConv) (zero : Bool) (w : Nat) (v : UInt32) :
    PrintsPadded conv zero w v ↔ w < 2 ^ 31 ∧ ¬ ZerosBeforeSign conv zero w v := by
  by_cases hw : w < 2 ^ 31
  · rw [printsPadded_of_lt conv zero v hw]
    exact (and_iff_right hw).symm
  · -- the width wraps around, and less is printed
    obtain ⟨padch, hpadch, hprints⟩ := printsPadded_iff_eq conv zero w v
    rw [hprints]
    refine iff_of_false (fun heq => ?_) fun h => hw h.1
    have hlength := congrArg List.length heq
    have hwrapped := (Int32.ofNat w).toInt_lt
    have hshort := length_conv_le conv v
    have hnumeral : conv.length v = (conv.sign v ++ conv.digits v).length := rfl
    rw [length_padded, List.length_append, List.length_replicate] at hlength
    omega

/-- "%05d" of -42 is "00-42". -/
theorem zeros_before_sign : ¬ PrintsPadded .d true 5 (-42) := by
  rw [printsPadded_of_lt _ _ _ (by decide)]
  exact fun h => h ⟨rfl, rfl, by decide, by decide⟩

end FalastinOS.Libc
