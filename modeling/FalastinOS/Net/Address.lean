/-
  Net/Address.lean --- addresses as dotted quads.

  `ip_addr_to_str` prints the four octets of an address with `%d` and a dot between
  them, into 16 bytes; `ip_str_to_addr` reads digits into an octet, and at a dot shifts
  the octet to its place in the address.  Four octets of at most three digits and three
  dots are 15 characters, so the text just fits, and reading it gives the address back:
  `address_roundTrip`.
-/
import FalastinOS.Libc.Numbers
import FalastinOS.Net.ArpCache

set_option autoImplicit false

namespace FalastinOS.Net

open FalastinOS.Foundation FalastinOS.Libc

/-- The format "%d.%d.%d.%d". -/
def quadFormat : CStr := ⟨text "%d.%d.%d.%d", by decide⟩

/-- The octet of an address that begins at bit `shift`. -/
def octet (ip shift : UInt32) : UInt32 := (ip >>> shift) &&& 0xFF

/-- The four arguments behind the format. -/
def quadArgs (ip : UInt32) : VaList where
  word := fun n => [octet ip 24, octet ip 16, octet ip 8, ip &&& 0xFF].getD n 0
  memory := fun _ => 0

/-- `ip_addr_to_str(ip, buf)`. -/
def ipAddrToStr (ip : UInt32) (buf : Mem) : Except Libc.Fault Formatted :=
  snprintf buf 16 quadFormat (quadArgs ip)

/-- The dotted quad of four octets. -/
def dottedQuad (a b c d : UInt32) : List UInt8 :=
  numeral a.toNat ++ 46 :: (numeral b.toNat ++ 46 :: (numeral c.toNat ++ 46 :: numeral d.toNat))

/-! ## Printing -/

theorem and_255_lt (x : UInt32) : (x &&& 0xFF).toNat < 256 := by
  rw [UInt32.toNat_and]
  exact Nat.lt_of_le_of_lt Nat.and_le_right (by decide)

/-- The sign bit of an octet is clear, so `%d` prints its value. -/
theorem tmpChars_octet {x : UInt32} (h : x.toNat < 256) :
    (tmpChars x.toInt32 10 false).reverse = numeral x.toNat := by
  have hvalue : x.toInt32 = Int32.ofNat x.toNat := by
    rw [← UInt32.toInt32_ofNat', UInt32.ofNat_toNat]
  have hnonneg : ¬ x.toInt32 < 0 := by
    rw [Int32.lt_iff_toInt_lt, hvalue, Int32.toInt_ofNat_of_lt (by omega), Int32.toInt_zero]
    omega
  rw [tmpChars_reverse, if_neg hnonneg, UInt32.toUInt32_toInt32]

theorem pieces_quadFormat : pieces quadFormat.bytes =
    [.directive ⟨32, 0, 100, text ".%d.%d.%d"⟩, .char 46,
      .directive ⟨32, 0, 100, text ".%d.%d"⟩, .char 46,
      .directive ⟨32, 0, 100, text ".%d"⟩, .char 46, .directive ⟨32, 0, 100, []⟩] := by
  have hread : ∀ rest, readDirective (100 :: rest) = some ⟨32, 0, 100, rest⟩ := fun _ => rfl
  have hdot : ∀ rest, pieces (46 :: 37 :: 100 :: rest) =
      .char 46 :: .directive ⟨32, 0, 100, rest⟩ :: pieces rest := fun rest => by
    rw [pieces_char (by decide), pieces_directive (hread rest)]
  show pieces (37 :: 100 :: text ".%d.%d.%d") = _
  rw [pieces_directive (hread _)]
  show _ :: pieces (46 :: 37 :: 100 :: text ".%d.%d") = _
  rw [hdot]
  show _ :: _ :: _ :: pieces (46 :: 37 :: 100 :: text ".%d") = _
  rw [hdot]
  show _ :: _ :: _ :: _ :: _ :: pieces (46 :: 37 :: 100 :: []) = _
  rw [hdot, pieces]

/-- Each octet is printed without padding, and a dot behind it. -/
theorem outputOf_quadFormat (ip : UInt32) (k : Nat) :
    outputOf (quadArgs ip) k (pieces quadFormat.bytes) 0 =
      dottedQuad (octet ip 24) (octet ip 16) (octet ip 8) (ip &&& 0xFF) := by
  have hdecimal : ∀ (n : Nat) (x : UInt32) (rest : List UInt8), (quadArgs ip).word n = x →
      x.toNat < 256 → directiveOutput (quadArgs ip) k ⟨32, 0, 100, rest⟩ n = numeral x.toNat := by
    intro n x rest harg hx
    rw [directiveOutput, if_pos (Or.inl rfl), numberOutput_of_pad_zero _ _ _ rfl, harg,
      tmpChars_octet hx]
  rw [pieces_quadFormat]
  simp only [outputOf, List.append_nil]
  rw [hdecimal 0 (octet ip 24) _ rfl (and_255_lt _)]
  show _ ++ 46 :: (directiveOutput _ _ _ 1 ++ 46 :: (directiveOutput _ _ _ 2 ++
    46 :: directiveOutput _ _ _ 3)) = _
  rw [hdecimal 1 (octet ip 16) _ rfl (and_255_lt _), hdecimal 2 (octet ip 8) _ rfl (and_255_lt _),
    hdecimal 3 (ip &&& 0xFF) _ rfl (and_255_lt _)]
  rfl

/-- Four octets and three dots leave one of the 16 bytes for the terminator. -/
theorem length_dottedQuad_le {a b c d : UInt32} (ha : a.toNat < 256) (hb : b.toNat < 256)
    (hc : c.toNat < 256) (hd : d.toNat < 256) : (dottedQuad a b c d).length ≤ 15 := by
  have hdigits : ∀ {x : UInt32}, x.toNat < 256 → (numeral x.toNat).length ≤ 3 := fun hx =>
    length_numeral_le (by decide) (Nat.lt_trans hx (by decide))
  have hla := hdigits ha
  have hlb := hdigits hb
  have hlc := hdigits hc
  have hld := hdigits hd
  simp only [dottedQuad, List.length_append, List.length_cons]
  omega

theorem zero_notMem_dottedQuad (a b c d : UInt32) : (0 : UInt8) ∉ dottedQuad a b c d := by
  have hdot : (0 : UInt8) ≠ 46 := by decide
  simp only [dottedQuad, List.mem_append, List.mem_cons, zero_notMem_numeral, hdot, or_self,
    not_false_eq_true]

/-! ## Reading -/

theorem foldl_ipStrStep_numeral (ip : UInt32) (shift : Int) (v : Nat) :
    (numeral v).foldl ipStrStep (ip, 0, shift) = (ip, UInt32.ofNat v, shift) := by
  have hdigit : ∀ d, d < 10 → (48 ≤ digitChar d ∧ digitChar d ≤ 57) ∧
      (digitChar d - 48).toUInt32 = UInt32.ofNat d := by decide
  refine foldl_numeral (g := fun a => (ip, UInt32.ofNat a, shift)) (fun a d hd => ?_) v
  obtain ⟨hrange, hvalue⟩ := hdigit d hd
  simp only [ipStrStep, if_pos hrange, hvalue, UInt32.ofNat_add, UInt32.ofNat_mul]
  rfl

theorem ipStrStep_dot (ip octet : UInt32) (shift : Int) :
    ipStrStep (ip, octet, shift) 46 = (ip ||| octet <<< UInt32.ofInt shift, 0, shift - 8) := rfl

/-- The octets read are put to their places. -/
theorem foldl_dottedQuad (a b c d : UInt32) :
    (dottedQuad a b c d).foldl ipStrStep (0, 0, 24) =
      ((0 : UInt32) ||| a <<< 24 ||| b <<< 16 ||| c <<< 8, d, 0) := by
  simp only [dottedQuad, List.foldl_append, List.foldl_cons, foldl_ipStrStep_numeral,
    ipStrStep_dot, UInt32.ofNat_toNat]
  rfl

theorem getLsbD_255 (j : Nat) : (255#32).getLsbD j = decide (j < 8) := by
  rw [show 255#32 = BitVec.setWidth 32 (BitVec.allOnes 8) by decide, BitVec.getLsbD_setWidth,
    BitVec.getLsbD_allOnes]
  by_cases hj : j < 8
  · simp [hj, show j < 32 by omega]
  · simp [hj]

/-- Bit `i` of an octet that is shifted to its place. -/
theorem getLsbD_octet (b : BitVec 32) (k : Nat) {i : Nat} (hi : i < 32) :
    ((b >>> k &&& 255#32) <<< k).getLsbD i = (b.getLsbD i && decide (k ≤ i ∧ i < k + 8)) := by
  rw [BitVec.getLsbD_shiftLeft, BitVec.getLsbD_and, BitVec.getLsbD_ushiftRight, getLsbD_255]
  by_cases hlow : k ≤ i
  · rw [Nat.add_sub_cancel' hlow]
    by_cases hhigh : i < k + 8
    · simp [hi, hlow, hhigh, show i - k < 8 by omega]
    · simp [hhigh, show ¬ i - k < 8 by omega]
  · simp [hlow, Nat.not_le.mp hlow]

/-- An address is made of its octets. -/
theorem or_octets (ip : UInt32) :
    (0 : UInt32) ||| octet ip 24 <<< 24 ||| octet ip 16 <<< 16 ||| octet ip 8 <<< 8 |||
      (ip &&& 0xFF) = ip := by
  rw [← UInt32.toBitVec_inj]
  apply BitVec.eq_of_getLsbD_eq
  intro i hi
  show (0#32 ||| (ip.toBitVec >>> 24 &&& 255#32) <<< 24 |||
    (ip.toBitVec >>> 16 &&& 255#32) <<< 16 ||| (ip.toBitVec >>> 8 &&& 255#32) <<< 8 |||
    (ip.toBitVec &&& 255#32)).getLsbD i = _
  simp only [BitVec.getLsbD_or, getLsbD_octet ip.toBitVec _ hi, BitVec.getLsbD_and, getLsbD_255]
  cases ip.toBitVec.getLsbD i with
  | false => simp
  | true =>
      simp only [Bool.true_and, BitVec.getLsbD_zero, Bool.false_or, Bool.or_eq_true,
        decide_eq_true_eq]
      omega

/-- An address is printed in full, and read back as it was. -/
theorem address_roundTrip (ip : UInt32) (buf : Mem) :
    ∃ r quad, ipAddrToStr ip buf = .ok r ∧
      quad = dottedQuad (octet ip 24) (octet ip 16) (octet ip 8) (ip &&& 0xFF) ∧
      quad.length ≤ 15 ∧ r.Holds buf 16 quad ∧ (r.string 16).bytes = quad ∧
      ipStrToAddr (r.string 16) = ip := by
  have hfmt : Complete quadFormat := by
    rw [Complete, pieces_quadFormat]
    decide
  have hlength : (dottedQuad (octet ip 24) (octet ip 16) (octet ip 8) (ip &&& 0xFF)).length ≤ 15 :=
    length_dottedQuad_le (and_255_lt _) (and_255_lt _) (and_255_lt _) (and_255_lt _)
  have hout := outputOf_quadFormat ip 16
  obtain ⟨r, hok, hholds⟩ := vsnprintf_fits buf (quadArgs ip) hfmt (Nat.sub_le 16 1)
    (by rw [hout]; omega)
  rw [hout] at hholds
  have hstring := hholds.string_eq (zero_notMem_dottedQuad _ _ _ _)
  refine ⟨r, _, hok, rfl, hlength, hholds, hstring, ?_⟩
  rw [ipStrToAddr, hstring, foldl_dottedQuad]
  exact or_octets ip

end FalastinOS.Net
