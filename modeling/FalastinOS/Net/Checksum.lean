/-
  Net/Checksum.lean --- what `net_checksum` computes.

  The loop adds words in a 32-bit accumulator.  A block of at most 65535 bytes has at
  most 32768 words, so no addition overflows and the accumulator holds the sum itself.
  Folding brings the upper half of the accumulator down until nothing is left above
  bit 15; it keeps the residue modulo 65535, and gives 0 for the sum 0 only.  Storing
  the checksum in a zeroed word therefore turns the sum into a positive multiple of
  65535, whose fold is all ones, whichever of the two representatives of zero the sum
  had before.
-/
import FalastinOS.Net.Icmp
import Mathlib.Logic.Function.Iterate

set_option autoImplicit false

namespace FalastinOS.Net

open FalastinOS.Foundation

/-! ## The sum -/

/-- The sum of `n` words from word `i` on. -/
def wordSum (m : Mem) (a : Nat) : Nat → Nat → Nat
  | 0, _ => 0
  | n + 1, i => m.readLE 2 (a + 2 * i) + wordSum m a n (i + 1)

/-- The last byte of a block of odd length, which counts as a word padded with zero. -/
def oddByte (m : Mem) (a len : Nat) : Nat :=
  if len % 2 = 1 then (m (a + 2 * (len / 2))).toNat else 0

/-- The sum of the words of a block. -/
def blockSum (m : Mem) (a len : Nat) : Nat := wordSum m a (len / 2) 0 + oddByte m a len

theorem wordSum_le (m : Mem) (a n : Nat) : ∀ i, wordSum m a n i ≤ 65535 * n := by
  induction n with
  | zero => exact fun _ => Nat.le_refl _
  | succ n ih =>
      intro i
      have hword : m.readLE 2 (a + 2 * i) < 256 ^ 2 := m.readLE_lt 2 _
      have hrest := ih (i + 1)
      rw [wordSum]
      omega

/-- The loop adds without overflow as long as the words it has left cannot exceed what
the accumulator can still take. -/
theorem checksumLoop_eq (m : Mem) (a n : Nat) : ∀ i sum, sum + 65535 * n < 2 ^ 32 →
    checksumLoop m a n i sum = sum + wordSum m a n i := by
  induction n with
  | zero => exact fun _ _ _ => rfl
  | succ n ih =>
      intro i sum hfits
      have hword : m.readLE 2 (a + 2 * i) < 256 ^ 2 := m.readLE_lt 2 _
      rw [checksumLoop, Nat.mod_eq_of_lt (by omega), ih (i + 1) _ (by omega), wordSum,
        Nat.add_assoc]

/-- What is left in the accumulator when the words are added. -/
theorem netChecksum_eq (m : Mem) (a : Nat) {len : Nat} (hlen : len ≤ 65535) :
    netChecksum m a len = 65535 - foldCarry (blockSum m a len) % 65536 := by
  have hwords := wordSum_le m a (len / 2) 0
  have htail : m.readLE 2 (a + 2 * (len / 2)) % 256 = (m (a + 2 * (len / 2))).toNat := by
    have hbyte := (m (a + 2 * (len / 2))).toNat_lt
    simp only [Mem.readLE]
    omega
  have hbyte := (m (a + 2 * (len / 2))).toNat_lt
  have hloop : checksumLoop m a (len / 2) 0 0 = wordSum m a (len / 2) 0 := by
    rw [checksumLoop_eq m a _ 0 0 (by omega), Nat.zero_add]
  have hsum : (wordSum m a (len / 2) 0 + (m (a + 2 * (len / 2))).toNat) % 2 ^ 32 =
      wordSum m a (len / 2) 0 + (m (a + 2 * (len / 2))).toNat := Nat.mod_eq_of_lt (by omega)
  rw [netChecksum, hloop, htail, hsum, blockSum, oddByte]
  split <;> rfl

/-! ## Folding -/

/-- One iteration of the folding loop. -/
def foldStep (sum : Nat) : Nat := sum % 65536 + sum / 65536

theorem foldCarry_of_lt {sum : Nat} (h : sum < 65536) : foldCarry sum = sum := by
  rw [foldCarry, if_pos (by omega)]

theorem foldCarry_foldStep (sum : Nat) : foldCarry (foldStep sum) = foldCarry sum := by
  by_cases hdone : sum < 65536
  · rw [foldStep, Nat.mod_eq_of_lt hdone, Nat.div_eq_of_lt hdone, Nat.add_zero]
  · conv_rhs => rw [foldCarry, if_neg (by omega)]
    rfl

/-- A 32-bit sum is folded by at most two iterations, and none of them exceeds it. -/
theorem foldCarry_iterate {sum : Nat} (h : sum < 2 ^ 32) :
    ∃ n ≤ 2, foldStep^[n] sum / 65536 = 0 ∧ foldCarry sum = foldStep^[n] sum ∧
      ∀ k ≤ n, foldStep^[k] sum ≤ sum := by
  have hone : foldStep sum ≤ sum := by unfold foldStep; omega
  have htwo : foldStep (foldStep sum) ≤ foldStep sum := by unfold foldStep; omega
  have hsmall : foldStep (foldStep sum) < 65536 := by unfold foldStep; omega
  refine ⟨2, Nat.le_refl 2, Nat.div_eq_of_lt hsmall, ?_, fun k hk => ?_⟩
  · rw [← foldCarry_foldStep, ← foldCarry_foldStep, foldCarry_of_lt hsmall]
    rfl
  · match k, hk with
    | 0, _ => exact Nat.le_refl _
    | 1, _ => exact hone
    | 2, _ => exact Nat.le_trans htwo hone

theorem foldCarry_lt (sum : Nat) : foldCarry sum < 65536 := by
  fun_induction foldCarry sum with
  | case1 sum hdone => omega
  | case2 sum hmore ih => exact ih

/-- Folding keeps the residue modulo 65535. -/
theorem foldCarry_mod (sum : Nat) : foldCarry sum % 65535 = sum % 65535 := by
  fun_induction foldCarry sum with
  | case1 sum hdone => rfl
  | case2 sum hmore ih => omega

/-- Folding does not bring a positive sum down to 0. -/
theorem foldCarry_pos {sum : Nat} (h : 0 < sum) : 0 < foldCarry sum := by
  fun_induction foldCarry sum with
  | case1 sum hdone => exact h
  | case2 sum hmore ih => exact ih (by omega)

/-- A positive multiple of 65535 folds to all ones. -/
theorem foldCarry_eq_ones {sum : Nat} (hpos : 0 < sum) (hmod : sum % 65535 = 0) :
    foldCarry sum = 65535 := by
  have hlt := foldCarry_lt sum
  have hfold := foldCarry_mod sum
  have hfoldPos := foldCarry_pos hpos
  omega

/-! ## Storing the checksum -/

/-- A word stored in a place that held 0 is added to the sum of every range it lies in. -/
theorem wordSum_writeLE (m : Mem) (a k c n : Nat) (hzero : m.readLE 2 (a + 2 * k) = 0)
    (hc : c < 65536) : ∀ i, wordSum (m.writeLE 2 (a + 2 * k) c) a n i =
      wordSum m a n i + if i ≤ k ∧ k < i + n then c else 0 := by
  induction n with
  | zero => intro i; rw [wordSum, wordSum, if_neg (by omega)]
  | succ n ih =>
      intro i
      rw [wordSum, wordSum, ih (i + 1)]
      by_cases hhere : i = k
      · subst hhere
        rw [hzero, Mem.readLE_writeLE_of_lt m _ hc, if_neg (by omega), if_pos (by omega)]
        omega
      · rw [Mem.readLE_writeLE_of_disjoint m (by omega)]
        split <;> split <;> omega

theorem blockSum_writeLE (m : Mem) {a k c len : Nat} (hfield : 2 * k + 2 ≤ len)
    (hzero : m.readLE 2 (a + 2 * k) = 0) (hc : c < 65536) :
    blockSum (m.writeLE 2 (a + 2 * k) c) a len = blockSum m a len + c := by
  have htail : oddByte (m.writeLE 2 (a + 2 * k) c) a len = oddByte m a len := by
    unfold oddByte
    rw [Mem.writeLE_of_outside m (by omega)]
  rw [blockSum, blockSum, htail, wordSum_writeLE m a k c _ hzero hc, if_pos (by omega)]
  omega

/-- No addition of `net_checksum(data, len)` exceeds 32 bits. -/
structure NoOverflow (m : Mem) (a len : Nat) : Prop where
  words : ∀ n < len / 2, checksumLoop m a n 0 0 + m.readLE 2 (a + 2 * n) < 2 ^ 32
  tail : len % 2 = 1 →
    checksumLoop m a (len / 2) 0 0 + m.readLE 2 (a + 2 * (len / 2)) % 256 < 2 ^ 32

theorem noOverflow_of_le (m : Mem) (a : Nat) {len : Nat} (hlen : len ≤ 65535) :
    NoOverflow m a len := by
  refine ⟨fun n hn => ?_, fun _ => ?_⟩
  · have hword : m.readLE 2 (a + 2 * n) < 256 ^ 2 := m.readLE_lt 2 _
    have hsum := wordSum_le m a n 0
    rw [checksumLoop_eq m a n 0 0 (by omega)]
    omega
  · have hsum := wordSum_le m a (len / 2) 0
    rw [checksumLoop_eq m a _ 0 0 (by omega)]
    omega

/-- A block with its checksum stored in a zeroed word has the checksum 0.  The
accumulator does not overflow, and folding ends after at most two iterations. -/
theorem netChecksum_self (m : Mem) {a len k : Nat} (hlen : len ≤ 65535)
    (hfield : 2 * k + 2 ≤ len) (hzero : m.readLE 2 (a + 2 * k) = 0) :
    netChecksum (m.writeLE 2 (a + 2 * k) (netChecksum m a len)) a len = 0 ∧
    NoOverflow m a len ∧
    NoOverflow (m.writeLE 2 (a + 2 * k) (netChecksum m a len)) a len ∧
    ∀ sum < 2 ^ 32, ∃ n ≤ 2, foldStep^[n] sum / 65536 = 0 ∧ foldCarry sum = foldStep^[n] sum ∧
      ∀ j ≤ n, foldStep^[j] sum ≤ sum := by
  refine ⟨?_, noOverflow_of_le m a hlen, noOverflow_of_le _ a hlen, fun sum => foldCarry_iterate⟩
  have hfold := foldCarry_lt (blockSum m a len)
  have hmod := foldCarry_mod (blockSum m a len)
  have hsum : netChecksum m a len = 65535 - foldCarry (blockSum m a len) := by
    rw [netChecksum_eq m a hlen, Nat.mod_eq_of_lt hfold]
  have hpos : 0 < blockSum m a len + netChecksum m a len := by
    rcases Nat.eq_zero_or_pos (blockSum m a len) with hnone | hsome
    · rw [hsum, hnone, foldCarry_of_lt (by decide)]
      decide
    · omega
  rw [netChecksum_eq _ a hlen, blockSum_writeLE m hfield hzero (by omega),
    foldCarry_eq_ones hpos (by omega)]

/-- A block of three bytes, the first two of them the field. -/
def oddBlock : Mem := fun i => if i = 2 then 7 else 0

theorem netChecksum_self_oddBlock :
    netChecksum oddBlock 0 3 = 65528 ∧
      netChecksum (oddBlock.writeLE 2 0 (netChecksum oddBlock 0 3)) 0 3 = 0 := by
  have hself := netChecksum_self (a := 0) (k := 0) oddBlock (show 3 ≤ 65535 by decide) (by decide)
    (by decide)
  refine ⟨?_, hself.1⟩
  rw [netChecksum_eq _ _ (by decide), foldCarry_of_lt (by decide)]
  decide

end FalastinOS.Net
