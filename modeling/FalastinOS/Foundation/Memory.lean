/-
  Foundation/Memory.lean --- byte memories and little-endian words.

  A memory is a total map from addresses to bytes.  A word of `n` bytes at an
  address is read and written little-endian, which is how an x86 compiler lays
  out the integer fields of a C structure.  The module proves the three facts
  every client needs: a word reads back what was written, a write changes no
  byte outside its own range, and a read depends on no byte outside its range.

  The last section is about loops over a memory of any kind, whose rounds store at
  most one value each.

  Nothing here mentions a particular program.
-/
import Mathlib.Data.Nat.ModEq
import Mathlib.Tactic.Ring

set_option autoImplicit false

namespace FalastinOS.Foundation

/-- A byte memory: every address holds a byte. -/
abbrev Mem : Type := Nat → UInt8

namespace Mem

/-- The little-endian word of `n` bytes at address `a`. -/
def readLE (m : Mem) : Nat → Nat → Nat
  | 0, _ => 0
  | n + 1, a => (m a).toNat + 256 * readLE m n (a + 1)

/-- Store the low `n` bytes of `v` at address `a`, least significant first. -/
def writeLE (m : Mem) (n a v : Nat) : Mem := fun x =>
  if a ≤ x ∧ x < a + n then UInt8.ofNat (v / 256 ^ (x - a)) else m x

/-- Store one byte. -/
def writeByte (m : Mem) (a : Nat) (b : UInt8) : Mem := fun x => if x = a then b else m x

@[simp] theorem writeByte_self (m : Mem) (a : Nat) (b : UInt8) : m.writeByte a b a = b := by
  simp [writeByte]

theorem writeByte_of_ne (m : Mem) {a x : Nat} (b : UInt8) (h : x ≠ a) :
    m.writeByte a b x = m x := by
  simp [writeByte, h]

/-- A write leaves every byte outside its range alone. -/
theorem writeLE_of_outside (m : Mem) {n a v x : Nat} (h : x < a ∨ a + n ≤ x) :
    m.writeLE n a v x = m x := by
  unfold writeLE
  rw [if_neg]
  omega

/-- Inside its range a write stores the corresponding byte of the value. -/
theorem writeLE_at (m : Mem) {n a v k : Nat} (h : k < n) :
    m.writeLE n a v (a + k) = UInt8.ofNat (v / 256 ^ k) := by
  unfold writeLE
  rw [if_pos (by omega), Nat.add_sub_cancel_left]

/-- A read depends only on the bytes of its range. -/
theorem readLE_congr {m m' : Mem} : ∀ {n a : Nat},
    (∀ x, a ≤ x → x < a + n → m' x = m x) → m'.readLE n a = m.readLE n a
  | 0, _, _ => rfl
  | n + 1, a, h => by
      have hhead : m' a = m a := h a (by omega) (by omega)
      have htail : m'.readLE n (a + 1) = m.readLE n (a + 1) :=
        readLE_congr fun x hx hx' => h x (by omega) (by omega)
      simp only [readLE, hhead, htail]

/-- A word fits in its width. -/
theorem readLE_lt (m : Mem) : ∀ n a : Nat, m.readLE n a < 256 ^ n
  | 0, _ => by simp [readLE]
  | n + 1, a => by
      have hhead : (m a).toNat < 256 := (m a).toNat_lt
      have htail := readLE_lt m n (a + 1)
      have hpow : 256 ^ (n + 1) = 256 * 256 ^ n := by ring
      simp only [readLE, hpow]
      omega

/-- The bytes of a word are those it was read from. -/
theorem byte_readLE (m : Mem) : ∀ {n k : Nat} (a : Nat), k < n →
    UInt8.ofNat (m.readLE n a / 256 ^ k) = m (a + k)
  | 0, _, _, h => absurd h (Nat.not_lt_zero _)
  | n + 1, 0, a, _ => by
      have hhead : (m a).toNat < 256 := (m a).toNat_lt
      have hmod : m.readLE (n + 1) a % 256 = (m a).toNat := by
        simp only [readLE]
        omega
      apply UInt8.toNat_inj.mp
      rw [UInt8.toNat_ofNat', pow_zero, Nat.div_one, hmod, Nat.add_zero]
  | n + 1, k + 1, a, h => by
      have hhead : (m a).toNat < 256 := (m a).toNat_lt
      have hdiv : m.readLE (n + 1) a / 256 = m.readLE n (a + 1) := by
        simp only [readLE]
        omega
      rw [pow_succ', ← Nat.div_div_eq_div_mul, hdiv, byte_readLE m (a + 1) (by omega)]
      congr 1
      omega

/-- A word whose bytes are those of `v` reads as `v` modulo its width. -/
theorem readLE_of_bytes {m : Mem} : ∀ {n a v : Nat},
    (∀ k, k < n → m (a + k) = UInt8.ofNat (v / 256 ^ k)) → m.readLE n a = v % 256 ^ n
  | 0, _, _, _ => by simp [readLE, Nat.mod_one]
  | n + 1, a, v, h => by
      have hhead : (m a).toNat = v % 256 := by
        have := h 0 (by omega)
        simp only [Nat.add_zero, pow_zero, Nat.div_one] at this
        rw [this, UInt8.toNat_ofNat']
      have htail : m.readLE n (a + 1) = v / 256 % 256 ^ n := by
        refine readLE_of_bytes fun k hk => ?_
        have := h (k + 1) (by omega)
        rw [show a + 1 + k = a + (k + 1) by omega, this, Nat.div_div_eq_div_mul]
        congr 2
        ring
      have hpow : 256 ^ (n + 1) = 256 * 256 ^ n := by ring
      rw [readLE, hhead, htail, hpow, Nat.mod_mul]

/-- Writing a word and reading it back gives the value modulo its width. -/
theorem readLE_writeLE (m : Mem) (n a v : Nat) :
    (m.writeLE n a v).readLE n a = v % 256 ^ n :=
  readLE_of_bytes fun _ hk => m.writeLE_at hk

/-- A value that fits is read back unchanged. -/
theorem readLE_writeLE_of_lt (m : Mem) {n v : Nat} (a : Nat) (h : v < 256 ^ n) :
    (m.writeLE n a v).readLE n a = v := by
  rw [readLE_writeLE, Nat.mod_eq_of_lt h]

/-- A write does not disturb a word that lies outside its range. -/
theorem readLE_writeLE_of_disjoint (m : Mem) {n a v k b : Nat}
    (h : b + k ≤ a ∨ a + n ≤ b) : (m.writeLE n a v).readLE k b = m.readLE k b :=
  readLE_congr fun _ _ _ => m.writeLE_of_outside (by omega)

end Mem

/-! ## Words as signed integers -/

/-- A 32-bit word as an integer, in two's complement. -/
theorem toInt_toInt32 (w : UInt32) :
    w.toInt32.toInt = if w.toNat < 2 ^ 31 then (w.toNat : Int) else w.toNat - 2 ^ 32 := by
  have hbits : w.toInt32.toInt = w.toBitVec.toInt := rfl
  rw [hbits, BitVec.toInt_eq_toNat_cond]
  simp only [UInt32.toNat_toBitVec]
  split
  · rw [if_pos (by omega)]
  · rw [if_neg (by omega)]
    rfl

theorem toInt_add_of_bounds {a b : Int32} (hlow : -2 ^ 31 ≤ a.toInt + b.toInt)
    (hhigh : a.toInt + b.toInt < 2 ^ 31) : (a + b).toInt = a.toInt + b.toInt := by
  rw [Int32.toInt_add]
  exact Int.bmod_eq_of_le (by omega) (by omega)

/-! ## Loops that store -/

section Loops

variable {α β γ : Type} [DecidableEq α]

/-- Store a value at an address, or nothing. -/
def storeOption (m : α → β) : Option (α × β) → α → β
  | none => m
  | some (a, v) => Function.update m a v

theorem storeOption_of_ne {m : α → β} {w : Option (α × β)} {a : α} (h : ∀ v, w ≠ some (a, v)) :
    storeOption m w a = m a := by
  cases w with
  | none => rfl
  | some w => exact Function.update_of_ne (fun ha => h w.2 (by rw [ha])) _ _

variable {body : (α → β) → γ → α → β} {stored : γ → Option (α × β)}

/-- A loop leaves an address alone if none of its rounds stores there. -/
theorem foldl_store_of_ne (hbody : ∀ m c, body m c = storeOption m (stored c)) {cells : List γ}
    {a : α} (h : ∀ c ∈ cells, ∀ v, stored c ≠ some (a, v)) (m : α → β) :
    cells.foldl body m a = m a := by
  induction cells generalizing m with
  | nil => rfl
  | cons c rest ih =>
      rw [List.forall_mem_cons] at h
      rw [List.foldl_cons, ih h.2, hbody, storeOption_of_ne h.1]

/-- What all rounds store at an address has a property; then so has what is there after the
loop, if a round stores there. -/
theorem foldl_store_induction (hbody : ∀ m c, body m c = storeOption m (stored c)) {a : α}
    {P : β → Prop} {cells : List γ} (hP : ∀ c ∈ cells, ∀ v, stored c = some (a, v) → P v)
    {m : α → β} (h : P (m a) ∨ ∃ c ∈ cells, ∃ v, stored c = some (a, v)) :
    P (cells.foldl body m a) := by
  induction cells generalizing m with
  | nil => exact h.elim id fun ⟨_, hmem, _⟩ => absurd hmem List.not_mem_nil
  | cons c rest ih =>
      rw [List.forall_mem_cons] at hP
      rw [List.foldl_cons]
      by_cases hhere : ∃ v, stored c = some (a, v)
      · obtain ⟨v, hv⟩ := hhere
        refine ih hP.2 (.inl ?_)
        rw [hbody, hv, storeOption, Function.update_self]
        exact hP.1 v hv
      · refine ih hP.2 ?_
        rw [hbody, storeOption_of_ne fun v hv => hhere ⟨v, hv⟩]
        exact h.imp_right fun ⟨d, hmem, hd⟩ =>
          ⟨d, (List.mem_cons.mp hmem).resolve_left fun hdc => hhere (hdc ▸ hd), hd⟩

/-- Two loops that store one value, each at the same addresses, leave the same memory. -/
theorem foldl_store_eq {δ : Type} {body' : (α → β) → δ → α → β} {stored' : δ → Option (α × β)}
    (hbody : ∀ m c, body m c = storeOption m (stored c))
    (hbody' : ∀ m c, body' m c = storeOption m (stored' c)) {v : β} {cells : List γ}
    {cells' : List δ} (hv : ∀ c ∈ cells, ∀ w, stored c = some w → w.2 = v)
    (hv' : ∀ c ∈ cells', ∀ w, stored' c = some w → w.2 = v)
    (hsame : ∀ a, (∃ c ∈ cells, ∃ u, stored c = some (a, u)) ↔
      ∃ c ∈ cells', ∃ u, stored' c = some (a, u)) (m : α → β) :
    cells.foldl body m = cells'.foldl body' m := by
  funext a
  by_cases hstored : ∃ c ∈ cells, ∃ u, stored c = some (a, u)
  · have hleft : cells.foldl body m a = v :=
      foldl_store_induction (P := fun u => u = v) hbody (fun c hc u hu => hv c hc _ hu)
        (.inr hstored)
    have hright : cells'.foldl body' m a = v :=
      foldl_store_induction (P := fun u => u = v) hbody' (fun c hc u hu => hv' c hc _ hu)
        (.inr ((hsame a).mp hstored))
    rw [hleft, hright]
  · have hnone := (hsame a).not.mp hstored
    rw [foldl_store_of_ne hbody (fun c hc u hu => hstored ⟨c, hc, u, hu⟩),
      foldl_store_of_ne hbody' (fun c hc u hu => hnone ⟨c, hc, u, hu⟩)]

end Loops

end FalastinOS.Foundation
