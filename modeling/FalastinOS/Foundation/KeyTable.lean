/-
  Foundation/KeyTable.lean --- a bounded array of entries used as a map.

  The first `count` slots of an array are in use; a key is found by a search from the
  first slot on.  `store` overwrites the value of a key that is there and takes a new
  slot for one that is not, while there is room; it does nothing to a full table.

  A table is `Kept` when its used slots are live and have distinct keys.  Then it is a
  map: `lookup_store_self` and `lookup_store_other` say so.  A `Ledger` beside the table
  notes, for every key, the value last given to `store` and whether `store` refused the
  key; `Ledger.Describes` says that looking a key up gives just that.

  Nothing here mentions a particular program.
-/
import Mathlib.Data.List.FinRange
import Mathlib.Logic.Function.Basic

set_option autoImplicit false

namespace FalastinOS.Foundation

/-- An array of `n` slots, the first `count` of them in use. -/
structure KeyTable (K V : Type) (n : Nat) where
  key : Fin n → K
  value : Fin n → V
  live : Fin n → Bool
  count : Nat
  countLe : count ≤ n

namespace KeyTable

variable {K V : Type} {n : Nat}

/-- Overwrite the value in a slot. -/
def set (t : KeyTable K V n) (i : Fin n) (v : V) : KeyTable K V n :=
  { t with value := Function.update t.value i v }

/-- Take the next slot. -/
def push (t : KeyTable K V n) (k : K) (v : V) (h : t.count < n) : KeyTable K V n where
  key := Function.update t.key ⟨t.count, h⟩ k
  value := Function.update t.value ⟨t.count, h⟩ v
  live := Function.update t.live ⟨t.count, h⟩ true
  count := t.count + 1
  countLe := h

/-- The slots in use are live and have distinct keys. -/
structure Kept (t : KeyTable K V n) : Prop where
  live : ∀ i : Fin n, i.val < t.count → t.live i = true
  distinct : ∀ i j : Fin n, i.val < t.count → j.val < t.count → t.key i = t.key j → i = j

variable {t : KeyTable K V n} {k k' : K} {v : V}

theorem Kept.set (h : t.Kept) (i : Fin n) (v : V) : (t.set i v).Kept := ⟨h.live, h.distinct⟩

/-- A slot in use after `push` is the new one or an old one as it was. -/
theorem push_slot {hroom : t.count < n} {i : Fin n} (hi : i.val < (t.push k v hroom).count) :
    (i = ⟨t.count, hroom⟩ ∧ (t.push k v hroom).key i = k ∧ (t.push k v hroom).value i = v ∧
      (t.push k v hroom).live i = true) ∨
    (i.val < t.count ∧ (t.push k v hroom).key i = t.key i ∧
      (t.push k v hroom).value i = t.value i ∧ (t.push k v hroom).live i = t.live i) := by
  by_cases hlast : i = ⟨t.count, hroom⟩
  · subst hlast
    exact .inl ⟨rfl, Function.update_self .., Function.update_self .., Function.update_self ..⟩
  · have hne : i.val ≠ t.count := fun h => hlast (Fin.ext h)
    have hlt : i.val < t.count + 1 := hi
    exact .inr ⟨by omega, Function.update_of_ne hlast .., Function.update_of_ne hlast ..,
      Function.update_of_ne hlast ..⟩

theorem push_last (hroom : t.count < n) :
    (t.push k v hroom).key ⟨t.count, hroom⟩ = k ∧ (t.push k v hroom).value ⟨t.count, hroom⟩ = v :=
  ⟨Function.update_self .., Function.update_self ..⟩

theorem push_old (hroom : t.count < n) {i : Fin n} (hi : i.val < t.count) :
    (t.push k v hroom).key i = t.key i ∧ (t.push k v hroom).value i = t.value i := by
  have hne : i ≠ ⟨t.count, hroom⟩ := fun h => absurd (congrArg Fin.val h) (by simp only; omega)
  exact ⟨Function.update_of_ne hne .., Function.update_of_ne hne ..⟩

/-! ## Lookup and store -/

variable [DecidableEq K]

/-- The first slot in use that has the key. -/
def find (t : KeyTable K V n) (k : K) : Option (Fin n) :=
  (List.finRange n).find? fun i => decide (i.val < t.count) && t.live i && decide (t.key i = k)

/-- The value found for a key. -/
def lookup (t : KeyTable K V n) (k : K) : Option V := (t.find k).map t.value

/-- Give a key a value. -/
def store (t : KeyTable K V n) (k : K) (v : V) : KeyTable K V n :=
  match t.find k with
  | some i => t.set i v
  | none => if h : t.count < n then t.push k v h else t

namespace Kept

theorem find_eq_some_iff (h : t.Kept) {i : Fin n} :
    t.find k = some i ↔ i.val < t.count ∧ t.key i = k := by
  constructor
  · intro hfind
    have hi := List.find?_some hfind
    simp only [Bool.and_eq_true, decide_eq_true_eq] at hi
    exact ⟨hi.1.1, hi.2⟩
  · rintro ⟨hlt, hkey⟩
    cases hfind : t.find k with
    | none =>
        have hnone := List.find?_eq_none.mp hfind i (List.mem_finRange i)
        exact absurd hnone (by simp [hlt, hkey, h.live i hlt])
    | some j =>
        have hj := List.find?_some hfind
        simp only [Bool.and_eq_true, decide_eq_true_eq] at hj
        rw [h.distinct j i hj.1.1 hlt (hj.2.trans hkey.symm)]

theorem find_eq_none_iff (h : t.Kept) :
    t.find k = none ↔ ∀ i : Fin n, i.val < t.count → t.key i ≠ k := by
  constructor
  · intro hnone i hlt hkey
    rw [h.find_eq_some_iff.mpr ⟨hlt, hkey⟩] at hnone
    exact nomatch hnone
  · intro hall
    cases hfind : t.find k with
    | none => rfl
    | some i =>
        obtain ⟨hlt, hkey⟩ := h.find_eq_some_iff.mp hfind
        exact absurd hkey (hall i hlt)

/-- The value of a key is that of the slot in use that has it. -/
theorem lookup_eq_some_iff (h : t.Kept) :
    t.lookup k = some v ↔ ∃ i : Fin n, i.val < t.count ∧ t.key i = k ∧ t.value i = v := by
  simp only [lookup, Option.map_eq_some_iff, h.find_eq_some_iff, and_assoc]

theorem push (h : t.Kept) (hnew : t.find k = none) (hroom : t.count < n) :
    (t.push k v hroom).Kept := by
  have hfresh := h.find_eq_none_iff.mp hnew
  constructor
  · intro i hi
    obtain ⟨_, _, _, hlive⟩ | ⟨hlt, _, _, hlive⟩ := push_slot hi
    · exact hlive
    · exact hlive.trans (h.live i hlt)
  · intro i j hi hj hkey
    obtain ⟨hi', hki, _⟩ | ⟨hi', hki, _⟩ := push_slot hi <;>
      obtain ⟨hj', hkj, _⟩ | ⟨hj', hkj, _⟩ := push_slot hj <;> rw [hki, hkj] at hkey
    · exact hi'.trans hj'.symm
    · exact absurd hkey.symm (hfresh j hj')
    · exact absurd hkey (hfresh i hi')
    · exact h.distinct i j hi' hj' hkey

theorem store (h : t.Kept) (k : K) (v : V) : (t.store k v).Kept := by
  unfold KeyTable.store
  cases hfind : t.find k with
  | some i => exact h.set i v
  | none =>
      by_cases hroom : t.count < n
      · simp only [dif_pos hroom]
        exact h.push hfind hroom
      · simp only [dif_neg hroom]
        exact h

/-- The value just stored is found, unless the key was refused. -/
theorem lookup_store_self (h : t.Kept) (k : K) (v : V) :
    (t.store k v).lookup k =
      if t.lookup k = none ∧ t.count = n then none else some v := by
  have hkept := h.store k v
  unfold KeyTable.store at hkept ⊢
  have hle := t.countLe
  cases hfind : t.find k with
  | some i =>
      have hlookup : t.lookup k = some (t.value i) := by rw [lookup, hfind, Option.map_some]
      obtain ⟨hlt, hkey⟩ := h.find_eq_some_iff.mp hfind
      simp only [hfind] at hkept ⊢
      rw [if_neg (by simp [hlookup]), hkept.lookup_eq_some_iff]
      exact ⟨i, hlt, hkey, Function.update_self ..⟩
  | none =>
      have hlookup : t.lookup k = none := by rw [lookup, hfind, Option.map_none]
      simp only [hfind] at hkept ⊢
      by_cases hroom : t.count < n
      · simp only [dif_pos hroom] at hkept ⊢
        rw [if_neg (by omega), hkept.lookup_eq_some_iff]
        exact ⟨⟨t.count, hroom⟩, Nat.lt_succ_self _, push_last hroom⟩
      · simp only [dif_neg hroom]
        rw [hlookup, if_pos ⟨rfl, by omega⟩]

/-- Other keys keep their values. -/
theorem lookup_store_other (h : t.Kept) (v : V) (hne : k' ≠ k) :
    (t.store k v).lookup k' = t.lookup k' := by
  have hkept := h.store k v
  refine Option.ext fun w => ?_
  rw [hkept.lookup_eq_some_iff, h.lookup_eq_some_iff]
  unfold KeyTable.store
  cases hfind : t.find k with
  | some j =>
      obtain ⟨_, hkeyj⟩ := h.find_eq_some_iff.mp hfind
      have hother : ∀ i : Fin n, t.key i = k' → (t.set j v).value i = t.value i := by
        intro i hkey
        refine Function.update_of_ne (fun hij => hne ?_) ..
        rw [← hkey, hij, hkeyj]
      constructor
      · rintro ⟨i, hlt, hkey, hvalue⟩
        exact ⟨i, hlt, hkey, (hother i hkey).symm.trans hvalue⟩
      · rintro ⟨i, hlt, hkey, hvalue⟩
        exact ⟨i, hlt, hkey, (hother i hkey).trans hvalue⟩
  | none =>
      by_cases hroom : t.count < n
      · simp only [dif_pos hroom]
        constructor
        · rintro ⟨i, hlt, hkey, hvalue⟩
          obtain ⟨_, hk, _⟩ | ⟨hlt', hk, hv, _⟩ := push_slot hlt
          · exact absurd (hkey.symm.trans hk) hne
          · exact ⟨i, hlt', hk.symm.trans hkey, hv.symm.trans hvalue⟩
        · rintro ⟨i, hlt, hkey, hvalue⟩
          obtain ⟨hk, hv⟩ := push_old (k := k) (v := v) hroom hlt
          exact ⟨i, Nat.lt_succ_of_lt hlt, hk.trans hkey, hv.trans hvalue⟩
      · simp only [dif_neg hroom]

end Kept

/-- A store makes the table no smaller. -/
theorem count_le_store (t : KeyTable K V n) (k : K) (v : V) : t.count ≤ (t.store k v).count := by
  unfold store
  cases t.find k with
  | some i => exact Nat.le_refl _
  | none =>
      by_cases hroom : t.count < n
      · simp only [dif_pos hroom]
        exact Nat.le_succ _
      · simp only [dif_neg hroom, Nat.le_refl]

end KeyTable

/-! ## The ledger -/

/-- For every key, the value last given to `store` and whether the key was refused. -/
structure Ledger (K V : Type) where
  last : K → Option V
  refused : K → Bool

namespace Ledger

variable {K V : Type} [DecidableEq K] {n : Nat}

/-- Nothing was stored. -/
def empty : Ledger K V := ⟨fun _ => none, fun _ => false⟩

/-- Note a call of `store`: it refuses a key that is not in a full table. -/
def note (l : Ledger K V) (t : KeyTable K V n) (k : K) (v : V) : Ledger K V where
  last := Function.update l.last k (some v)
  refused := Function.update l.refused k
    (l.refused k || ((t.lookup k).isNone && decide (t.count = n)))

/-- Looking a key up gives the value last stored, and nothing for a key that was refused;
keys are refused by full tables only. -/
structure Describes (l : Ledger K V) (t : KeyTable K V n) : Prop where
  lookup_eq : ∀ k, t.lookup k = if l.refused k then none else l.last k
  full : ∀ k, l.refused k = true → t.count = n

/-- A ledger without refusals describes the table whose slots have its last values. -/
theorem describes_of_slots {l : Ledger K V} {t : KeyTable K V n} (hkept : t.Kept)
    (hrefused : ∀ k, l.refused k = false)
    (hslots : ∀ k v, (∃ i : Fin n, i.val < t.count ∧ t.key i = k ∧ t.value i = v) ↔
      l.last k = some v) : l.Describes t := by
  constructor
  · intro k
    rw [hrefused k]
    exact Option.ext fun v => hkept.lookup_eq_some_iff.trans (hslots k v)
  · intro k h
    exact nomatch (hrefused k).symm.trans h

theorem Describes.store {l : Ledger K V} {t : KeyTable K V n} (h : l.Describes t) (hkept : t.Kept)
    (k : K) (v : V) : (l.note t k v).Describes (t.store k v) := by
  have hcount := t.count_le_store k v
  have hle := (t.store k v).countLe
  constructor
  · intro k'
    by_cases hk : k' = k
    · subst hk
      rw [hkept.lookup_store_self]
      simp only [note, Function.update_self]
      cases hr : l.refused k' with
      | true =>
          have hnone : t.lookup k' = none := by rw [h.lookup_eq, hr, if_pos rfl]
          rw [if_pos ⟨hnone, h.full k' hr⟩, Bool.true_or, if_pos rfl]
      | false => cases hlookup : t.lookup k' <;> simp
    · rw [hkept.lookup_store_other v hk, h.lookup_eq]
      simp only [note, Function.update_of_ne hk]
  · intro k' hr
    suffices hfull : t.count = n by omega
    by_cases hk : k' = k
    · subst hk
      simp only [note, Function.update_self, Bool.or_eq_true, Bool.and_eq_true,
        decide_eq_true_eq] at hr
      obtain hr | ⟨_, hfull⟩ := hr
      · exact h.full k' hr
      · exact hfull
    · simp only [note, Function.update_of_ne hk] at hr
      exact h.full k' hr

end Ledger

end FalastinOS.Foundation
