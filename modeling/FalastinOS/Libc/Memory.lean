/-
  Libc/Memory.lean --- `memcpy`, `memset` and `memmove` of `libc.c`.

  All are byte loops.  `memcpy` reads each byte from the memory it is writing to, so
  what it copies is the source as it was only where no byte of the source is
  overwritten before it is read.  Going upwards that is so if the destination begins
  at or below the source; going downwards, if it begins at or above it.  `memmove`
  chooses the direction accordingly, and copies the source as it was however the two
  ranges overlap.
-/
import FalastinOS.Foundation.Memory

set_option autoImplicit false

namespace FalastinOS.Libc

open FalastinOS.Foundation

/-- `for (i = 0; i < n; i++) d[i] = s[i]` from index `i` on, `n` iterations
left. -/
def memcpyLoop (dest src : Nat) : Nat → Nat → Mem → Mem
  | 0, _, m => m
  | n + 1, i, m => memcpyLoop dest src n (i + 1) (m.writeByte (dest + i) (m (src + i)))

/-- `memcpy(dest, src, n)`. -/
def memcpy (m : Mem) (dest src n : Nat) : Mem := memcpyLoop dest src n 0 m

/-- `for (i = 0; i < n; i++) d[i] = (uint8_t)c` from index `i` on, `n`
iterations left. -/
def memsetLoop (dest : Nat) (c : Int32) : Nat → Nat → Mem → Mem
  | 0, _, m => m
  | n + 1, i, m => memsetLoop dest c n (i + 1) (m.writeByte (dest + i) c.toUInt32.toUInt8)

/-- `memset(dest, c, n)`. -/
def memset (m : Mem) (dest : Nat) (c : Int32) (n : Nat) : Mem := memsetLoop dest c n 0 m

/-- `for (i = n; i > 0; i--) d[i-1] = s[i-1]`. -/
def memmoveDown (dest src : Nat) : Nat → Mem → Mem
  | 0, m => m
  | n + 1, m => memmoveDown dest src n (m.writeByte (dest + n) (m (src + n)))

/-- `memmove(dest, src, n)`. -/
def memmove (m : Mem) (dest src n : Nat) : Mem :=
  if dest < src then memcpyLoop dest src n 0 m else memmoveDown dest src n m

theorem memsetLoop_apply (dest : Nat) (c : Int32) (n : Nat) :
    ∀ (i : Nat) (m : Mem) (x : Nat), memsetLoop dest c n i m x =
      if dest + i ≤ x ∧ x < dest + i + n then c.toUInt32.toUInt8 else m x := by
  induction n with
  | zero =>
      intro i m x
      rw [if_neg (by omega)]
      rfl
  | succ n ih =>
      intro i m x
      rw [memsetLoop, ih]
      by_cases hx : x = dest + i
      · rw [if_neg (by omega), if_pos (by omega), hx, Mem.writeByte_self]
      · rw [Mem.writeByte_of_ne m _ hx]
        congr 1
        exact propext (by omega)

theorem memset_inside (m : Mem) (c : Int32) {dest n x : Nat} (hlow : dest ≤ x)
    (hhigh : x < dest + n) : memset m dest c n x = c.toUInt32.toUInt8 := by
  rw [memset, memsetLoop_apply, if_pos (by omega)]

theorem memset_outside (m : Mem) (c : Int32) {dest n x : Nat} (h : x < dest ∨ dest + n ≤ x) :
    memset m dest c n x = m x := by
  rw [memset, memsetLoop_apply, if_neg (by omega)]

theorem memcpyLoop_outside (dest src : Nat) (n : Nat) :
    ∀ (i : Nat) (m : Mem) (x : Nat), x < dest + i ∨ dest + i + n ≤ x →
      memcpyLoop dest src n i m x = m x := by
  induction n with
  | zero => exact fun _ _ _ _ => rfl
  | succ n ih =>
      intro i m x hx
      rw [memcpyLoop, ih _ _ _ (by omega), Mem.writeByte_of_ne m _ (by omega)]

/-- A copy changes nothing outside its destination. -/
theorem memcpy_outside (m : Mem) {dest src n x : Nat} (h : x < dest ∨ dest + n ≤ x) :
    memcpy m dest src n x = m x :=
  memcpyLoop_outside dest src n 0 m x (by omega)

/-- The bytes of the source that are still to be read are above those written. -/
theorem memcpyLoop_inside {dest src total : Nat}
    (hahead : dest ≤ src ∨ src + total ≤ dest) (n : Nat) :
    ∀ (i : Nat) (m : Mem) (k : Nat), i + n = total → i ≤ k → k < total →
      memcpyLoop dest src n i m (dest + k) = m (src + k) := by
  induction n with
  | zero =>
      intro i m k hi hk hlt
      omega
  | succ n ih =>
      intro i m k hi hk hlt
      rw [memcpyLoop]
      by_cases hik : k = i
      · subst hik
        rw [memcpyLoop_outside _ _ _ _ _ _ (by omega), Mem.writeByte_self]
      · rw [ih (i + 1) _ k (by omega) (by omega) hlt, Mem.writeByte_of_ne m _ (by omega)]

/-- A copy between ranges that do not overlap. -/
theorem memcpy_inside (m : Mem) {dest src n k : Nat}
    (hapart : dest + n ≤ src ∨ src + n ≤ dest) (hk : k < n) :
    memcpy m dest src n (dest + k) = m (src + k) :=
  memcpyLoop_inside (by omega) n 0 m k (by omega) (by omega) hk

theorem memmoveDown_outside (dest src : Nat) (n : Nat) :
    ∀ (m : Mem) (x : Nat), x < dest ∨ dest + n ≤ x → memmoveDown dest src n m x = m x := by
  induction n with
  | zero => exact fun _ _ _ => rfl
  | succ n ih =>
      intro m x hx
      rw [memmoveDown, ih _ _ (by omega), Mem.writeByte_of_ne m _ (by omega)]

/-- The bytes of the source that are still to be read are below those written. -/
theorem memmoveDown_inside {dest src : Nat} (hbehind : src ≤ dest) (n : Nat) :
    ∀ (m : Mem) (k : Nat), k < n → memmoveDown dest src n m (dest + k) = m (src + k) := by
  induction n with
  | zero => exact fun _ _ hk => absurd hk (Nat.not_lt_zero _)
  | succ n ih =>
      intro m k hk
      rw [memmoveDown]
      by_cases hlast : k = n
      · subst hlast
        rw [memmoveDown_outside _ _ _ _ _ (by omega), Mem.writeByte_self]
      · rw [ih _ k (by omega), Mem.writeByte_of_ne m _ (by omega)]

/-- `memmove` copies the source as it was, and changes nothing outside the destination. -/
theorem memmove_overlap_safe (m : Mem) (dest src n : Nat) :
    (∀ k, k < n → memmove m dest src n (dest + k) = m (src + k)) ∧
      ∀ x, x < dest ∨ dest + n ≤ x → memmove m dest src n x = m x := by
  unfold memmove
  split
  · rename_i hbelow
    refine ⟨fun k hk => ?_, fun x hx => ?_⟩
    · exact memcpyLoop_inside (by omega) n 0 m k (by omega) (by omega) hk
    · exact memcpyLoop_outside dest src n 0 m x (by omega)
  · rename_i habove
    refine ⟨fun k hk => ?_, fun x hx => ?_⟩
    · exact memmoveDown_inside (by omega) n m k hk
    · exact memmoveDown_outside dest src n m x hx

end FalastinOS.Libc
