/-
  Foundation/Arena.lean --- a row of blocks, each behind a header.

  An allocator that keeps its headers in line with its data divides a range of
  addresses into blocks: `hd` bytes of header, then `size` bytes of data.  Here
  a block is its size and its owner, and the row is a list; the header's bytes
  play no part.  A client picks what a label `β` of an owner is.

      usedAt a bs p       size and owner of the block whose data start at p
      allocate a bs       first fit, splitting a block that leaves enough
      assign p o a bs     the block at p gets the owner o, or none
      merge b bs          neighbours that are both free become one

  For each operation the module says what it does to `usedAt`, to the extent of
  the row, to divisibility of the sizes, and to the rule that no two neighbours
  are free.  Addresses of the blocks of a row start at `a`.
-/
import Mathlib.Algebra.GroupWithZero.Nat
import Mathlib.Data.List.Chain
import Mathlib.Logic.Function.Basic

set_option autoImplicit false

namespace FalastinOS.Foundation

/-- A block: the bytes of data behind its header, and who owns them. -/
structure Blk (β : Type) where
  size : Nat
  owner : Option β

namespace Arena

variable {β : Type} (hd : Nat)

/-- The bytes a row takes, headers included. -/
def extent : List (Blk β) → Nat
  | [] => 0
  | b :: bs => hd + b.size + extent bs

/-- Size and owner of the owned block whose data start at `p`. -/
def usedAt : Nat → List (Blk β) → Nat → Option (Nat × β)
  | _, [], _ => none
  | a, b :: bs, p =>
      if p = a + hd then b.owner.map fun r => (b.size, r) else usedAt (a + hd + b.size) bs p

/-- Is `x` a byte of some header? -/
def HeaderByte : Nat → List (Blk β) → Nat → Prop
  | _, [], _ => False
  | a, b :: bs, x => (a ≤ x ∧ x < a + hd) ∨ HeaderByte (a + hd + b.size) bs x

/-- Is `x` a byte of a free block, its header included? -/
def FreeByte : Nat → List (Blk β) → Nat → Prop
  | _, [], _ => False
  | a, b :: bs, x =>
      (b.owner = none ∧ a ≤ x ∧ x < a + hd + b.size) ∨ FreeByte (a + hd + b.size) bs x

/-- No two neighbours are free. -/
def NoFreePair (bs : List (Blk β)) : Prop :=
  bs.IsChain fun b c => ¬ (b.owner = none ∧ c.owner = none)

/-! ## Where the blocks of a row lie -/

variable {hd}

theorem usedAt_ge {bs : List (Blk β)} {a p : Nat} {u : Nat × β}
    (h : usedAt hd a bs p = some u) : a + hd ≤ p := by
  induction bs generalizing a with
  | nil => simp [usedAt] at h
  | cons b bs ih =>
      rw [usedAt] at h
      split at h
      · omega
      · have := ih h
        omega

theorem usedAt_of_lt {bs : List (Blk β)} {a p : Nat} (h : p < a + hd) :
    usedAt hd a bs p = none := by
  cases hu : usedAt hd a bs p with
  | none => rfl
  | some u => exact absurd (usedAt_ge hu) (by omega)

theorem usedAt_le {bs : List (Blk β)} {a p : Nat} {u : Nat × β}
    (h : usedAt hd a bs p = some u) : p + u.1 ≤ a + extent hd bs := by
  induction bs generalizing a with
  | nil => simp [usedAt] at h
  | cons b bs ih =>
      rw [usedAt] at h
      rw [extent]
      split at h
      · obtain ⟨r, _, rfl⟩ := Option.map_eq_some_iff.mp h
        simp only
        omega
      · have := ih h
        omega

/-- Two owned blocks are the same or do not overlap. -/
theorem usedAt_disjoint {bs : List (Blk β)} {a p q : Nat} {u v : Nat × β}
    (hp : usedAt hd a bs p = some u) (hq : usedAt hd a bs q = some v) (hne : p ≠ q) :
    p + u.1 ≤ q ∨ q + v.1 ≤ p := by
  induction bs generalizing a with
  | nil => simp [usedAt] at hp
  | cons b bs ih =>
      rw [usedAt] at hp hq
      split at hp
      · obtain ⟨r, _, rfl⟩ := Option.map_eq_some_iff.mp hp
        rw [if_neg (by omega)] at hq
        have := usedAt_ge hq
        simp only
        omega
      · split at hq
        · obtain ⟨r, _, rfl⟩ := Option.map_eq_some_iff.mp hq
          have := usedAt_ge hp
          simp only
          omega
        · exact ih hp hq

theorem headerByte_ge {bs : List (Blk β)} {a x : Nat} (h : HeaderByte hd a bs x) : a ≤ x := by
  induction bs generalizing a with
  | nil => exact h.elim
  | cons b bs ih =>
      rcases h with hhere | hlater
      · exact hhere.1
      · have := ih hlater
        omega

theorem freeByte_ge {bs : List (Blk β)} {a x : Nat} (h : FreeByte hd a bs x) : a ≤ x := by
  induction bs generalizing a with
  | nil => exact h.elim
  | cons b bs ih =>
      rcases h with hhere | hlater
      · exact hhere.2.1
      · have := ih hlater
        omega

/-- The data of an owned block hold no header. -/
theorem not_headerByte_of_usedAt {bs : List (Blk β)} {a p x : Nat} {u : Nat × β}
    (h : usedAt hd a bs p = some u) (hlow : p ≤ x) (hhigh : x < p + u.1) :
    ¬ HeaderByte hd a bs x := by
  induction bs generalizing a with
  | nil => exact fun hx => hx
  | cons b bs ih =>
      rw [usedAt] at h
      intro hx
      split at h
      · obtain ⟨r, _, rfl⟩ := Option.map_eq_some_iff.mp h
        simp only at hhigh
        rcases hx with hhere | hlater
        · omega
        · have := headerByte_ge hlater
          omega
      · rcases hx with hhere | hlater
        · have := usedAt_ge h
          omega
        · exact ih h hlater

/-- The bytes before the data of an owned block are its header. -/
theorem headerByte_of_usedAt {bs : List (Blk β)} {a p x : Nat} {u : Nat × β}
    (h : usedAt hd a bs p = some u) (hlow : p - hd ≤ x) (hhigh : x < p) :
    HeaderByte hd a bs x := by
  induction bs generalizing a with
  | nil => simp [usedAt] at h
  | cons b bs ih =>
      rw [usedAt] at h
      split at h
      · exact Or.inl (by omega)
      · exact Or.inr (ih h)

/-- The data of an owned block are no part of a free block. -/
theorem not_freeByte_of_usedAt {bs : List (Blk β)} {a p x : Nat} {u : Nat × β}
    (h : usedAt hd a bs p = some u) (hlow : p ≤ x) (hhigh : x < p + u.1) :
    ¬ FreeByte hd a bs x := by
  induction bs generalizing a with
  | nil => exact fun hx => hx
  | cons b bs ih =>
      rw [usedAt] at h
      intro hx
      split at h
      · obtain ⟨r, hr, rfl⟩ := Option.map_eq_some_iff.mp h
        simp only at hhigh
        rcases hx with ⟨hfree, _⟩ | hlater
        · rw [hr] at hfree
          exact absurd hfree (by simp)
        · have := freeByte_ge hlater
          omega
      · rcases hx with hhere | hlater
        · have := usedAt_ge h
          omega
        · exact ih h hlater

/-- The data of a block start at a multiple of `d` from the first header. -/
theorem usedAt_dvd {d : Nat} (hhd : d ∣ hd) {bs : List (Blk β)} (hbs : ∀ b ∈ bs, d ∣ b.size)
    {a p : Nat} {u : Nat × β} (h : usedAt hd a bs p = some u) : d ∣ p - a := by
  induction bs generalizing a with
  | nil => simp [usedAt] at h
  | cons b bs ih =>
      rw [usedAt] at h
      split at h
      · rename_i hp
        rwa [hp, Nat.add_sub_cancel_left]
      · have hrest := ih (fun c hc => hbs c (List.mem_cons_of_mem b hc)) h
        have hge := usedAt_ge h
        have hsplit : p - a = (hd + b.size) + (p - (a + hd + b.size)) := by omega
        rw [hsplit]
        exact Nat.dvd_add (Nat.dvd_add hhd (hbs b List.mem_cons_self)) hrest

/-! ## Merging -/

variable (hd) in
/-- Go along the row from block `b`: absorb the next block while both are free,
else move on to it. -/
def merge : Blk β → List (Blk β) → List (Blk β)
  | b, [] => [b]
  | b, c :: rest =>
      if b.owner = none ∧ c.owner = none then merge ⟨b.size + (hd + c.size), none⟩ rest
      else b :: merge c rest

theorem extent_merge (bs : List (Blk β)) :
    ∀ b, extent hd (merge hd b bs) = extent hd (b :: bs) := by
  induction bs with
  | nil => exact fun _ => rfl
  | cons c rest ih =>
      intro b
      rw [merge]
      split
      · rw [ih]
        simp only [extent]
        omega
      · rw [extent, ih]
        rfl

theorem dvd_merge {d : Nat} (hhd : d ∣ hd) (bs : List (Blk β)) :
    ∀ b, (∀ c ∈ b :: bs, d ∣ c.size) → ∀ c ∈ merge hd b bs, d ∣ c.size := by
  induction bs with
  | nil => exact fun _ h => h
  | cons c rest ih =>
      intro b h
      have hb : d ∣ b.size := h b List.mem_cons_self
      have hc : d ∣ c.size := h c (by simp)
      have hrest : ∀ e ∈ rest, d ∣ e.size := fun e he => h e (by simp [he])
      rw [merge]
      split
      · exact ih _ (List.forall_mem_cons.mpr ⟨Nat.dvd_add hb (Nat.dvd_add hhd hc), hrest⟩)
      · exact List.forall_mem_cons.mpr ⟨hb, ih c (List.forall_mem_cons.mpr ⟨hc, hrest⟩)⟩

/-- The first block of the merged row is free exactly if the first block was. -/
theorem merge_head (bs : List (Blk β)) :
    ∀ b, ∃ c rest, merge hd b bs = c :: rest ∧ c.owner = b.owner := by
  induction bs with
  | nil => exact fun b => ⟨b, [], rfl, rfl⟩
  | cons e rest ih =>
      intro b
      rw [merge]
      split
      · rename_i hfree
        obtain ⟨c, rest', heq, hc⟩ := ih ⟨b.size + (hd + e.size), none⟩
        exact ⟨c, rest', heq, hc.trans hfree.1.symm⟩
      · exact ⟨b, _, rfl, rfl⟩

/-- After merging no two neighbours are free. -/
theorem noFreePair_merge (bs : List (Blk β)) : ∀ b, NoFreePair (merge hd b bs) := by
  induction bs with
  | nil => exact fun b => List.isChain_singleton b
  | cons c rest ih =>
      intro b
      rw [merge]
      split
      · exact ih _
      · rename_i hpair
        obtain ⟨e, rest', heq, he⟩ : ∃ e rest', merge hd c rest = e :: rest' ∧ e.owner = c.owner :=
          merge_head rest c
        have hchain := ih c
        rw [heq] at hchain ⊢
        exact List.isChain_cons_cons.mpr ⟨by rwa [he], hchain⟩

/-- Merging moves no owned block. -/
theorem usedAt_merge (hpos : 0 < hd) (bs : List (Blk β)) :
    ∀ a b, usedAt hd a (merge hd b bs) = usedAt hd a (b :: bs) := by
  induction bs with
  | nil => exact fun _ _ => rfl
  | cons c rest ih =>
      intro a b
      funext p
      rw [merge]
      split
      · rename_i hfree
        rw [ih]
        simp only [usedAt, hfree.1, hfree.2, Option.map_none,
          show a + hd + (b.size + (hd + c.size)) = a + hd + b.size + hd + c.size by omega]
        split
        · rfl
        · split
          · rename_i hp
            exact usedAt_of_lt (by omega)
          · rfl
      · rw [usedAt, ih, ← usedAt]

variable (hd) in
/-- The whole row merged. -/
def coalesce : List (Blk β) → List (Blk β)
  | [] => []
  | b :: bs => merge hd b bs

/-! ## Changing an owner -/

variable (hd) in
/-- The block whose data start at `p` gets the owner `o`, or none. -/
def assign (p : Nat) (o : Option β) : Nat → List (Blk β) → List (Blk β)
  | _, [] => []
  | a, b :: bs =>
      if p = a + hd then ⟨b.size, o⟩ :: bs else b :: assign p o (a + hd + b.size) bs

section Assign

variable {p : Nat} {o : Option β}

theorem extent_assign (bs : List (Blk β)) :
    ∀ a, extent hd (assign hd p o a bs) = extent hd bs := by
  induction bs with
  | nil => exact fun _ => rfl
  | cons b bs ih =>
      intro a
      rw [assign]
      split
      · rfl
      · rw [extent, ih, extent]

theorem length_assign (bs : List (Blk β)) : ∀ a, (assign hd p o a bs).length = bs.length := by
  induction bs with
  | nil => exact fun _ => rfl
  | cons b bs ih =>
      intro a
      rw [assign]
      split
      · rfl
      · rw [List.length_cons, ih, List.length_cons]

theorem dvd_assign {d : Nat} {bs : List (Blk β)} (h : ∀ b ∈ bs, d ∣ b.size) :
    ∀ a, ∀ b ∈ assign hd p o a bs, d ∣ b.size := by
  induction bs with
  | nil => exact fun _ => h
  | cons b bs ih =>
      intro a
      obtain ⟨hb, hbs⟩ := List.forall_mem_cons.mp h
      rw [assign]
      split
      · exact List.forall_mem_cons.mpr ⟨hb, hbs⟩
      · exact List.forall_mem_cons.mpr ⟨hb, ih hbs _⟩

theorem headerByte_assign {x : Nat} (bs : List (Blk β)) :
    ∀ a, HeaderByte hd a (assign hd p o a bs) x ↔ HeaderByte hd a bs x := by
  induction bs with
  | nil => exact fun _ => Iff.rfl
  | cons b bs ih =>
      intro a
      rw [assign]
      split
      · rfl
      · rw [HeaderByte, ih, ← HeaderByte]

theorem usedAt_assign {u : Nat × β} (bs : List (Blk β)) :
    ∀ a, usedAt hd a bs p = some u → usedAt hd a (assign hd p o a bs) =
      Function.update (usedAt hd a bs) p (o.map fun r => (u.1, r)) := by
  induction bs with
  | nil => exact fun a hu => absurd hu (by simp [usedAt])
  | cons b bs ih =>
      intro a hu
      funext q
      rw [assign, Function.update_apply]
      rw [usedAt] at hu
      split
      · rename_i hp
        rw [if_pos hp] at hu
        obtain ⟨r, _, rfl⟩ := Option.map_eq_some_iff.mp hu
        simp only [usedAt, ← hp]
        split <;> rfl
      · rename_i hp
        rw [if_neg hp] at hu
        simp only [usedAt, ih _ hu, Function.update_apply]
        by_cases hq : q = p
        · rw [if_neg (by omega), if_pos hq, if_pos hq]
        · rw [if_neg hq, if_neg hq]

end Assign

/-- An owned block may stand before any row. -/
theorem NoFreePair.cons_owned {bs : List (Blk β)} (h : NoFreePair bs) {b : Blk β}
    (hb : b.owner ≠ none) : NoFreePair (b :: bs) := by
  cases bs with
  | nil => exact List.isChain_singleton b
  | cons c cs => exact List.isChain_cons_cons.mpr ⟨fun hpair => hb hpair.1, h⟩

/-- The block behind `b` may be replaced by one that is free only if it was. -/
theorem NoFreePair.cons_of_head {b c e : Blk β} {cs es : List (Blk β)}
    (h : NoFreePair (b :: c :: cs)) (hes : NoFreePair (e :: es))
    (he : e.owner = none → c.owner = none) : NoFreePair (b :: e :: es) :=
  List.isChain_cons_cons.mpr
    ⟨fun hpair => (List.isChain_cons_cons.mp h).1 ⟨hpair.1, he hpair.2⟩, hes⟩

/-- Passing a block from one owner to another frees nothing. -/
theorem noFreePair_assign_some {p : Nat} (r : β) {bs : List (Blk β)} (h : NoFreePair bs) :
    ∀ a, NoFreePair (assign hd p (some r) a bs) := by
  induction bs with
  | nil => exact fun _ => h
  | cons b bs ih =>
      intro a
      have hbs : NoFreePair bs := List.IsChain.tail h
      rw [assign]
      split
      · exact hbs.cons_owned (by simp)
      · cases bs with
        | nil => exact h
        | cons c cs =>
            have hrest := ih hbs (a + hd + b.size)
            rw [assign] at hrest ⊢
            split at hrest
            · rename_i hp
              rw [if_pos hp]
              exact h.cons_of_head hrest (by simp)
            · rename_i hp
              rw [if_neg hp]
              exact h.cons_of_head hrest id

/-! ## Allocating -/

variable (hd) in
/-- Block `b` is taken for `n` bytes.  If what is left over has room for a
header and `rest` bytes of data, it becomes a free block of its own. -/
def carve (minRest n : Nat) (r : β) (b : Blk β) : List (Blk β) :=
  if n + hd + minRest ≤ b.size then [⟨n, some r⟩, ⟨b.size - n - hd, none⟩] else [⟨b.size, some r⟩]

variable (hd) in
/-- First fit: where the data of the block taken start, and the row after it. -/
def allocate (minRest n : Nat) (r : β) : Nat → List (Blk β) → Option (Nat × List (Blk β))
  | _, [] => none
  | a, b :: bs =>
      if b.owner = none ∧ n ≤ b.size then some (a + hd, carve hd minRest n r b ++ bs)
      else
        match allocate minRest n r (a + hd + b.size) bs with
        | none => none
        | some (p, bs') => some (p, b :: bs')

section Allocate

variable {minRest n : Nat} {r : β}

theorem extent_carve_append {b : Blk β} (bs : List (Blk β)) :
    extent hd (carve hd minRest n r b ++ bs) = extent hd (b :: bs) := by
  unfold carve
  split
  · simp only [List.cons_append, List.nil_append, extent]
    omega
  · rfl

/-- What first fit does, one block at a time: it takes the first block, or goes
on with the others. -/
theorem allocate_cons {a p : Nat} {b : Blk β} {bs bs' : List (Blk β)}
    (h : allocate hd minRest n r a (b :: bs) = some (p, bs')) :
    (b.owner = none ∧ n ≤ b.size ∧ p = a + hd ∧ bs' = carve hd minRest n r b ++ bs) ∨
    (¬ (b.owner = none ∧ n ≤ b.size) ∧ ∃ rest,
      allocate hd minRest n r (a + hd + b.size) bs = some (p, rest) ∧ bs' = b :: rest) := by
  rw [allocate] at h
  split at h
  · rename_i hfit
    obtain ⟨rfl, rfl⟩ := Prod.mk.inj (Option.some.inj h)
    exact Or.inl ⟨hfit.1, hfit.2, rfl, rfl⟩
  · rename_i hskip
    split at h
    · exact absurd h (by simp)
    · rename_i q rest hrest
      obtain ⟨rfl, rfl⟩ := Prod.mk.inj (Option.some.inj h)
      exact Or.inr ⟨hskip, rest, hrest, rfl⟩

theorem extent_allocate {bs bs' : List (Blk β)} {a p : Nat}
    (h : allocate hd minRest n r a bs = some (p, bs')) : extent hd bs' = extent hd bs := by
  induction bs generalizing a bs' with
  | nil => simp [allocate] at h
  | cons b bs ih =>
      rcases allocate_cons h with ⟨_, _, _, rfl⟩ | ⟨_, rest, hrest, rfl⟩
      · exact extent_carve_append bs
      · rw [extent, ih hrest, extent]

theorem dvd_allocate {d : Nat} (hhd : d ∣ hd) (hn : d ∣ n) {bs bs' : List (Blk β)} {a p : Nat}
    (hbs : ∀ b ∈ bs, d ∣ b.size) (h : allocate hd minRest n r a bs = some (p, bs')) :
    ∀ b ∈ bs', d ∣ b.size := by
  induction bs generalizing a bs' with
  | nil => simp [allocate] at h
  | cons b bs ih =>
      obtain ⟨hb, hrest'⟩ := List.forall_mem_cons.mp hbs
      rcases allocate_cons h with ⟨_, _, _, rfl⟩ | ⟨_, rest, hrest, rfl⟩
      · unfold carve
        split
        · simp only [List.cons_append, List.nil_append, List.forall_mem_cons]
          exact ⟨hn, Nat.dvd_sub (Nat.dvd_sub hb hn) hhd, hrest'⟩
        · simp only [List.cons_append, List.nil_append, List.forall_mem_cons]
          exact ⟨hb, hrest'⟩
      · exact List.forall_mem_cons.mpr ⟨hb, ih hrest' hrest⟩

theorem usedAt_carve_append (minRest : Nat) (r : β) (hpos : 0 < hd) (a : Nat) {b : Blk β}
    (bs : List (Blk β)) (hn : n ≤ b.size) :
    ∃ size, n ≤ size ∧ ∀ p, usedAt hd a (carve hd minRest n r b ++ bs) p =
      if p = a + hd then some (size, r) else usedAt hd (a + hd + b.size) bs p := by
  unfold carve
  split
  · refine ⟨n, Nat.le_refl n, fun p => ?_⟩
    simp only [List.cons_append, List.nil_append, usedAt, Option.map_some, Option.map_none,
      show a + hd + n + hd + (b.size - n - hd) = a + hd + b.size by omega]
    split
    · rfl
    · split
      · exact (usedAt_of_lt (by omega)).symm
      · rfl
  · refine ⟨b.size, hn, fun p => ?_⟩
    simp only [List.cons_append, List.nil_append, usedAt, Option.map_some]

/-- An allocation adds one owned block and moves none. -/
theorem usedAt_allocate (hpos : 0 < hd) {bs bs' : List (Blk β)} {a p : Nat}
    (h : allocate hd minRest n r a bs = some (p, bs')) :
    ∃ size, n ≤ size ∧ usedAt hd a bs p = none ∧
      usedAt hd a bs' = Function.update (usedAt hd a bs) p (some (size, r)) := by
  induction bs generalizing a bs' with
  | nil => simp [allocate] at h
  | cons b bs ih =>
      rcases allocate_cons h with ⟨hfree, hn, rfl, rfl⟩ | ⟨_, rest, hrest, rfl⟩
      · obtain ⟨size, hsize, hused⟩ := usedAt_carve_append minRest r hpos a bs hn
        refine ⟨size, hsize, by simp [usedAt, hfree], ?_⟩
        funext q
        rw [hused, Function.update_apply, usedAt]
        split <;> rfl
      · obtain ⟨size, hsize, hnone, hused⟩ := ih hrest
        have hnew : usedAt hd (a + hd + b.size) rest p = some (size, r) := by
          rw [hused, Function.update_self]
        have hge := usedAt_ge hnew
        refine ⟨size, hsize, by rw [usedAt, if_neg (by omega), hnone], ?_⟩
        funext q
        simp only [usedAt, hused, Function.update_apply]
        by_cases hq : q = p
        · rw [if_neg (by omega), if_pos hq, if_pos hq]
        · rw [if_neg hq, if_neg hq]

/-- The block an allocation leaves first is free only if the first one was. -/
theorem allocate_head {a p : Nat} {b : Blk β} {bs bs' : List (Blk β)}
    (h : allocate hd minRest n r a (b :: bs) = some (p, bs')) :
    ∃ c rest, bs' = c :: rest ∧ (c.owner = none → b.owner = none) := by
  rcases allocate_cons h with ⟨hfree, _, _, rfl⟩ | ⟨_, rest, _, rfl⟩
  · unfold carve
    split
    · exact ⟨_, _, rfl, fun _ => hfree⟩
    · exact ⟨_, _, rfl, fun _ => hfree⟩
  · exact ⟨b, rest, rfl, fun hb => hb⟩

theorem noFreePair_allocate {bs bs' : List (Blk β)} {a p : Nat} (hbs : NoFreePair bs)
    (h : allocate hd minRest n r a bs = some (p, bs')) : NoFreePair bs' := by
  induction bs generalizing a bs' with
  | nil => simp [allocate] at h
  | cons b bs ih =>
      rcases allocate_cons h with ⟨hfree, _, _, rfl⟩ | ⟨_, rest, hrest, rfl⟩
      · -- The left-over is followed by what followed the block, which is owned.
        have hafter : ∀ size, NoFreePair ((⟨size, none⟩ : Blk β) :: bs) := by
          intro size
          cases bs with
          | nil => exact List.isChain_singleton _
          | cons c cs =>
              obtain ⟨hbc, hcs⟩ := List.isChain_cons_cons.mp hbs
              exact List.isChain_cons_cons.mpr ⟨fun hpair => hbc ⟨hfree, hpair.2⟩, hcs⟩
        unfold carve
        split
        · exact (hafter _).cons_owned (by simp)
        · exact NoFreePair.cons_owned (List.IsChain.tail hbs) (by simp)
      · cases bs with
        | nil => simp [allocate] at hrest
        | cons c cs =>
            have hchain := ih (List.IsChain.tail hbs) hrest
            obtain ⟨e, es, rfl, he⟩ := allocate_head hrest
            exact NoFreePair.cons_of_head hbs hchain he

end Allocate

end Arena

end FalastinOS.Foundation
