/-
  Foundation/Placement.lean --- a row of blocks as it lies in memory.

  `placed hd a bs` lists the blocks of a row laid out from address `a`: where the
  header of each stands, how many bytes of data follow it, and whether it is free.
  Who owns a block is not part of it.

  A row in which no two neighbours are free is a normal form: `placed_unique` says
  that its list is determined by its extent and by the addresses and sizes of the
  owned blocks.  `allocate_eq_none_iff` and `placed_allocate` are first fit as the
  list shows it, and `covered_merge` says that merging keeps what is free free.
-/
import FalastinOS.Foundation.Arena

set_option autoImplicit false

namespace FalastinOS.Foundation

/-- A block in memory. -/
structure Place where
  /-- the address of the header -/
  addr : Nat
  /-- the bytes of data behind it -/
  size : Nat
  isFree : Bool
  deriving DecidableEq, Repr

namespace Arena

variable {β : Type} (hd : Nat)

/-- The blocks of a row that starts at an address. -/
def placed : Nat → List (Blk β) → List Place
  | _, [] => []
  | a, b :: bs => ⟨a, b.size, b.owner.isNone⟩ :: placed (a + hd + b.size) bs

/-- The bytes of data in the free blocks of a list. -/
def freeTotal (blocks : List Place) : Nat := ((blocks.filter Place.isFree).map Place.size).sum

variable {hd}

theorem placed_ge {bs : List (Blk β)} {a : Nat} {c : Place} (h : c ∈ placed hd a bs) :
    a ≤ c.addr := by
  induction bs generalizing a with
  | nil => simp [placed] at h
  | cons b bs ih =>
      rcases List.mem_cons.mp h with rfl | hlater
      · exact Nat.le_refl a
      · have := ih hlater
        omega

theorem placed_le {bs : List (Blk β)} {a : Nat} {c : Place} (h : c ∈ placed hd a bs) :
    c.addr + hd + c.size ≤ a + extent hd bs := by
  induction bs generalizing a with
  | nil => simp [placed] at h
  | cons b bs ih =>
      rw [extent]
      rcases List.mem_cons.mp h with rfl | hlater
      · simp only
        omega
      · have := ih hlater
        omega

/-- The list goes up in memory, and each block ends before the next one starts. -/
theorem placed_pairwise (bs : List (Blk β)) :
    ∀ a, (placed hd a bs).Pairwise fun c d => c.addr + hd + c.size ≤ d.addr := by
  induction bs with
  | nil => exact fun _ => List.Pairwise.nil
  | cons b bs ih => exact fun a => List.pairwise_cons.mpr ⟨fun c hc => placed_ge hc, ih _⟩

/-- An owned block of a row in its list. -/
theorem mem_placed_of_usedAt {bs : List (Blk β)} {a p : Nat} {u : Nat × β}
    (h : usedAt hd a bs p = some u) : (⟨p - hd, u.1, false⟩ : Place) ∈ placed hd a bs := by
  induction bs generalizing a with
  | nil => simp [usedAt] at h
  | cons b bs ih =>
      rw [usedAt] at h
      rw [placed]
      split at h
      · rename_i hp
        obtain ⟨r, hr, rfl⟩ := Option.map_eq_some_iff.mp h
        rw [hp, Nat.add_sub_cancel, hr]
        exact List.mem_cons_self
      · exact List.mem_cons_of_mem _ (ih h)

/-! ## The normal form -/

/-- Who owns the blocks apart, `usedAt` of the row behind the first block. -/
theorem sizes_tail {b c : Blk β} {bs cs : List (Blk β)} {a : Nat} (hsize : b.size = c.size)
    (h : ∀ p, (usedAt hd a (b :: bs) p).map Prod.fst = (usedAt hd a (c :: cs) p).map Prod.fst)
    (hpos : 0 < hd) (p : Nat) :
    (usedAt hd (a + hd + b.size) bs p).map Prod.fst =
      (usedAt hd (a + hd + c.size) cs p).map Prod.fst := by
  by_cases hp : p = a + hd
  · rw [usedAt_of_lt (by omega), usedAt_of_lt (by omega)]
  · have hrest := h p
    rwa [usedAt, usedAt, if_neg hp, if_neg hp] at hrest

/-- A free first block is at least as long as the first block of a row with the same
owned blocks: behind a shorter one there would be an owned block. -/
theorem free_head_le {b c : Blk β} {bs cs : List (Blk β)} {a : Nat} (hpos : 0 < hd)
    (hb : b.owner = none) (hbs : NoFreePair (b :: bs))
    (hextent : extent hd (b :: bs) = extent hd (c :: cs))
    (h : ∀ p, (usedAt hd a (b :: bs) p).map Prod.fst = (usedAt hd a (c :: cs) p).map Prod.fst) :
    c.size ≤ b.size := by
  by_contra hshort
  cases bs with
  | nil =>
      simp only [extent] at hextent
      omega
  | cons e es =>
      have howner : e.owner ≠ none := fun he => (List.isChain_cons_cons.mp hbs).1 ⟨hb, he⟩
      obtain ⟨r, hr⟩ := Option.ne_none_iff_exists'.mp howner
      have hused := h (a + hd + b.size + hd)
      rw [usedAt, if_neg (by omega), usedAt, if_pos rfl, hr, usedAt, if_neg (by omega),
        usedAt_of_lt (by omega)] at hused
      exact absurd hused (by simp)

/-- Extent and owned blocks determine where the blocks of a merged row lie. -/
theorem placed_unique (hpos : 0 < hd) {bs : List (Blk β)} :
    ∀ {cs : List (Blk β)} {a : Nat}, NoFreePair bs → NoFreePair cs →
      extent hd bs = extent hd cs →
      (∀ p, (usedAt hd a bs p).map Prod.fst = (usedAt hd a cs p).map Prod.fst) →
      placed hd a bs = placed hd a cs := by
  induction bs with
  | nil =>
      intro cs a _ _ hextent _
      cases cs with
      | nil => rfl
      | cons c cs =>
          simp only [extent] at hextent
          omega
  | cons b bs ih =>
      intro cs a hbs hcs hextent h
      cases cs with
      | nil =>
          simp only [extent] at hextent
          omega
      | cons c cs =>
          have hhead := h (a + hd)
          simp only [usedAt, if_true, Option.map_map, Function.comp_def] at hhead
          -- The first blocks agree on whether they are free, and then on their size.
          have hfirst : b.size = c.size ∧ b.owner.isNone = c.owner.isNone := by
            cases hb : b.owner with
            | none =>
                cases hc : c.owner with
                | none =>
                    exact ⟨Nat.le_antisymm
                      (free_head_le hpos hc hcs hextent.symm fun p => (h p).symm)
                      (free_head_le hpos hb hbs hextent h), rfl⟩
                | some r =>
                    rw [hb, hc] at hhead
                    exact absurd hhead (by simp)
            | some r =>
                cases hc : c.owner with
                | none =>
                    rw [hb, hc] at hhead
                    exact absurd hhead (by simp)
                | some r' =>
                    rw [hb, hc] at hhead
                    exact ⟨Option.some.inj hhead, rfl⟩
          have hextents : extent hd bs = extent hd cs := by
            simp only [extent] at hextent
            omega
          have htails := sizes_tail hfirst.1 h hpos
          rw [← hfirst.1] at htails
          have hcs' : NoFreePair cs := List.IsChain.tail hcs
          have hrest := ih (List.IsChain.tail hbs) hcs' hextents htails
          rw [placed, placed, hrest, hfirst.1, hfirst.2]

/-! ## First fit -/

section Allocate

variable {minRest n : Nat} {r : β}

/-- Nothing is allocated exactly if no free block is large enough. -/
theorem allocate_eq_none_iff (bs : List (Blk β)) :
    ∀ a, allocate hd minRest n r a bs = none ↔
      ∀ c ∈ placed hd a bs, c.isFree = true → c.size < n := by
  induction bs with
  | nil => simp [allocate, placed]
  | cons b bs ih =>
      intro a
      rw [allocate, placed, List.forall_mem_cons, ← ih (a + hd + b.size), Option.isNone_iff_eq_none]
      split
      · rename_i hfit
        simp only [reduceCtorEq, false_iff, not_and]
        intro hsmall
        exact absurd (hsmall hfit.1) (by omega)
      · rename_i hskip
        have hsmall : b.owner = none → b.size < n := fun hfree => by
          by_contra hlarge
          exact hskip ⟨hfree, by omega⟩
        split
        · rename_i hnone
          simp only [hnone, and_true, true_iff]
          exact hsmall
        · rename_i p rest hsome
          simp [hsome]

variable (hd) in
/-- What becomes of a free block that is taken for `n` bytes. -/
def carvedPlace (minRest n : Nat) (b : Place) : List Place :=
  if n + hd + minRest ≤ b.size then
    [⟨b.addr, n, false⟩, ⟨b.addr + hd + n, b.size - n - hd, true⟩]
  else [⟨b.addr, b.size, false⟩]

theorem placed_carve_append {b : Blk β} (bs : List (Blk β)) (a : Nat) :
    placed hd a (carve hd minRest n r b ++ bs) =
      carvedPlace hd minRest n ⟨a, b.size, true⟩ ++ placed hd (a + hd + b.size) bs := by
  unfold carve carvedPlace
  split
  · rename_i hsplit
    have hend : a + hd + n + hd + (b.size - n - hd) = a + hd + b.size := by omega
    simp only [List.cons_append, List.nil_append, placed, hend, Option.isNone_some,
      Option.isNone_none]
  · simp only [List.cons_append, List.nil_append, placed, Option.isNone_some]

/-- The first free block that is large enough is taken, and the others stay. -/
theorem placed_allocate {bs bs' : List (Blk β)} {a p : Nat}
    (h : allocate hd minRest n r a bs = some (p, bs')) :
    ∃ before b after, placed hd a bs = before ++ b :: after ∧ b.isFree = true ∧ n ≤ b.size ∧
      p = b.addr + hd ∧ (∀ c ∈ before, c.isFree = true → c.size < n) ∧
      placed hd a bs' = before ++ (carvedPlace hd minRest n b ++ after) := by
  induction bs generalizing a bs' with
  | nil => simp [allocate] at h
  | cons b bs ih =>
      rcases allocate_cons h with ⟨hfree, hn, rfl, rfl⟩ | ⟨hskip, rest, hrest, rfl⟩
      · refine ⟨[], ⟨a, b.size, true⟩, placed hd (a + hd + b.size) bs, ?_, rfl, hn, rfl, by simp,
          placed_carve_append bs a⟩
        rw [placed, hfree]
        rfl
      · obtain ⟨before, c, after, hplaced, hc, hsize, hp, hbefore, hafter⟩ := ih hrest
        refine ⟨⟨a, b.size, b.owner.isNone⟩ :: before, c, after, by rw [placed, hplaced]; rfl, hc,
          hsize, hp, List.forall_mem_cons.mpr ⟨fun hb => ?_, hbefore⟩, by rw [placed, hafter]; rfl⟩
        by_contra hlarge
        exact hskip ⟨Option.isNone_iff_eq_none.mp hb, Nat.not_lt.mp hlarge⟩

end Allocate

/-- The free bytes of a list that is put together from two. -/
theorem freeTotal_append (l l' : List Place) :
    freeTotal (l ++ l') = freeTotal l + freeTotal l' := by
  simp only [freeTotal, List.filter_append, List.map_append, List.sum_append]

theorem freeTotal_cons (b : Place) (l : List Place) :
    freeTotal (b :: l) = (if b.isFree = true then b.size else 0) + freeTotal l := by
  simp only [freeTotal, List.filter_cons]
  split
  · rw [List.map_cons, List.sum_cons]
  · rw [Nat.zero_add]

/-! ## Giving a block up -/

/-- A block that changes its owner stays where it is. -/
theorem mem_placed_assign {p : Nat} {o : Option β} {u : Nat × β} {bs : List (Blk β)} :
    ∀ {a : Nat}, usedAt hd a bs p = some u →
      (⟨p - hd, u.1, o.isNone⟩ : Place) ∈ placed hd a (assign hd p o a bs) := by
  induction bs with
  | nil => exact fun hu => absurd hu (by simp [usedAt])
  | cons b bs ih =>
      intro a hu
      rw [usedAt] at hu
      rw [assign]
      split at hu
      · rename_i hp
        obtain ⟨r, _, rfl⟩ := Option.map_eq_some_iff.mp hu
        rw [if_pos hp, placed, hp, Nat.add_sub_cancel]
        exact List.mem_cons_self
      · rename_i hp
        rw [if_neg hp, placed]
        exact List.mem_cons_of_mem _ (ih hu)

/-- The block `c` lies in the free block `d`. -/
def Covers (hd : Nat) (d c : Place) : Prop :=
  d.isFree = true ∧ d.addr ≤ c.addr ∧ c.addr + hd + c.size ≤ d.addr + hd + d.size

/-- A free block is part of a free block after merging. -/
theorem covered_merge (bs : List (Blk β)) :
    ∀ (a : Nat) (b : Blk β) (c : Place), c ∈ placed hd a (b :: bs) → c.isFree = true →
      ∃ d ∈ placed hd a (merge hd b bs), Covers hd d c := by
  induction bs with
  | nil =>
      intro a b c hc hfree
      exact ⟨c, hc, hfree, Nat.le_refl _, Nat.le_refl _⟩
  | cons e rest ih =>
      intro a b c hc hfree
      rw [merge]
      split
      · rename_i hpair
        -- The two first blocks are one block now; the rest of the row is the same.
        have hrest : placed hd (a + hd + (b.size + (hd + e.size))) rest =
            placed hd (a + hd + b.size + hd + e.size) rest := by
          congr 1
          omega
        have hhere : (⟨a, b.size + (hd + e.size), true⟩ : Place) ∈
            placed hd a (⟨b.size + (hd + e.size), none⟩ :: rest) := by
          rw [placed]
          exact List.mem_cons_self
        obtain ⟨d, hd', hcov⟩ := ih a _ _ hhere rfl
        rw [placed, placed] at hc
        rcases List.mem_cons.mp hc with rfl | hc
        · exact ⟨d, hd', hcov.1, hcov.2.1, by have := hcov.2.2; simp only at this ⊢; omega⟩
        · rcases List.mem_cons.mp hc with rfl | hc
          · obtain ⟨hfree', hlow, hhigh⟩ := hcov
            exact ⟨d, hd', hfree', by simp only at hlow ⊢; omega,
              by simp only at hhigh ⊢; omega⟩
          · refine ih a _ c ?_ hfree
            rw [placed, hrest]
            exact List.mem_cons_of_mem _ hc
      · rw [placed] at hc
        rcases List.mem_cons.mp hc with rfl | hc
        · exact ⟨_, by rw [placed]; exact List.mem_cons_self, hfree, Nat.le_refl _, Nat.le_refl _⟩
        · obtain ⟨d, hd', hcov⟩ := ih _ _ c hc hfree
          exact ⟨d, by rw [placed]; exact List.mem_cons_of_mem _ hd', hcov⟩

end Arena

end FalastinOS.Foundation
