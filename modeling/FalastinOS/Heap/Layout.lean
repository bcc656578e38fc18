/-
  Heap/Layout.lean --- the block list in memory.

  `Links m a bs` says that the headers of the row `bs`, laid out from address
  `a`, stand in memory `m`: each with its size, its free flag, the magic number
  and a `next` that leads to the end of its own data, or 0 at the end of the
  heap.  The owner of a block is the byte count it was requested for.

  `mergeLoop_spec` and `mallocLoop_spec` show that the loops of the code do to
  memory what `Arena.merge` and `Arena.allocate` do to the row, that one unit of
  fuel for each block is enough, and which bytes stay as they were.
-/
import FalastinOS.Foundation.Arena
import FalastinOS.Heap.Malloc

set_option autoImplicit false

namespace FalastinOS.Heap

open FalastinOS.Foundation FalastinOS.Foundation.Arena

/-- The first address after the heap. -/
def heapEnd : Nat := heapStart + heapSize

/-- The `next` of a block that ends at `x`. -/
def follow (x : Nat) : Nat := if x = heapEnd then 0 else x

/-- The header of block `b` stands at address `a`. -/
structure HeaderAt (m : Mem) (a : Nat) (b : Blk Nat) : Prop where
  size : size m a = b.size
  free : isFree m a = if b.owner = none then 1 else 0
  next : next m a = follow (a + headerSize + b.size)
  magic : magic m a = blockMagic

/-- The headers of a row stand in memory from address `a` on. -/
def Links (m : Mem) : Nat → List (Blk Nat) → Prop
  | _, [] => True
  | a, b :: bs => HeaderAt m a b ∧ Links m (a + headerSize + b.size) bs

theorem HeaderAt.congr {m m' : Mem} {a : Nat} {b : Blk Nat} (h : HeaderAt m a b)
    (hsame : ∀ x, a ≤ x → x < a + headerSize → m' x = m x) : HeaderAt m' a b := by
  have hword : ∀ off, off + 4 ≤ headerSize → m'.readLE 4 (a + off) = m.readLE 4 (a + off) :=
    fun off hoff => Mem.readLE_congr fun x hx hx' => hsame x (by omega) (by omega)
  exact ⟨(hword 0 (by decide)).trans h.size, (hword 4 (by decide)).trans h.free,
    (hword 8 (by decide)).trans h.next, (hword 12 (by decide)).trans h.magic⟩

/-- The row depends on its header bytes only. -/
theorem Links.congr {m m' : Mem} {a : Nat} {bs : List (Blk Nat)} (h : Links m a bs)
    (hsame : ∀ x, HeaderByte headerSize a bs x → m' x = m x) : Links m' a bs := by
  induction bs generalizing a with
  | nil => trivial
  | cons b bs ih =>
      exact ⟨h.1.congr fun x hlow hhigh => hsame x (Or.inl ⟨hlow, hhigh⟩),
        ih h.2 fun x hx => hsame x (Or.inr hx)⟩

/-- A change before the row does not matter. -/
theorem Links.congr_before {m m' : Mem} {a c : Nat} {bs : List (Blk Nat)} (h : Links m a bs)
    (hc : c ≤ a) (hsame : ∀ x, c ≤ x → m' x = m x) : Links m' a bs :=
  h.congr fun x hx => hsame x (Nat.le_trans hc (headerByte_ge hx))

/-- The header of an owned block. -/
theorem Links.header_of_usedAt {m : Mem} {a p : Nat} {bs : List (Blk Nat)} {u : Nat × Nat}
    (h : Links m a bs) (hu : usedAt headerSize a bs p = some u) :
    HeaderAt m (p - headerSize) ⟨u.1, some u.2⟩ := by
  induction bs generalizing a with
  | nil => simp [usedAt] at hu
  | cons b bs ih =>
      rw [usedAt] at hu
      split at hu
      · rename_i hp
        obtain ⟨r, hr, rfl⟩ := Option.map_eq_some_iff.mp hu
        rw [hp, Nat.add_sub_cancel, ← hr]
        exact h.1
      · exact ih h.2 hu

/-! ## `merge_free` -/

/-- A merge step changes only the header it stands at. -/
theorem absorb_outside (m : Mem) {a x : Nat} (h : x < a ∨ a + headerSize ≤ x) :
    absorb m a x = m x := by
  have hhd : headerSize = 16 := rfl
  rw [absorb, setNext, Mem.writeLE_of_outside _ (by omega), setSize,
    Mem.writeLE_of_outside _ (by omega)]

/-- A merge step makes the header of the merged block. -/
theorem headerAt_absorb {m : Mem} {a : Nat} {b c : Blk Nat} (hb : HeaderAt m a b)
    (hc : HeaderAt m (a + headerSize + b.size) c) (hfree : b.owner = none)
    (hfit : a + headerSize + (b.size + (headerSize + c.size)) ≤ heapEnd) :
    HeaderAt (absorb m a) a ⟨b.size + (headerSize + c.size), none⟩ := by
  have hlimit : heapEnd = 12582912 := rfl
  have hhd : headerSize = 16 := rfl
  have hnext : next m a = a + headerSize + b.size := by
    rw [hb.next, follow, if_neg (by omega)]
  have hsum : word (size m a + word (headerSize + size m (next m a))) =
      b.size + (headerSize + c.size) := by
    rw [hnext, hb.size, hc.size]
    unfold word
    omega
  -- The second store reads both of its operands after the first one.
  have hnext' : next (setSize m a (b.size + (headerSize + c.size))) a =
      a + headerSize + b.size :=
    (Mem.readLE_writeLE_of_disjoint m (by omega)).trans hnext
  have hafter : next (setSize m a (b.size + (headerSize + c.size))) (a + headerSize + b.size) =
      follow (a + headerSize + (b.size + (headerSize + c.size))) := by
    refine (Mem.readLE_writeLE_of_disjoint m (by omega)).trans (hc.next.trans ?_)
    congr 1
    omega
  have habsorb : absorb m a = setNext (setSize m a (b.size + (headerSize + c.size))) a
      (follow (a + headerSize + (b.size + (headerSize + c.size)))) := by
    rw [absorb, hsum, hnext', hafter]
  have hfollow : follow (a + headerSize + (b.size + (headerSize + c.size))) < 256 ^ 4 := by
    unfold follow
    split <;> omega
  rw [habsorb]
  constructor
  · exact (Mem.readLE_writeLE_of_disjoint _ (by omega)).trans
      (Mem.readLE_writeLE_of_lt m a (by omega))
  · have hflag : isFree m a = 1 := by rw [hb.free, if_pos hfree]
    exact (Mem.readLE_writeLE_of_disjoint _ (by omega)).trans
      ((Mem.readLE_writeLE_of_disjoint _ (by omega)).trans hflag)
  · exact Mem.readLE_writeLE_of_lt _ _ hfollow
  · rw [← hb.magic]
    exact (Mem.readLE_writeLE_of_disjoint _ (by omega)).trans
      (Mem.readLE_writeLE_of_disjoint _ (by omega))

/-- The row after a merge step. -/
theorem links_absorb {m : Mem} {a : Nat} {b c : Blk Nat} {rest : List (Blk Nat)}
    (hlinks : Links m a (b :: c :: rest)) (hfree : b.owner = none)
    (hfit : a + headerSize + (b.size + (headerSize + c.size)) ≤ heapEnd) :
    Links (absorb m a) a (⟨b.size + (headerSize + c.size), none⟩ :: rest) := by
  obtain ⟨hb, hc, hrest⟩ := hlinks
  refine ⟨headerAt_absorb hb hc hfree hfit, ?_⟩
  rw [show a + headerSize + (b.size + (headerSize + c.size)) =
    a + headerSize + b.size + headerSize + c.size by omega]
  exact hrest.congr_before (c := a + headerSize) (by omega)
    fun x hx => absorb_outside m (Or.inr hx)

/-- Merging two blocks makes no new header bytes. -/
theorem headerByte_of_merged {a x : Nat} {b c : Blk Nat} {o : Option Nat}
    {rest : List (Blk Nat)}
    (h : HeaderByte headerSize a (⟨b.size + (headerSize + c.size), o⟩ :: rest) x) :
    HeaderByte headerSize a (b :: c :: rest) x := by
  rcases h with hhere | hrest
  · exact Or.inl hhere
  · refine Or.inr (Or.inr ?_)
    rw [show a + headerSize + b.size + headerSize + c.size =
      a + headerSize + (b.size + (headerSize + c.size)) by omega]
    exact hrest

/-- The loop of `merge_free` over a row that reaches the end of the heap. -/
theorem mergeLoop_spec (bs : List (Blk Nat)) :
    ∀ (b : Blk Nat) (m : Mem) (a : Nat), 0 < a → Links m a (b :: bs) →
      a + extent headerSize (b :: bs) = heapEnd →
      ∃ m', (∀ fuel, bs.length < fuel → mergeLoop fuel m a = some m') ∧
        Links m' a (merge headerSize b bs) ∧
        ∀ x, ¬ HeaderByte headerSize a (b :: bs) x → m' x = m x := by
  have hhd : headerSize = 16 := rfl
  induction bs with
  | nil =>
      intro b m a _ hlinks hend
      have hlast : next m a = 0 := by
        rw [hlinks.1.next, follow, if_pos]
        simpa [extent, Nat.add_assoc] using hend
      refine ⟨m, fun fuel hfuel => ?_, hlinks, fun _ _ => rfl⟩
      obtain ⟨fuel, rfl⟩ := Nat.exists_eq_add_of_lt hfuel
      rw [mergeLoop, if_pos (Or.inr hlast)]
  | cons c rest ih =>
      intro b m a ha hlinks hend
      have hmerged := links_absorb hlinks
      obtain ⟨hb, hc, hrest⟩ := hlinks
      simp only [extent] at hend
      have hnext : next m a = a + headerSize + b.size := by
        rw [hb.next, follow, if_neg (by omega)]
      rw [merge]
      by_cases hfree : b.owner = none ∧ c.owner = none
      · obtain ⟨m', hrun, hlinks', hsame⟩ := ih ⟨b.size + (headerSize + c.size), none⟩
          (absorb m a) a ha (hmerged hfree.1 (by omega)) (by simp only [extent]; omega)
        rw [if_pos hfree]
        refine ⟨m', fun fuel hfuel => ?_, hlinks', fun x hx => ?_⟩
        · obtain ⟨fuel, rfl⟩ := Nat.exists_eq_add_of_lt hfuel
          rw [mergeLoop, if_neg (by omega), hb.free, hnext, hc.free,
            if_pos (by simp [hfree.1, hfree.2])]
          exact hrun _ (by simp only [List.length_cons]; omega)
        · have houtside : x < a ∨ a + headerSize ≤ x := by
            by_contra hinside
            exact hx (Or.inl (by omega))
          rw [hsame x fun hheader => hx (headerByte_of_merged hheader),
            absorb_outside m houtside]
      · have hmove : ¬ ((if b.owner = none then 1 else 0) ≠ 0 ∧
            (if c.owner = none then 1 else 0) ≠ 0) := by
          simpa using hfree
        obtain ⟨m', hrun, hlinks', hsame⟩ := ih c m (a + headerSize + b.size) (by omega)
          ⟨hc, hrest⟩ (by simp only [extent]; omega)
        rw [if_neg hfree]
        refine ⟨m', fun fuel hfuel => ?_,
          ⟨hb.congr fun x _ hx => hsame x fun hheader => ?_, hlinks'⟩,
          fun x hx => hsame x fun hheader => hx (Or.inr hheader)⟩
        · obtain ⟨fuel, rfl⟩ := Nat.exists_eq_add_of_lt hfuel
          rw [mergeLoop, if_neg (by omega), hb.free, hnext, hc.free, if_neg hmove]
          exact hrun _ (by simp only [List.length_cons]; omega)
        · have := headerByte_ge hheader
          omega

/-! ## `malloc` -/

/-- Splitting a block changes only the block's header and the new one. -/
theorem split_outside (m : Mem) {a n x : Nat} (hword : a + headerSize + n < 2 ^ 32)
    (hhere : x < a ∨ a + headerSize ≤ x)
    (hthere : x < a + headerSize + n ∨ a + headerSize + n + headerSize ≤ x) :
    split m a n x = m x := by
  have hhd : headerSize = 16 := rfl
  have hnew : word (a + headerSize + n) = a + headerSize + n := Nat.mod_eq_of_lt hword
  simp only [split, hnew, setSize, setFree, setNext, setMagic]
  rw [Mem.writeLE_of_outside _ (by omega), Mem.writeLE_of_outside _ (by omega),
    Mem.writeLE_of_outside _ (by omega), Mem.writeLE_of_outside _ (by omega),
    Mem.writeLE_of_outside _ (by omega), Mem.writeLE_of_outside _ (by omega)]

/-- Splitting a free block makes two headers. -/
theorem headerAt_split {m : Mem} {a n : Nat} {b : Blk Nat} (r : Nat) (hb : HeaderAt m a b)
    (hroom : n + headerSize ≤ b.size) (hfit : a + headerSize + b.size ≤ heapEnd)
    (hstart : 0 < a) :
    HeaderAt (setFree (split m a n) a 0) a ⟨n, some r⟩ ∧
      HeaderAt (setFree (split m a n) a 0) (a + headerSize + n)
        ⟨b.size - n - headerSize, none⟩ := by
  have hlimit : heapEnd = 12582912 := rfl
  have hhd : headerSize = 16 := rfl
  have hmagic : blockMagic = 3735928559 := rfl
  have hnew : word (a + headerSize + n) = a + headerSize + n :=
    Nat.mod_eq_of_lt (by omega)
  have hleft : word (size m a + (2 ^ 32 - n) + (2 ^ 32 - headerSize)) =
      b.size - n - headerSize := by
    rw [hb.size]
    unfold word
    omega
  have hnext : next m a < 256 ^ 4 := Mem.readLE_lt m 4 _
  constructor
  · constructor
    · simp (disch := omega) only [size, split, hnew, setSize, setFree, setNext, setMagic,
        Mem.readLE_writeLE_of_disjoint, Mem.readLE_writeLE_of_lt]
    · simp (disch := omega) only [isFree, setFree, Mem.readLE_writeLE_of_lt, reduceCtorEq, if_false]
    · simp (disch := omega) only [next, split, hnew, setSize, setFree, setNext, setMagic,
        Mem.readLE_writeLE_of_disjoint, Mem.readLE_writeLE_of_lt]
      rw [follow, if_neg (by omega)]
    · simp (disch := omega) only [magic, split, hnew, setSize, setFree, setNext, setMagic,
        Mem.readLE_writeLE_of_disjoint]
      exact hb.magic
  · constructor
    · rw [← hleft]
      simp (disch := omega) only [size, split, hnew, setSize, setFree, setNext, setMagic,
        Mem.readLE_writeLE_of_disjoint]
      exact Mem.readLE_writeLE_of_lt _ _ (Nat.mod_lt _ (by decide))
    · simp (disch := omega) only [isFree, split, hnew, setSize, setFree, setNext, setMagic,
        Mem.readLE_writeLE_of_disjoint, Mem.readLE_writeLE_of_lt, if_true]
    · simp (disch := omega) only [next, split, hnew, setSize, setFree, setNext, setMagic,
        Mem.readLE_writeLE_of_disjoint]
      rw [show a + headerSize + n + headerSize + (b.size - n - headerSize) =
        a + headerSize + b.size by omega]
      exact (Mem.readLE_writeLE_of_lt _ _ hnext).trans hb.next
    · simp (disch := omega) only [magic, split, hnew, setSize, setFree, setNext, setMagic,
        Mem.readLE_writeLE_of_disjoint, Mem.readLE_writeLE_of_lt]

/-- Taking a free block: the header or the two headers of what it becomes. -/
theorem links_carve {m : Mem} {a n : Nat} {b : Blk Nat} {bs : List (Blk Nat)} (r : Nat)
    (hlinks : Links m a (b :: bs)) (hn : n ≤ b.size) (hstart : 0 < a)
    (hfit : a + headerSize + b.size ≤ heapEnd) :
    Links (setFree (if word (word (n + headerSize) + minSplit) ≤ size m a then split m a n else m)
        a 0) a (carve headerSize minSplit n r b ++ bs) ∧
      ∀ x, x < a ∨ a + headerSize + b.size ≤ x →
        setFree (if word (word (n + headerSize) + minSplit) ≤ size m a then split m a n else m)
          a 0 x = m x := by
  have hlimit : heapEnd = 12582912 := rfl
  have hhd : headerSize = 16 := rfl
  have hmin : minSplit = 32 := rfl
  obtain ⟨hb, hbs⟩ := hlinks
  have hguard : word (word (n + headerSize) + minSplit) = n + headerSize + minSplit := by
    unfold word
    omega
  rw [hguard, hb.size, carve]
  by_cases hroom : n + headerSize + minSplit ≤ b.size
  · rw [if_pos hroom, if_pos hroom]
    obtain ⟨hfirst, hsecond⟩ := headerAt_split (n := n) r hb (by omega) hfit hstart
    have houtside : ∀ x, x < a ∨ a + headerSize + b.size ≤ x →
        setFree (split m a n) a 0 x = m x := by
      intro x hx
      rw [setFree, Mem.writeLE_of_outside _ (by omega)]
      exact split_outside m (by omega) (by omega) (by omega)
    refine ⟨⟨hfirst, hsecond, ?_⟩, houtside⟩
    rw [show a + headerSize + n + headerSize + (b.size - n - headerSize) =
      a + headerSize + b.size by omega]
    exact hbs.congr_before (Nat.le_refl _) fun x hx => houtside x (Or.inr hx)
  · rw [if_neg hroom, if_neg hroom]
    have houtside : ∀ x, x < a ∨ a + headerSize + b.size ≤ x → setFree m a 0 x = m x :=
      fun x hx => Mem.writeLE_of_outside _ (by omega)
    refine ⟨⟨⟨?_, ?_, ?_, ?_⟩, ?_⟩, houtside⟩
    · exact (Mem.readLE_writeLE_of_disjoint m (by omega)).trans hb.size
    · exact Mem.readLE_writeLE_of_lt m _ (by omega)
    · exact (Mem.readLE_writeLE_of_disjoint m (by omega)).trans hb.next
    · exact (Mem.readLE_writeLE_of_disjoint m (by omega)).trans hb.magic
    · exact hbs.congr_before (Nat.le_refl _) fun x hx => houtside x (Or.inr hx)

/-- What the search of `malloc` does to a row: nothing if no block fits, else
what first fit does. -/
def Searched (m : Mem) (a n r : Nat) (bs : List (Blk Nat)) (e : Exit) (m' : Mem) : Prop :=
  match allocate headerSize minSplit n r a bs with
  | none => e = .outOfMemory ∧ m' = m
  | some (p, bs') => e = .found (p - headerSize) ∧ Links m' a bs' ∧
      ∀ x, ¬ FreeByte headerSize a bs x → m' x = m x

/-- The search of `malloc` over a row that reaches the end of the heap. -/
theorem mallocLoop_spec (n r : Nat) (bs : List (Blk Nat)) :
    ∀ (m : Mem) (a : Nat), 0 < a → Links m a bs → a + extent headerSize bs = heapEnd →
      ∃ e m', (∀ fuel, bs.length < fuel → mallocLoop n fuel m (follow a) = some (e, m')) ∧
        Searched m a n r bs e m' := by
  have hhd : headerSize = 16 := rfl
  induction bs with
  | nil =>
      intro m a _ _ hend
      refine ⟨.outOfMemory, m, fun fuel hfuel => ?_, rfl, rfl⟩
      obtain ⟨fuel, rfl⟩ := Nat.exists_eq_add_of_lt hfuel
      rw [follow, if_pos (by simpa [extent] using hend), mallocLoop, if_pos rfl]
  | cons b bs ih =>
      intro m a ha hlinks hend
      simp only [extent] at hend
      obtain ⟨hb, hbs⟩ := hlinks
      unfold Searched
      rw [allocate]
      by_cases htake : b.owner = none ∧ n ≤ b.size
      · obtain ⟨hcarved, houtside⟩ := links_carve r ⟨hb, hbs⟩ htake.2 ha (by omega)
        rw [if_pos htake]
        refine ⟨.found a, _, fun fuel hfuel => ?_, by simp, hcarved, fun x hx => houtside x ?_⟩
        · obtain ⟨fuel, rfl⟩ := Nat.exists_eq_add_of_lt hfuel
          rw [follow, if_neg (by omega), mallocLoop, if_neg (by omega),
            if_neg (by simp [hb.magic]), if_pos (by simp [hb.free, htake.1, hb.size, htake.2])]
        · simp only [FreeByte, not_or, not_and] at hx
          have := hx.1 htake.1
          omega
      · have hskip : ¬ (isFree m a ≠ 0 ∧ n ≤ size m a) := by
          rw [hb.size, hb.free]
          simpa using htake
        obtain ⟨e, m', hrun, hdone⟩ := ih m (a + headerSize + b.size) (by omega) hbs (by omega)
        rw [if_neg htake]
        refine ⟨e, m', fun fuel hfuel => ?_, ?_⟩
        · obtain ⟨fuel, rfl⟩ := Nat.exists_eq_add_of_lt hfuel
          rw [follow, if_neg (by omega), mallocLoop, if_neg (by omega),
            if_neg (by simp [hb.magic]), if_neg hskip, hb.next]
          exact hrun _ (by simp only [List.length_cons]; omega)
        · unfold Searched at hdone
          cases halloc : allocate headerSize minSplit n r (a + headerSize + b.size) bs with
          | none => simpa [halloc] using hdone
          | some found =>
              obtain ⟨p, bs'⟩ := found
              simp only [halloc] at hdone ⊢
              obtain ⟨he, hlinks', hsame⟩ := hdone
              refine ⟨he, ⟨hb.congr fun x hlow hhigh => hsame x fun hfree => ?_, hlinks'⟩,
                fun x hx => hsame x fun hfree => hx (Or.inr hfree)⟩
              have := freeByte_ge hfree
              omega

/-! ## `free` -/

/-- Setting the free flag of an owned block gives it up. -/
theorem links_release {m : Mem} {p : Nat} {u : Nat × Nat} (bs : List (Blk Nat)) :
    ∀ a, Links m a bs → usedAt headerSize a bs p = some u →
      Links (setFree m (p - headerSize) 1) a (assign headerSize p none a bs) := by
  have hhd : headerSize = 16 := rfl
  induction bs with
  | nil => exact fun _ _ hu => absurd hu (by simp [usedAt])
  | cons b bs ih =>
      intro a hlinks hu
      rw [usedAt] at hu
      rw [assign]
      split at hu
      · rename_i hp
        rw [if_pos hp, hp, Nat.add_sub_cancel]
        refine ⟨⟨?_, ?_, ?_, ?_⟩, ?_⟩
        · exact (Mem.readLE_writeLE_of_disjoint m (by omega)).trans hlinks.1.size
        · exact Mem.readLE_writeLE_of_lt m _ (by omega)
        · exact (Mem.readLE_writeLE_of_disjoint m (by omega)).trans hlinks.1.next
        · exact (Mem.readLE_writeLE_of_disjoint m (by omega)).trans hlinks.1.magic
        · exact hlinks.2.congr_before (Nat.le_refl _) fun x hx =>
            Mem.writeLE_of_outside m (by omega)
      · rename_i hp
        rw [if_neg hp]
        have hge := usedAt_ge hu
        refine ⟨hlinks.1.congr fun x hlow hhigh => Mem.writeLE_of_outside m (by omega), ?_⟩
        exact ih _ hlinks.2 hu

/-- The header of an owned block does not say who owns it. -/
theorem links_relabel {m : Mem} {p : Nat} {u : Nat × Nat} (r : Nat) (bs : List (Blk Nat)) :
    ∀ a, Links m a bs → usedAt headerSize a bs p = some u →
      Links m a (assign headerSize p (some r) a bs) := by
  induction bs with
  | nil => exact fun _ _ hu => absurd hu (by simp [usedAt])
  | cons b bs ih =>
      intro a hlinks hu
      rw [usedAt] at hu
      rw [assign]
      split at hu
      · rename_i hp
        obtain ⟨r', hr', _⟩ := Option.map_eq_some_iff.mp hu
        have hfree := hlinks.1.free
        rw [hr', if_neg (by simp)] at hfree
        rw [if_pos hp]
        exact ⟨⟨hlinks.1.size, hfree.trans (by simp), hlinks.1.next, hlinks.1.magic⟩, hlinks.2⟩
      · rename_i hp
        rw [if_neg hp]
        exact ⟨hlinks.1, ih _ hlinks.2 hu⟩

end FalastinOS.Heap
