/-
  Heap/Sizes.lean --- sizes that wrap around.

  `malloc` adds 7 to the size before it clears the low bits, and `calloc`
  multiplies, both modulo 2^32 and without a check.  A size above 0xFFFFFFF8 is
  rounded to 0, which every free block has; a product of 2^32 or more is cut to
  its low 32 bits.

  `sizes_honoured_iff` and `calloc_product_iff` say exactly when `malloc`,
  `realloc` and `calloc` give what was asked for.
-/
import FalastinOS.Heap.FirstFit

set_option autoImplicit false

namespace FalastinOS.Heap

open FalastinOS.Foundation FalastinOS.Foundation.Arena FalastinOS.Libc

/-- `(size + 7) & ~7` for a size that wraps around. -/
theorem roundUp_of_wrap {n : Nat} (hlow : 0xFFFFFFF8 < n) (hhigh : n < 2 ^ 32) : roundUp n = 0 := by
  unfold roundUp word
  omega

/-- No block of the heap is free with `n` bytes or more. -/
def NoRoom (h : HeapState) (n : Nat) : Prop :=
  ∃ l, HasBlocks h l ∧ ∀ c ∈ l, c.isFree = true → c.size < n

theorem Rep.noRoom_iff {h : HeapState} {bs : List (Blk Nat)} (hrep : Rep h bs) (n : Nat) :
    NoRoom h (roundUp n) ↔ allocated n bs = none := by
  rw [allocated_eq_none_iff]
  constructor
  · rintro ⟨l, hl, hnone⟩
    rw [hl.unique hrep.hasBlocks] at hnone
    exact hnone
  · exact fun hnone => ⟨_, hrep.hasBlocks, hnone⟩

/-- No block of the heap is free. -/
def AllInUse (h : HeapState) : Prop := ∃ l, HasBlocks h l ∧ ∀ c ∈ l, c.isFree = false

/-- A wrapped size is refused only when no block is free. -/
theorem Rep.allInUse_iff {h : HeapState} {bs : List (Blk Nat)} (hrep : Rep h bs) {n : Nat}
    (hlow : 0xFFFFFFF8 < n) (hhigh : n < 2 ^ 32) : AllInUse h ↔ allocated n bs = none := by
  rw [allocated_eq_none_iff, roundUp_of_wrap hlow hhigh]
  constructor
  · rintro ⟨l, hl, hnone⟩ c hc hfree
    rw [← hl.unique hrep.hasBlocks] at hc
    exact absurd ((hnone c hc).symm.trans hfree) (by simp)
  · intro hnone
    exact ⟨_, hrep.hasBlocks, fun c hc => Bool.eq_false_iff.mpr fun hfree =>
      absurd (hnone c hc hfree) (Nat.not_lt_zero _)⟩

/-- A region is part of the heap, so it is smaller than a size that wraps around. -/
theorem Rep.regionSize_allocated {h : HeapState} {bs bs' : List (Blk Nat)} (hrep : Rep h bs)
    {n p : Nat} (halloc : allocated n bs = some (p, bs')) {m : Mem}
    (hlinks : Links m heapStart bs') :
    p ≠ 0 ∧ headerSize ≤ p ∧ regionSize m p ≤ heapSize := by
  obtain ⟨size, hp, hlow, hhigh⟩ := hrep.allocated_bounds halloc
  have hhd : headerSize = 16 := rfl
  have hlimit : heapEnd = heapStart + heapSize := rfl
  have hsize : regionSize m p = size := (hlinks.header_of_usedAt hp).size
  omega

/-! ## `malloc` and `realloc` -/

/-- What a caller of `malloc(n)` and `realloc(p, n)` relies on: 0, or a region of at
least `n` bytes, and nothing is written outside of it. -/
structure Honours (s : Session) (n : Nat) : Prop where
  malloc : ∃ r, Returns s.heap (.malloc n) r ∧ (r.ptr = 0 ∨ n ≤ regionSize r.heap.mem r.ptr)
  realloc : ∀ p, s.live p ≠ none → ∃ r, Returns s.heap (.realloc p n) r ∧
    (r.ptr = 0 ∨ (n ≤ regionSize r.heap.mem r.ptr ∧ (r.heap = s.heap ∨ ∃ l, Moved s p n r l)))

theorem Describes.honours {s : Session} {bs : List (Blk Nat)} (h : Describes bs s) {n : Nat}
    (hnz : n ≠ 0) (hn : n ≤ 0xFFFFFFF8) : Honours s n := by
  constructor
  · rcases h.malloc_cases hn with hnone | ⟨p, size, bs', m, hrun, hsize, _, howned, hafter, _⟩
    · exact ⟨_, ⟨_, hnone⟩, .inl rfl⟩
    · have hp : owned bs' p = some (size, n) := by rw [howned, Function.update_self]
      refine ⟨_, ⟨_, hrun⟩, .inr ?_⟩
      rw [hafter.regionSize_eq hp]
      exact hsize
  · intro p hp
    obtain ⟨u, hu⟩ := h.owned_of_live hp
    obtain ⟨r, hr, hresult⟩ := h.realloc_result hu hnz hn
    refine ⟨r, hr, ?_⟩
    rcases hresult with ⟨hfits, hptr, hheap⟩ | ⟨_, hptr, _⟩ | ⟨_, _, l, hmoved⟩
    · exact .inr ⟨by rwa [hptr, hheap], .inl hheap⟩
    · exact .inl hptr
    · exact .inr ⟨hmoved.enough, .inr ⟨l, hmoved⟩⟩

/-- When nothing fits, both functions return 0. -/
theorem Describes.honours_of_none {s : Session} {bs : List (Blk Nat)} (h : Describes bs s)
    {n : Nat} (hlow : 0xFFFFFFF8 < n) (hnone : allocated n bs = none) : Honours s n := by
  have hsearch := malloc_search h.rep (show n ≠ 0 by omega)
  rw [hnone] at hsearch
  refine ⟨⟨_, ⟨_, hsearch⟩, .inl rfl⟩, fun p hp => ?_⟩
  obtain ⟨u, hu⟩ := h.owned_of_live hp
  have hbounds := h.rep.owned_bounds hu
  have hlimit : heapEnd = 12582912 := rfl
  have hsize : size s.heap.mem (p - headerSize) = u.1 := h.regionSize_eq hu
  refine ⟨⟨0, false, s.heap⟩, ⟨bs.length, fun fuel hfuel => ?_⟩, .inl rfl⟩
  simp only [Call.exec, realloc, if_neg (h.ne_zero hu), if_neg (show n ≠ 0 by omega),
    h.rep.word_header hu, if_neg (show ¬ n ≤ size s.heap.mem (p - headerSize) by omega),
    hsearch fuel hfuel, if_true]

/-- `malloc` and `realloc` honour a size exactly if it does not wrap around, or no block
is free. -/
theorem sizes_honoured_iff {s : Session} (h : Reachable s) {n : Nat} (hpos : 1 ≤ n)
    (hword : n < 2 ^ 32) : Honours s n ↔ n ≤ 0xFFFFFFF8 ∨ AllInUse s.heap := by
  obtain ⟨bs, hbs⟩ := describes_of_reachable h
  constructor
  · rintro ⟨⟨r, hr, hresult⟩, _⟩
    by_contra hbad
    obtain ⟨hlow, hfree⟩ := not_or.mp hbad
    have hwrap : 0xFFFFFFF8 < n := by omega
    rw [hbs.rep.allInUse_iff hwrap hword] at hfree
    obtain ⟨⟨p, bs'⟩, halloc⟩ := Option.ne_none_iff_exists'.mp hfree
    have hsearch := malloc_search hbs.rep (show n ≠ 0 by omega)
    rw [halloc] at hsearch
    obtain ⟨m, hrun, hlinks, _⟩ := hsearch
    obtain rfl := hr.unique ⟨_, hrun⟩
    obtain ⟨hpz, _, hregion⟩ := hbs.rep.regionSize_allocated halloc hlinks
    have hsize : heapSize = 4194304 := rfl
    rcases hresult with hz | hle
    · exact hpz hz
    · simp only at hle
      omega
  · rintro (hn | hnone)
    · exact hbs.honours (by omega) hn
    · by_cases hn : n ≤ 0xFFFFFFF8
      · exact hbs.honours (by omega) hn
      · have hwrap : 0xFFFFFFF8 < n := by omega
        exact hbs.honours_of_none hwrap ((hbs.rep.allInUse_iff hwrap hword).mp hnone)

theorem sizes_honoured_firstSession : Honours firstSession 0xFFFFFFF8 :=
  (sizes_honoured_iff reachable_firstSession (by decide) (by decide)).mpr
    (.inl (Nat.le_refl 0xFFFFFFF8))

/-- The session right after `heap_init`. -/
def freshSession : Session := ⟨heapInit blankHeap, fun _ => none⟩

/-- What `malloc(0xFFFFFFFF)` returns there: the block is split after 0 bytes. -/
def wrappedReply : Reply :=
  ⟨heapStart + headerSize, false,
    ⟨setFree (split (heapInit blankHeap).mem heapStart 0) heapStart 0, heapStart, true⟩⟩

theorem returns_wrappedReply : Returns freshSession.heap (.malloc 0xFFFFFFFF) wrappedReply := by
  refine ⟨0, fun fuel hfuel => ?_⟩
  obtain ⟨k, rfl⟩ := Nat.exists_eq_add_of_lt hfuel
  rfl

theorem malloc_wraps_around :
    Reachable freshSession ∧ regionSize wrappedReply.heap.mem wrappedReply.ptr = 0 ∧
      ¬ Honours freshSession 0xFFFFFFFF := by
  have hregion : regionSize wrappedReply.heap.mem wrappedReply.ptr = 0 := by decide +kernel
  refine ⟨.init blankHeap, hregion, ?_⟩
  rintro ⟨⟨r, hr, hresult⟩, _⟩
  obtain rfl := hr.unique returns_wrappedReply
  rw [hregion] at hresult
  rcases hresult with hz | hle
  · exact absurd hz (by decide)
  · exact absurd hle (by decide)

/-! ## `calloc` -/

/-- What a caller of `calloc(count, n)` relies on: 0, or a region that holds `count`
times `n` bytes, all of them 0. -/
def CallocHonours (s : Session) (count n : Nat) : Prop :=
  ∃ r, Returns s.heap (.calloc count n) r ∧
    (r.ptr = 0 ∨ (count * n ≤ regionSize r.heap.mem r.ptr ∧
      ∀ x, r.ptr ≤ x → x < r.ptr + count * n → r.heap.mem x = 0))

/-- A product that does not wrap around is honoured. -/
theorem Describes.callocHonours {s : Session} {bs : List (Blk Nat)} (h : Describes bs s)
    {count n : Nat} (hn : count * n ≤ 0xFFFFFFF8) : CallocHonours s count n := by
  obtain ⟨r, hr⟩ := h.outcome_calloc hn
  refine ⟨r, hr.returns, ?_⟩
  by_cases hz : r.ptr = 0
  · exact .inl hz
  · obtain ⟨bs', hbs'⟩ := hr.after
    have hlive : (Call.settle s.live r.ptr (.calloc count n)) r.ptr = some (count * n) := by
      simp only [Call.settle, Heap.gain, if_neg hz, Function.update_self]
    exact .inr ⟨hbs'.isolated.enough r.ptr _ hlive, hr.frame.zeroed count n rfl hz⟩

/-- `calloc` returns 0 when `malloc` does. -/
theorem callocHonours_of_zero {s : Session} {count n : Nat}
    (h : Returns s.heap (.malloc (word (count * n))) ⟨0, false, s.heap⟩) :
    CallocHonours s count n := by
  obtain ⟨k, hk⟩ := h
  refine ⟨⟨0, false, s.heap⟩, ⟨k, fun fuel hfuel => ?_⟩, .inl rfl⟩
  have hmalloc : malloc fuel s.heap (word (count * n)) = some ⟨0, false, s.heap⟩ := hk fuel hfuel
  simp only [Call.exec, calloc, hmalloc, if_true]

theorem callocHonours_of_word_eq_zero {s : Session} {count n : Nat}
    (h : word (count * n) = 0) : CallocHonours s count n := by
  refine callocHonours_of_zero ⟨0, fun fuel _ => ?_⟩
  simp only [Call.exec, malloc, h, or_true, if_true]

/-- When `malloc` finds a block for the low bits of a product that wraps around, the block
is too small for the product. -/
theorem Describes.not_callocHonours {s : Session} {bs bs' : List (Blk Nat)} (h : Describes bs s)
    {count n p : Nat} (hwrap : 0xFFFFFFF8 < count * n) (hnz : word (count * n) ≠ 0)
    (halloc : allocated (word (count * n)) bs = some (p, bs')) : ¬ CallocHonours s count n := by
  have hsearch := malloc_search h.rep hnz
  rw [halloc] at hsearch
  obtain ⟨m, hrun, hlinks, _⟩ := hsearch
  obtain ⟨hpz, hhd, hregion⟩ := h.rep.regionSize_allocated halloc hlinks
  have hreturns : Returns s.heap (.calloc count n)
      ⟨p, false, { s.heap with mem := memset m p 0 (word (count * n)) }⟩ := by
    refine ⟨bs.length, fun fuel hfuel => ?_⟩
    simp only [Call.exec, calloc, hrun fuel hfuel, if_neg hpz]
  -- Clearing the data leaves the header alone.
  have hheader : regionSize (memset m p 0 (word (count * n))) p = regionSize m p := by
    have hsize : headerSize = 16 := rfl
    exact Mem.readLE_congr fun x hlow hhigh => memset_outside m 0 (by omega)
  rintro ⟨r, hr, hresult⟩
  obtain rfl := hr.unique hreturns
  have hheap : heapSize = 4194304 := rfl
  rcases hresult with hz | ⟨hle, _⟩
  · exact hpz hz
  · simp only [hheader] at hle
    omega

/-- `calloc` honours the product exactly if it does not wrap around, or its low 32 bits
are 0, or no free block has room for these, rounded up. -/
theorem calloc_product_iff {s : Session} (h : Reachable s) (count n : Nat) :
    CallocHonours s count n ↔
      count * n ≤ 0xFFFFFFF8 ∨ word (count * n) = 0 ∨
        NoRoom s.heap (roundUp (word (count * n))) := by
  obtain ⟨bs, hbs⟩ := describes_of_reachable h
  rw [hbs.rep.noRoom_iff]
  constructor
  · intro hhonours
    by_contra hbad
    obtain ⟨hlow, hrest⟩ := not_or.mp hbad
    obtain ⟨hnz, hsome⟩ := not_or.mp hrest
    obtain ⟨⟨p, bs'⟩, halloc⟩ := Option.ne_none_iff_exists'.mp hsome
    exact hbs.not_callocHonours (by omega) hnz halloc hhonours
  · rintro (hn | hzero | hnone)
    · exact hbs.callocHonours hn
    · exact callocHonours_of_word_eq_zero hzero
    · by_cases hzero : word (count * n) = 0
      · exact callocHonours_of_word_eq_zero hzero
      · have hsearch := malloc_search hbs.rep hzero
        rw [hnone] at hsearch
        exact callocHonours_of_zero ⟨_, hsearch⟩

theorem calloc_product_firstSession : CallocHonours firstSession 1000 1000 :=
  (calloc_product_iff reachable_firstSession 1000 1000).mpr (.inl (by decide))

/-- `calloc(0x80000001, 2)` asks for 2^32 + 2 bytes and gets 8. -/
theorem calloc_wraps_around :
    Reachable freshSession ∧ 0x80000001 < 2 ^ 32 ∧ ¬ CallocHonours freshSession 0x80000001 2 := by
  refine ⟨.init blankHeap, by decide, ?_⟩
  have hrep := rep_heapInit blankHeap
  have hbs : Describes [⟨heapSize - headerSize, none⟩] freshSession :=
    ⟨hrep, fun p => by simp [usedAt, freshSession]⟩
  have halloc : allocated (word (0x80000001 * 2)) [⟨heapSize - headerSize, none⟩] =
      some (heapStart + headerSize,
        [⟨8, some 2⟩, ⟨heapSize - headerSize - 8 - headerSize, none⟩]) := by
    rfl
  exact hbs.not_callocHonours (by decide) (by decide) halloc

end FalastinOS.Heap
