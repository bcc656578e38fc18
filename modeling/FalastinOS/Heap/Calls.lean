/-
  Heap/Calls.lean --- the four functions on a well-formed heap.

  `Rep h bs` says that the heap `h` is ready and that the row `bs` is laid out
  over the whole of it: this is the invariant of the allocator.  For each
  function there is one specification: with fuel for each block it returns, the
  row after the call is the one `Arena` computes, and only header bytes, bytes
  of free blocks and the data of the block returned have changed.
-/
import FalastinOS.Heap.Layout

set_option autoImplicit false

namespace FalastinOS.Heap

open FalastinOS.Foundation FalastinOS.Foundation.Arena FalastinOS.Libc

/-- The row `bs` is laid out over the whole heap. -/
structure Tiled (m : Mem) (bs : List (Blk Nat)) : Prop where
  links : Links m heapStart bs
  extent : extent headerSize bs = heapSize
  aligned : ∀ b ∈ bs, 8 ∣ b.size
  coalesced : NoFreePair bs

/-- The heap is ready, tiled by `bs`, and every owner has the bytes it asked
for. -/
structure Rep (h : HeapState) (bs : List (Blk Nat)) : Prop extends Tiled h.mem bs where
  start : h.start = heapStart
  ready : h.ready = true
  enough : ∀ p u, usedAt headerSize heapStart bs p = some u → u.2 ≤ u.1

/-- Size and owner of the owned blocks, by the address of their data. -/
abbrev owned (bs : List (Blk Nat)) : Nat → Option (Nat × Nat) := usedAt headerSize heapStart bs

/-- `(size + 7) & ~7` for a size that does not wrap around. -/
theorem roundUp_spec {n : Nat} (h : n ≤ 0xFFFFFFF8) :
    n ≤ roundUp n ∧ 8 ∣ roundUp n ∧ roundUp n < n + 8 := by
  unfold roundUp word
  omega

theorem Rep.owned_bounds {h : HeapState} {bs : List (Blk Nat)} (hrep : Rep h bs) {p : Nat}
    {u : Nat × Nat} (hu : owned bs p = some u) :
    heapStart + headerSize ≤ p ∧ p + u.1 ≤ heapEnd := by
  refine ⟨usedAt_ge hu, ?_⟩
  have := usedAt_le hu
  rwa [hrep.extent] at this

/-- The header address the functions compute from the pointer of an owned
block. -/
theorem Rep.word_header {h : HeapState} {bs : List (Blk Nat)} (hrep : Rep h bs) {p : Nat}
    {u : Nat × Nat} (hu : owned bs p = some u) :
    word (p + (2 ^ 32 - headerSize)) = p - headerSize := by
  have hbounds := hrep.owned_bounds hu
  have hlimit : heapEnd = 12582912 := rfl
  have hhd : headerSize = 16 := rfl
  unfold word
  omega

/-- A change that spares the headers keeps the representation. -/
theorem Rep.congr {h : HeapState} {bs : List (Blk Nat)} (hrep : Rep h bs) {m : Mem}
    (hsame : ∀ x, HeaderByte headerSize heapStart bs x → m x = h.mem x) :
    Rep { h with mem := m } bs :=
  ⟨⟨hrep.links.congr hsame, hrep.extent, hrep.aligned, hrep.coalesced⟩, hrep.start, hrep.ready,
    hrep.enough⟩

theorem rep_heapInit (h : HeapState) : Rep (heapInit h) [⟨heapSize - headerSize, none⟩] := by
  refine ⟨⟨⟨⟨?_, ?_, ?_, ?_⟩, trivial⟩, rfl, ?_, List.isChain_singleton _⟩, rfl, rfl, ?_⟩
  · simp (disch := decide) only [heapInit, size, setSize, setFree, setNext, setMagic,
      Mem.readLE_writeLE_of_disjoint, Mem.readLE_writeLE_of_lt]
  · simp (disch := decide) only [heapInit, isFree, setSize, setFree, setNext, setMagic,
      Mem.readLE_writeLE_of_disjoint, Mem.readLE_writeLE_of_lt, if_true]
  · simp (disch := decide) only [heapInit, next, setSize, setFree, setNext, setMagic,
      Mem.readLE_writeLE_of_disjoint, Mem.readLE_writeLE_of_lt]
    rfl
  · simp (disch := decide) only [heapInit, magic, setSize, setFree, setNext, setMagic,
      Mem.readLE_writeLE_of_lt]
  · intro b hb
    obtain rfl := List.mem_singleton.mp hb
    exact ⟨524286, rfl⟩
  · intro p u hu
    simp [usedAt] at hu

/-! ## `malloc` -/

/-- What a row becomes by `malloc(n)`, and the pointer returned. -/
def allocated (n : Nat) (bs : List (Blk Nat)) : Option (Nat × List (Blk Nat)) :=
  allocate headerSize minSplit (roundUp n) n heapStart bs

/-- A successful `malloc(n)` adds one owned block of at least `n` bytes. -/
theorem Rep.owned_allocated {n p : Nat} {bs bs' : List (Blk Nat)} (hn : n ≤ 0xFFFFFFF8)
    (halloc : allocated n bs = some (p, bs')) :
    ∃ size, n ≤ size ∧ owned bs p = none ∧
      owned bs' = Function.update (owned bs) p (some (size, n)) := by
  obtain ⟨size, hsize, hnone, hused⟩ := usedAt_allocate (by decide) halloc
  exact ⟨size, Nat.le_trans (roundUp_spec hn).1 hsize, hnone, hused⟩

theorem Rep.tiled_allocated {h : HeapState} {bs bs' : List (Blk Nat)} (hrep : Rep h bs) {n p : Nat}
    (hn : n ≤ 0xFFFFFFF8) (halloc : allocated n bs = some (p, bs')) {m : Mem}
    (hlinks : Links m heapStart bs') : Rep { h with mem := m } bs' := by
  obtain ⟨size, hsize, _, howned⟩ := Rep.owned_allocated hn halloc
  refine ⟨⟨hlinks, (extent_allocate halloc).trans hrep.extent,
    dvd_allocate (by decide) (roundUp_spec hn).2.1 hrep.aligned halloc,
    noFreePair_allocate hrep.coalesced halloc⟩, hrep.start, hrep.ready, fun q u hu => ?_⟩
  have hu' : owned bs' q = some u := hu
  rw [howned, Function.update_apply] at hu'
  split at hu'
  · obtain rfl := Option.some.inj hu'
    exact hsize
  · exact hrep.enough q u hu'

/-- The block an allocation takes lies in the heap. -/
theorem Rep.allocated_bounds {h : HeapState} {bs bs' : List (Blk Nat)} (hrep : Rep h bs) {n p : Nat}
    (halloc : allocated n bs = some (p, bs')) :
    ∃ size, owned bs' p = some (size, n) ∧ heapStart + headerSize ≤ p ∧ p + size ≤ heapEnd := by
  obtain ⟨size, _, _, hused⟩ := usedAt_allocate (by decide) halloc
  have hp : owned bs' p = some (size, n) := by
    rw [owned, hused, Function.update_self]
  have hend := usedAt_le hp
  rw [extent_allocate halloc, hrep.extent] at hend
  exact ⟨size, hp, usedAt_ge hp, hend⟩

/-- The search of `malloc(n)` from the start of the heap. -/
theorem Rep.search {h : HeapState} {bs : List (Blk Nat)} (hrep : Rep h bs) (n : Nat) :
    ∃ e m, (∀ fuel, bs.length < fuel →
        mallocLoop (roundUp n) fuel h.mem h.start = some (e, m)) ∧
      Searched h.mem heapStart (roundUp n) n bs e m := by
  have hstart : follow heapStart = h.start := by
    rw [hrep.start]
    rfl
  rw [← hstart]
  exact mallocLoop_spec (roundUp n) n bs h.mem heapStart (by decide) hrep.links
    (by rw [hrep.extent]; rfl)

/-- `malloc(n)` for any `n > 0`: 0 and no change when nothing fits, else first fit. -/
theorem malloc_search {h : HeapState} {bs : List (Blk Nat)} (hrep : Rep h bs) {n : Nat}
    (hpos : n ≠ 0) :
    match allocated n bs with
    | none => ∀ fuel, bs.length < fuel → malloc fuel h n = some ⟨0, false, h⟩
    | some (p, bs') => ∃ m,
        (∀ fuel, bs.length < fuel → malloc fuel h n = some ⟨p, false, { h with mem := m }⟩) ∧
        Links m heapStart bs' ∧
        ∀ x, ¬ FreeByte headerSize heapStart bs x → m x = h.mem x := by
  obtain ⟨e, m, hrun, hdone⟩ := hrep.search n
  unfold Searched at hdone
  have hready : ¬ (h.ready = false ∨ n = 0) := by simp [hrep.ready, hpos]
  cases halloc : allocated n bs with
  | none =>
      rw [show allocate headerSize minSplit (roundUp n) n heapStart bs = none from halloc] at hdone
      obtain ⟨rfl, rfl⟩ := hdone
      intro fuel hfuel
      simp only [malloc, if_neg hready, hrun fuel hfuel]
  | some found =>
      obtain ⟨p, bs'⟩ := found
      rw [show allocate headerSize minSplit (roundUp n) n heapStart bs = some (p, bs') from
        halloc] at hdone
      obtain ⟨rfl, hlinks, hsame⟩ := hdone
      obtain ⟨size, _, hlow, hhigh⟩ := hrep.allocated_bounds halloc
      have hptr : word (p - headerSize + headerSize) = p := by
        have hlimit : heapEnd = 12582912 := rfl
        unfold word
        omega
      refine ⟨m, fun fuel hfuel => ?_, hlinks, hsame⟩
      simp only [malloc, if_neg hready, hrun fuel hfuel, hptr]

/-- `malloc(n)` for a size that does not wrap around keeps the heap tiled. -/
theorem malloc_spec {h : HeapState} {bs : List (Blk Nat)} (hrep : Rep h bs) {n : Nat}
    (hpos : n ≠ 0) (hn : n ≤ 0xFFFFFFF8) :
    match allocated n bs with
    | none => ∀ fuel, bs.length < fuel → malloc fuel h n = some ⟨0, false, h⟩
    | some (p, bs') => ∃ m,
        (∀ fuel, bs.length < fuel → malloc fuel h n = some ⟨p, false, { h with mem := m }⟩) ∧
        Rep { h with mem := m } bs' ∧
        ∀ x, ¬ FreeByte headerSize heapStart bs x → m x = h.mem x := by
  have hsearch := malloc_search hrep hpos
  cases halloc : allocated n bs with
  | none =>
      rw [halloc] at hsearch
      exact hsearch
  | some found =>
      obtain ⟨p, bs'⟩ := found
      rw [halloc] at hsearch
      obtain ⟨m, hrun, hlinks, hsame⟩ := hsearch
      exact ⟨m, hrun, hrep.tiled_allocated hn halloc hlinks, hsame⟩

/-! ## `free` -/

/-- What a row becomes by `free(p)`. -/
def freed (p : Nat) (bs : List (Blk Nat)) : List (Blk Nat) :=
  coalesce headerSize (assign headerSize p none heapStart bs)

theorem owned_freed {p : Nat} {u : Nat × Nat} {bs : List (Blk Nat)} (hu : owned bs p = some u) :
    owned (freed p bs) = Function.update (owned bs) p none := by
  have hassign : owned (assign headerSize p none heapStart bs) =
      Function.update (owned bs) p none := usedAt_assign (o := none) bs heapStart hu
  rw [← hassign, freed]
  cases assign headerSize p none heapStart bs with
  | nil => rfl
  | cons b rest => exact usedAt_merge (by decide) rest heapStart b

/-- `free(p)` of an owned block. -/
theorem free_spec {h : HeapState} {bs : List (Blk Nat)} (hrep : Rep h bs) {p : Nat}
    {u : Nat × Nat} (hu : owned bs p = some u) :
    ∃ m, (∀ fuel, bs.length < fuel → free fuel h p = some ⟨0, false, { h with mem := m }⟩) ∧
      Rep { h with mem := m } (freed p bs) ∧
      ∀ x, ¬ HeaderByte headerSize heapStart bs x → m x = h.mem x := by
  have hhd : headerSize = 16 := rfl
  have hheader := hrep.links.header_of_usedAt hu
  have hbounds := hrep.owned_bounds hu
  have hlinks := links_release bs heapStart hrep.links hu
  have hextent : extent headerSize (assign headerSize p none heapStart bs) = extent headerSize bs :=
    extent_assign bs heapStart
  have hlength : (assign headerSize p none heapStart bs).length = bs.length :=
    length_assign bs heapStart
  have hbytes : ∀ x, HeaderByte headerSize heapStart (assign headerSize p none heapStart bs) x ↔
      HeaderByte headerSize heapStart bs x := fun _ => headerByte_assign bs heapStart
  have haligned : ∀ b ∈ assign headerSize p none heapStart bs, 8 ∣ b.size :=
    dvd_assign hrep.aligned heapStart
  have howned := owned_freed hu
  unfold freed at howned ⊢
  -- The row after the flag is set is not empty; the merge starts at its first block.
  cases hrow : assign headerSize p none heapStart bs with
  | nil =>
      rw [hrow, hrep.extent] at hextent
      exact absurd hextent (by decide)
  | cons b rest =>
      rw [hrow] at hlinks hextent hlength hbytes haligned howned
      obtain ⟨m, hrun, hmerged, hsame⟩ := mergeLoop_spec rest b _ heapStart (by decide) hlinks
        (by rw [hextent, hrep.extent]; rfl)
      refine ⟨m, fun fuel hfuel => ?_, ⟨⟨hmerged, ?_, ?_, ?_⟩, hrep.start, hrep.ready, ?_⟩, ?_⟩
      · have hrest : rest.length < fuel := by
          simp only [List.length_cons] at hlength
          omega
        rw [free, if_neg (by omega), hrep.word_header hu, if_neg (by simp [hheader.magic])]
        simp only [mergeFree, hrep.start, hrun fuel hrest, Option.map_some]
      · exact (extent_merge rest b).trans (hextent.trans hrep.extent)
      · exact dvd_merge (by decide) rest b haligned
      · exact noFreePair_merge rest b
      · intro q v hv
        have hv' : owned (merge headerSize b rest) q = some v := hv
        rw [show merge headerSize b rest = coalesce headerSize (b :: rest) from rfl, howned,
          Function.update_apply] at hv'
        split at hv'
        · exact absurd hv' (by simp)
        · exact hrep.enough q v hv'
      · intro x hx
        rw [hsame x ((hbytes x).not.mpr hx)]
        refine Mem.writeLE_of_outside _ ?_
        by_contra hinside
        exact hx (headerByte_of_usedAt hu (by omega) (by omega))

end FalastinOS.Heap
