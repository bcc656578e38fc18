/-
  Heap/Blocks.lean --- the block list as the code walks it.

  `HasBlocks h l` says that following `next` from `heap_start_ptr`, as
  `malloc_debug` does, meets the blocks of `l`.  The walk ends in every session,
  and its list shows nothing of a block but its address, its size and its free
  flag.

  The layout of the heap is canonical: two sessions whose allocations have the same
  addresses and sizes have the same list, whatever their histories.  The laws of
  `free` in `heap_canonical` are instances of that.
-/
import FalastinOS.Foundation.Placement
import FalastinOS.Heap.History

set_option autoImplicit false

namespace FalastinOS.Heap

open FalastinOS.Foundation FalastinOS.Foundation.Arena

/-! ## Walking the list -/

/-- The loop of `malloc_debug` at block `cur`; the blocks it meets. -/
def blockList : Nat → Mem → Nat → Option (List Place)
  | 0, _, _ => none
  | fuel + 1, m, cur =>
      if cur = 0 then some []
      else
        match blockList fuel m (next m cur) with
        | none => none
        | some rest => some (⟨cur, size m cur, decide (isFree m cur ≠ 0)⟩ :: rest)

/-- The block list of a heap: with enough fuel the walk meets these blocks. -/
def HasBlocks (h : HeapState) (l : List Place) : Prop :=
  ∃ n, ∀ fuel, n < fuel → blockList fuel h.mem h.start = some l

theorem HasBlocks.unique {h : HeapState} {l l' : List Place} (hl : HasBlocks h l)
    (hl' : HasBlocks h l') : l = l' := by
  obtain ⟨n, hn⟩ := hl
  obtain ⟨n', hn'⟩ := hl'
  have hfuel := (hn (max n n' + 1) (by omega)).symm.trans (hn' (max n n' + 1) (by omega))
  exact Option.some.inj hfuel

/-- The walk over a row that reaches the end of the heap. -/
theorem blockList_of_links (bs : List (Blk Nat)) :
    ∀ (m : Mem) (a : Nat), 0 < a → Links m a bs → a + extent headerSize bs = heapEnd →
      ∀ fuel, bs.length < fuel → blockList fuel m (follow a) = some (placed headerSize a bs) := by
  have hhd : headerSize = 16 := rfl
  induction bs with
  | nil =>
      intro m a _ _ hend fuel hfuel
      obtain ⟨fuel, rfl⟩ := Nat.exists_eq_add_of_lt hfuel
      rw [follow, if_pos (by simpa [extent] using hend), blockList, if_pos rfl, placed]
  | cons b bs ih =>
      intro m a ha hlinks hend fuel hfuel
      simp only [extent] at hend
      obtain ⟨hb, hbs⟩ := hlinks
      obtain ⟨fuel, rfl⟩ := Nat.exists_eq_add_of_lt hfuel
      have hrest := ih m (a + headerSize + b.size) (by omega) hbs (by omega)
        ((b :: bs).length + fuel) (by simp only [List.length_cons]; omega)
      have hflag : decide (isFree m a ≠ 0) = b.owner.isNone := by
        rw [hb.free]
        cases b.owner with
        | none => rfl
        | some r => rfl
      rw [follow, if_neg (by omega), blockList, if_neg (by omega), hb.next, hrest, hb.size, hflag,
        placed]

/-- A heap that a row is laid out over has the list of that row. -/
theorem Rep.hasBlocks {h : HeapState} {bs : List (Blk Nat)} (hrep : Rep h bs) :
    HasBlocks h (placed headerSize heapStart bs) := by
  refine ⟨bs.length, fun fuel hfuel => ?_⟩
  have hwalk := blockList_of_links bs h.mem heapStart (by decide) hrep.links
    (by rw [hrep.extent]; rfl) fuel hfuel
  rw [hrep.start]
  exact hwalk

/-! ## The layout is canonical -/

/-- The sizes of the blocks behind the pointers that are held. -/
def Session.liveBlocks (s : Session) : Nat → Option Nat := fun p =>
  (s.live p).map fun _ => regionSize s.heap.mem p

theorem Describes.liveBlocks_eq {s : Session} {bs : List (Blk Nat)} (h : Describes bs s)
    (p : Nat) : s.liveBlocks p = (owned bs p).map Prod.fst := by
  rw [Session.liveBlocks, h.live]
  cases hu : owned bs p with
  | none => rfl
  | some u =>
      rw [Option.map_some, Option.map_some, Option.map_some, h.regionSize_eq hu]

/-- Sessions with the same allocations have the same block list. -/
theorem hasBlocks_of_liveBlocks_eq {s t : Session} {bs cs : List (Blk Nat)} (hs : Describes bs s)
    (ht : Describes cs t) (h : s.liveBlocks = t.liveBlocks) {l : List Place}
    (hl : HasBlocks s.heap l) : HasBlocks t.heap l := by
  have hsizes : ∀ p, (owned bs p).map Prod.fst = (owned cs p).map Prod.fst := fun p => by
    rw [← hs.liveBlocks_eq, ← ht.liveBlocks_eq, h]
  have hplaced : placed headerSize heapStart bs = placed headerSize heapStart cs :=
    placed_unique (by decide) hs.rep.coalesced ht.rep.coalesced
      (hs.rep.extent.trans ht.rep.extent.symm) hsizes
  rw [hl.unique hs.rep.hasBlocks, hplaced]
  exact ht.rep.hasBlocks

theorem Reachable.hasBlocks {s : Session} (h : Reachable s) : ∃ l, HasBlocks s.heap l := by
  obtain ⟨bs, hbs⟩ := describes_of_reachable h
  exact ⟨_, hbs.rep.hasBlocks⟩

theorem Reachable.same_blocks {s t : Session} (hs : Reachable s) (ht : Reachable t)
    (h : s.liveBlocks = t.liveBlocks) {l : List Place} (hl : HasBlocks s.heap l) :
    HasBlocks t.heap l := by
  obtain ⟨bs, hbs⟩ := describes_of_reachable hs
  obtain ⟨cs, hcs⟩ := describes_of_reachable ht
  exact hasBlocks_of_liveBlocks_eq hbs hcs h hl

/-! ## Freeing one pointer after another -/

/-- Freeing the pointers in order leads from one heap to the other. -/
def Frees : HeapState → List Nat → HeapState → Prop
  | h, [], h' => h' = h
  | h, p :: ps, h' => ∃ r, Returns h (.free p) r ∧ Frees r.heap ps h'

/-- What is held after the pointers were given up. -/
def dropAll (live : Live) (ps : List Nat) : Live :=
  ps.foldl (fun live p => Function.update live p none) live

theorem dropAll_apply (ps : List Nat) :
    ∀ (live : Live) (q : Nat), dropAll live ps q = if q ∈ ps then none else live q := by
  induction ps with
  | nil => exact fun live q => by simp [dropAll]
  | cons p ps ih =>
      intro live q
      rw [dropAll, List.foldl_cons, ← dropAll, ih, Function.update_apply]
      by_cases hq : q = p
      · simp [hq]
      · simp [hq]

/-- A pointer that is held can be freed; the other allocations keep their sizes. -/
theorem Reachable.free {s : Session} (h : Reachable s) {p : Nat} (hp : s.live p ≠ none) :
    ∃ r, Returns s.heap (.free p) r ∧
      Reachable ⟨r.heap, Function.update s.live p none⟩ ∧
      Session.liveBlocks ⟨r.heap, Function.update s.live p none⟩ =
        Function.update s.liveBlocks p none := by
  obtain ⟨bs, hbs⟩ := describes_of_reachable h
  obtain ⟨u, hu⟩ := hbs.owned_of_live hp
  obtain ⟨m, hrun, hrep, _⟩ := free_spec hbs.rep hu
  have hreturns : Returns s.heap (.free p) ⟨0, false, { s.heap with mem := m }⟩ := ⟨_, hrun⟩
  have hpz : p ≠ 0 := hbs.ne_zero hu
  have hnext := h.call (c := .free p) (Or.inr hp) hreturns
  simp only [Call.settle, if_neg hpz] at hnext
  refine ⟨_, hreturns, hnext, ?_⟩
  funext q
  rw [(hbs.lose hu hrep).liveBlocks_eq, owned_freed hu, Function.update_apply,
    Function.update_apply]
  split
  · rfl
  · exact (hbs.liveBlocks_eq q).symm

/-- Distinct pointers that are held can be freed in any order. -/
theorem Reachable.frees (ps : List Nat) :
    ∀ {s : Session}, Reachable s → ps.Nodup → (∀ p ∈ ps, s.live p ≠ none) →
      ∃ h', Frees s.heap ps h' ∧ Reachable ⟨h', dropAll s.live ps⟩ ∧
        Session.liveBlocks ⟨h', dropAll s.live ps⟩ = dropAll s.liveBlocks ps := by
  induction ps with
  | nil => exact fun {s} hs _ _ => ⟨s.heap, rfl, hs, rfl⟩
  | cons p ps ih =>
      intro s hs hnodup hlive
      obtain ⟨hfresh, hnodup'⟩ := List.nodup_cons.mp hnodup
      obtain ⟨hp, hps⟩ := List.forall_mem_cons.mp hlive
      obtain ⟨r, hreturns, hreach, hblocks⟩ := hs.free hp
      obtain ⟨h', hfrees, hreach', hblocks'⟩ := ih hreach hnodup' fun q hq => by
        have hne : q ≠ p := fun heq => hfresh (heq ▸ hq)
        simp only [Function.update_of_ne hne]
        exact hps q hq
      refine ⟨h', ⟨r, hreturns, hfrees⟩, hreach', ?_⟩
      rw [hblocks] at hblocks'
      exact hblocks'

/-- A successful `malloc` returns a pointer that was not held, and the other
allocations keep their sizes. -/
theorem Reachable.malloc {s : Session} (h : Reachable s) {n : Nat} (hn : n ≤ 0xFFFFFFF8)
    {r : Reply} (hr : Returns s.heap (.malloc n) r) (hptr : r.ptr ≠ 0) :
    s.live r.ptr = none ∧ Reachable ⟨r.heap, Function.update s.live r.ptr (some n)⟩ ∧
      ∃ size, n ≤ size ∧ Session.liveBlocks ⟨r.heap, Function.update s.live r.ptr (some n)⟩ =
        Function.update s.liveBlocks r.ptr (some size) := by
  obtain ⟨bs, hbs⟩ := describes_of_reachable h
  have hnext := h.call (c := .malloc n) hn hr
  simp only [Call.settle, Heap.gain, if_neg hptr] at hnext
  rcases hbs.malloc_cases hn with hnone | ⟨p, size, bs', m, hrun, hsize, hfresh, howned, hafter, _⟩
  · have hzero : Returns s.heap (.malloc n) ⟨0, false, s.heap⟩ := ⟨_, hnone⟩
    rw [hr.unique hzero] at hptr
    exact absurd rfl hptr
  · have hfound : Returns s.heap (.malloc n) ⟨p, false, { s.heap with mem := m }⟩ := ⟨_, hrun⟩
    obtain rfl := hr.unique hfound
    simp only [Heap.gain, if_neg hptr] at hafter
    refine ⟨by rw [hbs.live, hfresh, Option.map_none], hnext, size, hsize, ?_⟩
    funext q
    rw [hafter.liveBlocks_eq, howned, Function.update_apply, Function.update_apply]
    split
    · rfl
    · exact (hbs.liveBlocks_eq q).symm

/-- The block list of a session is determined by the addresses and sizes of its
allocations.  So freeing two of them leads to the same list in either order, a
`malloc` and the `free` of its result lead back to the list before them, and
freeing everything leads to one free block, in whatever order. -/
theorem heap_canonical {s : Session} (h : Reachable s) :
    (∃ l, HasBlocks s.heap l ∧
      ∀ t, Reachable t → t.liveBlocks = s.liveBlocks → HasBlocks t.heap l) ∧
    (∀ p q, s.live p ≠ none → s.live q ≠ none → p ≠ q →
      ∃ h₁ h₂ l, Frees s.heap [p, q] h₁ ∧ Frees s.heap [q, p] h₂ ∧
        HasBlocks h₁ l ∧ HasBlocks h₂ l) ∧
    (∀ n r, n ≤ 0xFFFFFFF8 → Returns s.heap (.malloc n) r → r.ptr ≠ 0 →
      ∃ h' l, Frees r.heap [r.ptr] h' ∧ HasBlocks s.heap l ∧ HasBlocks h' l) ∧
    (∀ ps : List Nat, ps.Nodup → (∀ p, p ∈ ps ↔ s.live p ≠ none) →
      ∃ h', Frees s.heap ps h' ∧
        HasBlocks h' [⟨heapStart, heapSize - headerSize, true⟩]) := by
  obtain ⟨l, hl⟩ := h.hasBlocks
  refine ⟨⟨l, hl, fun t ht heq => h.same_blocks ht heq.symm hl⟩, fun p q hp hq hne => ?_,
    fun n r hn hr hptr => ?_, fun ps hnodup hall => ?_⟩
  · obtain ⟨h₁, hfrees₁, hreach₁, hblocks₁⟩ := h.frees [p, q] (by simpa using hne)
      (by simp [hp, hq])
    obtain ⟨h₂, hfrees₂, hreach₂, hblocks₂⟩ := h.frees [q, p]
      (by simpa using hne.symm) (by simp [hp, hq])
    obtain ⟨l', hl'⟩ := hreach₁.hasBlocks
    have hsame : dropAll s.liveBlocks [p, q] = dropAll s.liveBlocks [q, p] := by
      funext x
      rw [dropAll_apply, dropAll_apply]
      exact if_congr (List.Perm.swap q p []).mem_iff rfl rfl
    exact ⟨h₁, h₂, l', hfrees₁, hfrees₂, hl',
      hreach₁.same_blocks hreach₂ (by rw [hblocks₁, hblocks₂, hsame]) hl'⟩
  · obtain ⟨hfresh, hreach, size, _, hblocks⟩ := h.malloc hn hr hptr
    obtain ⟨f, hfree, hreach', hblocks'⟩ := hreach.free (p := r.ptr) (by simp)
    -- The pointer was not held before, so giving it up leads back to the same allocations.
    have hback : Function.update (Function.update s.liveBlocks r.ptr (some size)) r.ptr none =
        s.liveBlocks := by
      rw [Function.update_idem, Function.update_eq_self_iff, Session.liveBlocks, hfresh,
        Option.map_none]
    refine ⟨f.heap, l, ⟨f, hfree, rfl⟩, hl, h.same_blocks hreach' ?_ hl⟩
    rw [hblocks', hblocks, hback]
  · obtain ⟨h', hfrees, hreach, _⟩ := h.frees ps hnodup fun p hp => (hall p).mp hp
    have hnone : dropAll s.live ps = fun _ => none := by
      funext q
      rw [dropAll_apply]
      by_cases hq : q ∈ ps
      · rw [if_pos hq]
      · rw [if_neg hq]
        exact not_not.mp fun hlive => hq ((hall q).mpr hlive)
    rw [hnone] at hreach
    exact ⟨h', hfrees,
      (Reachable.init s.heap).same_blocks hreach rfl (rep_heapInit s.heap).hasBlocks⟩

theorem heap_canonical_firstSession :
    ∃ h', Frees firstSession.heap [0x800010] h' ∧
      HasBlocks h' [⟨0x800000, 0x3FFFF0, true⟩] := by
  refine (heap_canonical reachable_firstSession).2.2.2 [0x800010] (by simp) fun p => ?_
  have hlive : firstSession.live p = if p = 0x800010 then some 100 else none :=
    Function.update_apply (fun _ => none) 0x800010 (some 100) p
  rw [hlive, List.mem_singleton]
  split
  · rename_i hp
    simp [hp]
  · rename_i hp
    simp [hp]

end FalastinOS.Heap
