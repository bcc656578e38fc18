/-
  Heap/History.lean --- histories of allocator calls.

  A session is the heap together with the allocations its callers hold: for each
  pointer that was returned and not given up, the number of bytes asked for.
  Callers pass only such pointers, ask for at most 0xFFFFFFF8 bytes, and write
  only inside the regions of their allocations; otherwise any order of calls and
  writes is a history.

  `Outcome` is what a call does to a session.  `call_outcome` proves it of every
  valid call; the two main results, that the block list tiles the heap and that
  allocations are isolated, follow by induction over the history.
-/
import FalastinOS.Heap.Calls

set_option autoImplicit false

namespace FalastinOS.Heap

open FalastinOS.Foundation FalastinOS.Foundation.Arena FalastinOS.Libc

/-- A call of the allocator. -/
inductive Call where
  | malloc (size : Nat)
  | calloc (count size : Nat)
  | realloc (ptr size : Nat)
  | free (ptr : Nat)

/-- What a call does to the heap. -/
def Call.exec (fuel : Nat) (h : HeapState) : Call → Option Reply
  | .malloc size => Heap.malloc fuel h size
  | .calloc count size => Heap.calloc fuel h count size
  | .realloc ptr size => Heap.realloc fuel h ptr size
  | .free ptr => Heap.free fuel h ptr

/-- The call returns `r`: with enough fuel that is its result. -/
def Returns (h : HeapState) (c : Call) (r : Reply) : Prop :=
  ∃ n, ∀ fuel, n < fuel → c.exec fuel h = some r

/-- The pointers callers hold, each with the bytes they asked for. -/
abbrev Live : Type := Nat → Option Nat

/-- A pointer returned for `n` bytes; 0 is no allocation. -/
def gain (live : Live) (ptr n : Nat) : Live :=
  if ptr = 0 then live else Function.update live ptr (some n)

/-- What callers hold after a call that returned `ptr`. -/
def Call.settle (live : Live) (ptr : Nat) : Call → Live
  | .malloc size => gain live ptr size
  | .calloc count size => gain live ptr (count * size)
  | .realloc old size =>
      if old = 0 then gain live ptr size
      else if size = 0 then Function.update live old none
      else if ptr = 0 then live
      else Function.update (Function.update live old none) ptr (some size)
  | .free old => if old = 0 then live else Function.update live old none

/-- NULL, or a pointer that is held. -/
def Held (live : Live) (ptr : Nat) : Prop := ptr = 0 ∨ live ptr ≠ none

/-- The calls a history may make. -/
def Call.Valid (live : Live) : Call → Prop
  | .malloc size => size ≤ 0xFFFFFFF8
  | .calloc count size => count * size ≤ 0xFFFFFFF8
  | .realloc ptr size => size ≤ 0xFFFFFFF8 ∧ Held live ptr
  | .free ptr => Held live ptr

/-- The heap and the allocations held. -/
structure Session where
  heap : HeapState
  live : Live

/-- The length of the region behind an allocated pointer, as its header has it. -/
def regionSize (m : Mem) (ptr : Nat) : Nat := size m (ptr - headerSize)

/-- Is `x` a byte of the region behind `ptr`? -/
def InRegion (m : Mem) (ptr x : Nat) : Prop := ptr ≤ x ∧ x < ptr + regionSize m ptr

/-- The sessions that histories lead to. -/
inductive Reachable : Session → Prop where
  | init (h : HeapState) : Reachable ⟨heapInit h, fun _ => none⟩
  | call {s : Session} {c : Call} {r : Reply} : Reachable s → c.Valid s.live →
      Returns s.heap c r → Reachable ⟨r.heap, c.settle s.live r.ptr⟩
  | store {s : Session} {ptr a : Nat} (byte : UInt8) : Reachable s → s.live ptr ≠ none →
      InRegion s.heap.mem ptr a →
      Reachable ⟨{ s.heap with mem := s.heap.mem.writeByte a byte }, s.live⟩

/-! ## One call -/

/-- The row `bs` describes the session: it is laid out over the heap, and its
owned blocks are the allocations held. -/
structure Describes (bs : List (Blk Nat)) (s : Session) : Prop where
  rep : Rep s.heap bs
  live : ∀ p, s.live p = (owned bs p).map Prod.snd

/-- What a call leaves alone and what it stores. -/
structure Frame (m : Mem) (live : Live) (c : Call) (r : Reply) : Prop where
  /-- no region held before the call changes, except the one returned -/
  others : ∀ p, live p ≠ none → p ≠ r.ptr → ∀ x, InRegion m p x → r.heap.mem x = m x
  /-- `calloc` zeroes what it was asked for -/
  zeroed : ∀ count size, c = .calloc count size → r.ptr ≠ 0 →
    ∀ x, r.ptr ≤ x → x < r.ptr + count * size → r.heap.mem x = 0
  /-- `realloc` keeps the old contents -/
  copied : ∀ old size, c = .realloc old size → old ≠ 0 → r.ptr ≠ 0 →
    ∀ k, k < regionSize m old → r.heap.mem (r.ptr + k) = m (old + k)

/-- A call on the session returns `r`, and what it did. -/
structure Outcome (s : Session) (c : Call) (r : Reply) : Prop where
  returns : Returns s.heap c r
  intact : r.corrupted = false
  frame : Frame s.heap.mem s.live c r
  after : ∃ bs, Describes bs ⟨r.heap, c.settle s.live r.ptr⟩

section Session

variable {s : Session} {bs : List (Blk Nat)}

/-- An allocation that is held has a block. -/
theorem Describes.owned_of_live (h : Describes bs s) {p : Nat} (hp : s.live p ≠ none) :
    ∃ u, owned bs p = some u := by
  cases hu : owned bs p with
  | none => exact absurd (by rw [h.live, hu, Option.map_none]) hp
  | some u => exact ⟨u, rfl⟩

/-- The region of a block is as long as the row says. -/
theorem Describes.regionSize_eq (h : Describes bs s) {p : Nat} {u : Nat × Nat}
    (hu : owned bs p = some u) : regionSize s.heap.mem p = u.1 :=
  (h.rep.links.header_of_usedAt hu).size

theorem Describes.ne_zero (h : Describes bs s) {p : Nat} {u : Nat × Nat}
    (hu : owned bs p = some u) : p ≠ 0 := by
  have hbounds := h.rep.owned_bounds hu
  have hhd : headerSize = 16 := rfl
  omega

theorem Describes.inRegion_iff (h : Describes bs s) {p x : Nat} {u : Nat × Nat}
    (hu : owned bs p = some u) : InRegion s.heap.mem p x ↔ p ≤ x ∧ x < p + u.1 := by
  rw [InRegion, h.regionSize_eq hu]

/-- Bytes of a region are neither header nor free. -/
theorem Describes.region_bytes (h : Describes bs s) {p x : Nat} {u : Nat × Nat}
    (hu : owned bs p = some u) (hx : InRegion s.heap.mem p x) :
    ¬ HeaderByte headerSize heapStart bs x ∧ ¬ FreeByte headerSize heapStart bs x := by
  obtain ⟨hlow, hhigh⟩ := (h.inRegion_iff hu).mp hx
  exact ⟨not_headerByte_of_usedAt hu hlow hhigh, not_freeByte_of_usedAt hu hlow hhigh⟩

/-- New contents inside one region disturb no header. -/
theorem Describes.rewrite (h : Describes bs s) {p : Nat} {u : Nat × Nat}
    (hu : owned bs p = some u) {m : Mem}
    (houtside : ∀ x, x < p ∨ p + u.1 ≤ x → m x = s.heap.mem x) :
    Describes bs ⟨{ s.heap with mem := m }, s.live⟩ := by
  refine ⟨h.rep.congr fun x hx => houtside x ?_, h.live⟩
  by_contra hinside
  exact not_headerByte_of_usedAt hu (by omega) (by omega) hx

/-- A call that changes nothing and returns 0. -/
theorem Describes.outcome_same (h : Describes bs s) {c : Call}
    (hreturns : Returns s.heap c ⟨0, false, s.heap⟩) (hsettle : c.settle s.live 0 = s.live) :
    Outcome s c ⟨0, false, s.heap⟩ :=
  ⟨hreturns, rfl, ⟨fun _ _ _ _ _ => rfl, fun _ _ _ hne => absurd rfl hne,
    fun _ _ _ _ hne => absurd rfl hne⟩, bs, by
      rw [hsettle]
      exact h⟩

/-- A pointer gained by an allocation. -/
theorem Describes.gain {n p size : Nat} {bs' : List (Blk Nat)} {h' : HeapState} (h : Describes bs s)
    (hp : p ≠ 0) (hrep : Rep h' bs')
    (howned : owned bs' = Function.update (owned bs) p (some (size, n))) :
    Describes bs' ⟨h', Heap.gain s.live p n⟩ := by
  refine ⟨hrep, fun q => ?_⟩
  simp only [Heap.gain, if_neg hp, howned, Function.update_apply]
  split
  · rfl
  · exact h.live q

/-- `malloc(n)` refuses and changes nothing, or returns a new block. -/
theorem Describes.malloc_cases (h : Describes bs s) {n : Nat} (hn : n ≤ 0xFFFFFFF8) :
    (∀ fuel, bs.length < fuel → malloc fuel s.heap n = some ⟨0, false, s.heap⟩) ∨
    ∃ p size bs' m,
      (∀ fuel, bs.length < fuel →
        malloc fuel s.heap n = some ⟨p, false, { s.heap with mem := m }⟩) ∧
      n ≤ size ∧ owned bs p = none ∧
      owned bs' = Function.update (owned bs) p (some (size, n)) ∧
      Describes bs' ⟨{ s.heap with mem := m }, Heap.gain s.live p n⟩ ∧
      ∀ x, ¬ FreeByte headerSize heapStart bs x → m x = s.heap.mem x := by
  by_cases hzero : n = 0
  · exact Or.inl fun fuel _ => by rw [malloc, if_pos (Or.inr hzero)]
  · have hspec := malloc_spec h.rep hzero hn
    cases halloc : allocated n bs with
    | none =>
        rw [halloc] at hspec
        exact Or.inl hspec
    | some found =>
        obtain ⟨p, bs'⟩ := found
        rw [halloc] at hspec
        obtain ⟨m, hrun, hrep, hsame⟩ := hspec
        obtain ⟨size, hsize, hnone, howned⟩ := Rep.owned_allocated hn halloc
        have hp : owned bs' p = some (size, n) := by rw [howned, Function.update_self]
        have hbounds := hrep.owned_bounds hp
        have hhd : headerSize = 16 := rfl
        exact Or.inr ⟨p, size, bs', m, hrun, hsize, hnone, howned,
          h.gain (by omega) hrep howned, hsame⟩

theorem Describes.outcome_malloc (h : Describes bs s) {n : Nat} (hn : n ≤ 0xFFFFFFF8) :
    ∃ r, Outcome s (.malloc n) r := by
  rcases h.malloc_cases hn with hnone | ⟨p, size, bs', m, hrun, _, _, _, hafter, hsame⟩
  · exact ⟨_, h.outcome_same ⟨_, hnone⟩ rfl⟩
  · refine ⟨_, ⟨_, hrun⟩, rfl, ⟨fun q hq _ x hx => ?_, by simp, by simp⟩, bs', hafter⟩
    obtain ⟨u, hu⟩ := h.owned_of_live hq
    exact hsame x (h.region_bytes hu hx).2

/-- A byte of one block is no byte of another. -/
theorem owned_apart {p q x : Nat} {u v : Nat × Nat} (hp : owned bs p = some u)
    (hq : owned bs q = some v) (hne : q ≠ p) (hx : q ≤ x ∧ x < q + v.1) :
    x < p ∨ p + u.1 ≤ x := by
  have := usedAt_disjoint hp hq (Ne.symm hne)
  omega

/-- The blocks owned before an allocation are others than the new one, and stay. -/
theorem owned_kept {bs' : List (Blk Nat)} {p : Nat} {w : Nat × Nat} (hfresh : owned bs p = none)
    (howned : owned bs' = Function.update (owned bs) p (some w)) {q : Nat} {v : Nat × Nat}
    (hv : owned bs q = some v) : q ≠ p ∧ owned bs' q = some v := by
  have hne : q ≠ p := by
    rintro rfl
    exact absurd (hv.symm.trans hfresh) (by simp)
  exact ⟨hne, by rw [howned, Function.update_of_ne hne, hv]⟩

theorem Describes.outcome_calloc (h : Describes bs s) {count n : Nat}
    (hn : count * n ≤ 0xFFFFFFF8) : ∃ r, Outcome s (.calloc count n) r := by
  have htotal : word (count * n) = count * n := Nat.mod_eq_of_lt (by omega)
  rcases h.malloc_cases hn with hnone | ⟨p, size, bs', m, hrun, hsize, hnone, howned, hafter, hsame⟩
  · refine ⟨_, h.outcome_same ⟨bs.length, fun fuel hfuel => ?_⟩ rfl⟩
    simp only [Call.exec, calloc, htotal, hnone fuel hfuel, if_true]
  · have hp : owned bs' p = some (size, count * n) := by rw [howned, Function.update_self]
    have hpz : p ≠ 0 := hafter.ne_zero hp
    have houtside : ∀ x, x < p ∨ p + size ≤ x → memset m p 0 (count * n) x = m x :=
      fun x hx => memset_outside m 0 (by omega)
    refine ⟨⟨p, false, { s.heap with mem := memset m p 0 (count * n) }⟩,
      ⟨bs.length, fun fuel hfuel => ?_⟩, rfl, ⟨fun q hq hne x hx => ?_, ?_, by simp⟩, bs', ?_⟩
    · simp only [Call.exec, calloc, htotal, hrun fuel hfuel, if_neg hpz]
    · obtain ⟨v, hv⟩ := h.owned_of_live hq
      have hkept := (owned_kept hnone howned hv).2
      calc memset m p 0 (count * n) x = m x :=
            houtside x (owned_apart hp hkept hne ((h.inRegion_iff hv).mp hx))
        _ = s.heap.mem x := hsame x (h.region_bytes hv hx).2
    · intro count' n' hcall _ x hlow hhigh
      obtain ⟨rfl, rfl⟩ := Call.calloc.inj hcall
      exact memset_inside m 0 hlow hhigh
    · exact hafter.rewrite hp houtside

theorem Describes.lose {p : Nat} {u : Nat × Nat} {h' : HeapState} (h : Describes bs s)
    (hu : owned bs p = some u) (hrep : Rep h' (freed p bs)) :
    Describes (freed p bs) ⟨h', Function.update s.live p none⟩ := by
  refine ⟨hrep, fun q => ?_⟩
  simp only [owned_freed hu, Function.update_apply]
  split
  · rfl
  · exact h.live q

theorem Describes.outcome_free (h : Describes bs s) {p : Nat} (hp : Held s.live p) :
    ∃ r, r.ptr = 0 ∧ Outcome s (.free p) r := by
  by_cases hz : p = 0
  · refine ⟨_, rfl, h.outcome_same ⟨0, fun fuel _ => ?_⟩ ?_⟩
    · simp only [Call.exec, free, if_pos hz]
    · simp only [Call.settle, if_pos hz]
  · obtain ⟨u, hu⟩ := h.owned_of_live (hp.resolve_left hz)
    obtain ⟨m, hrun, hrep, hsame⟩ := free_spec h.rep hu
    refine ⟨_, rfl, ⟨_, hrun⟩, rfl, ⟨fun q hq _ x hx => ?_, by simp, by simp⟩, freed p bs, ?_⟩
    · obtain ⟨v, hv⟩ := h.owned_of_live hq
      exact hsame x (h.region_bytes hv hx).1
    · simp only [Call.settle, if_neg hz]
      exact h.lose hu hrep

/-- `realloc` of a block that is large enough. -/
theorem Describes.outcome_realloc_fits (h : Describes bs s) {p n : Nat} {u : Nat × Nat}
    (hu : owned bs p = some u) (hn : n ≠ 0) (hfits : n ≤ u.1) :
    Outcome s (.realloc p n) ⟨p, false, s.heap⟩ := by
  have hpz : p ≠ 0 := h.ne_zero hu
  have hblock : n ≤ size s.heap.mem (p - headerSize) := by
    rw [(h.rep.links.header_of_usedAt hu).size]
    exact hfits
  have howned : owned (assign headerSize p (some n) heapStart bs) =
      Function.update (owned bs) p (some (u.1, n)) :=
    usedAt_assign (o := some n) bs heapStart hu
  refine ⟨⟨0, fun fuel _ => ?_⟩, rfl, ⟨fun _ _ _ _ _ => rfl, by simp, ?_⟩,
    assign headerSize p (some n) heapStart bs,
    ⟨⟨⟨?_, ?_, ?_, ?_⟩, h.rep.start, h.rep.ready, ?_⟩, ?_⟩⟩
  · simp only [Call.exec, realloc, if_neg hpz, if_neg hn, h.rep.word_header hu, if_pos hblock]
  · intro old n' hcall _ _ k _
    obtain ⟨rfl, rfl⟩ := Call.realloc.inj hcall
    rfl
  · exact links_relabel n bs heapStart h.rep.links hu
  · exact (extent_assign bs heapStart).trans h.rep.extent
  · exact dvd_assign h.rep.aligned heapStart
  · exact noFreePair_assign_some n h.rep.coalesced heapStart
  · intro q v hv
    have hv' : owned (assign headerSize p (some n) heapStart bs) q = some v := hv
    rw [howned, Function.update_apply] at hv'
    split at hv'
    · obtain rfl := Option.some.inj hv'
      exact hfits
    · exact h.rep.enough q v hv'
  · intro q
    simp only [Call.settle, if_neg hpz, if_neg hn, howned, Function.update_apply]
    split
    · rfl
    · exact h.live q

/-- `realloc` of a block that is too small refuses and changes nothing, or returns a
new block with the old contents copied and gives the old block up. -/
theorem Describes.realloc_cases (h : Describes bs s) {p n : Nat} {u : Nat × Nat}
    (hu : owned bs p = some u) (hn : n ≠ 0) (hsmall : u.1 < n) (hlimit : n ≤ 0xFFFFFFF8) :
    Returns s.heap (.realloc p n) ⟨0, false, s.heap⟩ ∨
    ∃ q room bs₁ m,
      Returns s.heap (.realloc p n) ⟨q, false, { s.heap with mem := m }⟩ ∧
      n ≤ room ∧ owned bs q = none ∧
      owned bs₁ = Function.update (owned bs) q (some (room, n)) ∧
      Describes (freed p bs₁) ⟨{ s.heap with mem := m },
        Function.update (Function.update s.live p none) q (some n)⟩ ∧
      (∀ y v, owned bs y = some v → ∀ x, InRegion s.heap.mem y x → m x = s.heap.mem x) ∧
      ∀ k, k < u.1 → m (q + k) = s.heap.mem (p + k) := by
  have hpz : p ≠ 0 := h.ne_zero hu
  have hsize := h.regionSize_eq hu
  have hblock : ¬ n ≤ size s.heap.mem (p - headerSize) := by
    rw [show size s.heap.mem (p - headerSize) = u.1 from hsize]
    omega
  rcases h.malloc_cases hlimit with
    hnone | ⟨q, room, bs₁, m₁, hrun, hroom, hfresh, howned, hafter, hsame⟩
  · refine .inl ⟨bs.length, fun fuel hfuel => ?_⟩
    simp only [Call.exec, realloc, if_neg hpz, if_neg hn, h.rep.word_header hu, if_neg hblock,
      hnone fuel hfuel, if_true]
  · have hq : owned bs₁ q = some (room, n) := by rw [howned, Function.update_self]
    obtain ⟨hne, hu₁⟩ := owned_kept hfresh howned hu
    have hqz : q ≠ 0 := hafter.ne_zero hq
    -- The size is read again after `malloc`; the header is still the same.
    have hsize₁ : size m₁ (p - headerSize) = u.1 := hafter.regionSize_eq hu₁
    have hcopyOutside : ∀ x, x < q ∨ q + room ≤ x → memcpy m₁ q p u.1 x = m₁ x :=
      fun x hx => memcpy_outside m₁ (by omega)
    have hcopied : Describes bs₁
        ⟨{ s.heap with mem := memcpy m₁ q p u.1 }, Heap.gain s.live q n⟩ :=
      hafter.rewrite hq hcopyOutside
    obtain ⟨m₂, hfree, hrep₂, hsame₂⟩ := free_spec hcopied.rep hu₁
    refine .inr ⟨q, room, bs₁, m₂, ⟨max bs.length bs₁.length, fun fuel hfuel => ?_⟩, hroom,
      hfresh, howned, ?_, fun y v hv x hx => ?_, fun k hk => ?_⟩
    · simp only [Call.exec, realloc, if_neg hpz, if_neg hn, h.rep.word_header hu, if_neg hblock,
        hrun fuel (by omega), if_neg hqz, hsize₁, hfree fuel (by omega)]
    · have hlost := hcopied.lose hu₁ hrep₂
      refine ⟨hlost.rep, fun y => ?_⟩
      rw [Function.update_comm hne]
      exact (congrFun (by simp only [Heap.gain, if_neg hqz]) y).trans (hlost.live y)
    · obtain ⟨hyq, hkept⟩ := owned_kept hfresh howned hv
      have hx' := (h.inRegion_iff hv).mp hx
      calc m₂ x = memcpy m₁ q p u.1 x :=
            hsame₂ x (not_headerByte_of_usedAt hkept hx'.1 hx'.2)
        _ = m₁ x := hcopyOutside x (owned_apart hq hkept hyq hx')
        _ = s.heap.mem x := hsame x (h.region_bytes hv hx).2
    · have hapart : q + u.1 ≤ p ∨ p + u.1 ≤ q := by
        have := usedAt_disjoint hq hu₁ (Ne.symm hne)
        omega
      have hbyte : InRegion s.heap.mem p (p + k) := ⟨by omega, by rw [hsize]; omega⟩
      calc m₂ (q + k) = memcpy m₁ q p u.1 (q + k) :=
            hsame₂ _ (not_headerByte_of_usedAt hq (by omega) (by simp only; omega))
        _ = m₁ (p + k) := memcpy_inside m₁ hapart hk
        _ = s.heap.mem (p + k) := hsame _ (h.region_bytes hu hbyte).2

theorem Describes.outcome_realloc_moves (h : Describes bs s) {p n : Nat} {u : Nat × Nat}
    (hu : owned bs p = some u) (hn : n ≠ 0) (hsmall : u.1 < n) (hlimit : n ≤ 0xFFFFFFF8) :
    ∃ r, Outcome s (.realloc p n) r := by
  have hpz : p ≠ 0 := h.ne_zero hu
  rcases h.realloc_cases hu hn hsmall hlimit with
    hnone | ⟨q, room, bs₁, m, hreturns, _, _, _, hafter, hothers, hcopied⟩
  · refine ⟨_, h.outcome_same hnone ?_⟩
    simp only [Call.settle, if_neg hpz, if_neg hn, if_true]
  · have hqz : q ≠ 0 := by
      obtain ⟨v, hv⟩ := hafter.owned_of_live (p := q) (by simp)
      exact hafter.ne_zero hv
    refine ⟨_, hreturns, rfl, ⟨fun y hy _ x hx => ?_, by simp, ?_⟩, freed p bs₁, ?_⟩
    · obtain ⟨v, hv⟩ := h.owned_of_live hy
      exact hothers y v hv x hx
    · intro old n' hcall _ _ k hk
      obtain ⟨rfl, rfl⟩ := Call.realloc.inj hcall
      rw [h.regionSize_eq hu] at hk
      exact hcopied k hk
    · simp only [Call.settle, if_neg hpz, if_neg hn, if_neg hqz]
      exact hafter

/-- Every valid call returns and has its outcome. -/
theorem Describes.call_outcome (h : Describes bs s) {c : Call} (hvalid : c.Valid s.live) :
    ∃ r, Outcome s c r := by
  cases c with
  | malloc n => exact h.outcome_malloc hvalid
  | calloc count n => exact h.outcome_calloc hvalid
  | free p =>
      obtain ⟨r, _, hr⟩ := h.outcome_free hvalid
      exact ⟨r, hr⟩
  | realloc p n =>
      obtain ⟨hlimit, hheld⟩ := hvalid
      by_cases hpz : p = 0
      · -- `realloc(0, n)` is `malloc(n)`.
        obtain ⟨r, hr⟩ := h.outcome_malloc hlimit
        obtain ⟨fuel, hreturns⟩ := hr.returns
        refine ⟨r, ⟨fuel, fun k hk => ?_⟩, hr.intact, ⟨hr.frame.others, by simp, ?_⟩, ?_⟩
        · simp only [Call.exec, realloc, if_pos hpz]
          exact hreturns k hk
        · intro old n' hcall hold
          obtain ⟨rfl, rfl⟩ := Call.realloc.inj hcall
          exact absurd hpz hold
        · simp only [Call.settle, if_pos hpz]
          exact hr.after
      · obtain ⟨u, hu⟩ := h.owned_of_live (hheld.resolve_left hpz)
        by_cases hn : n = 0
        · -- `realloc(p, 0)` is `free(p)`.
          obtain ⟨r, hptr, hr⟩ := h.outcome_free hheld
          obtain ⟨fuel, hreturns⟩ := hr.returns
          refine ⟨r, ⟨fuel, fun k hk => ?_⟩, hr.intact, ⟨hr.frame.others, by simp,
            fun _ _ _ _ hne => absurd hptr hne⟩, ?_⟩
          · simp only [Call.exec, realloc, if_neg hpz, if_pos hn]
            exact hreturns k hk
          · have hsettle : (Call.realloc p n).settle s.live r.ptr =
                (Call.free p).settle s.live r.ptr := by
              simp only [Call.settle, if_neg hpz, if_pos hn]
            rw [hsettle]
            exact hr.after
        · by_cases hfits : n ≤ u.1
          · exact ⟨_, h.outcome_realloc_fits hu hn hfits⟩
          · exact h.outcome_realloc_moves hu hn (by omega) hlimit

end Session

/-! ## Histories -/

theorem Returns.unique {h : HeapState} {c : Call} {r r' : Reply} (hr : Returns h c r)
    (hr' : Returns h c r') : r = r' := by
  obtain ⟨n, hn⟩ := hr
  obtain ⟨n', hn'⟩ := hr'
  have hfuel := (hn (max n n' + 1) (by omega)).symm.trans (hn' (max n n' + 1) (by omega))
  exact Option.some.inj hfuel

/-- A write inside a region disturbs no header. -/
theorem Describes.store {s : Session} {bs : List (Blk Nat)} (h : Describes bs s) {p a : Nat}
    (hp : s.live p ≠ none) (ha : InRegion s.heap.mem p a) (byte : UInt8) :
    Describes bs ⟨{ s.heap with mem := s.heap.mem.writeByte a byte }, s.live⟩ := by
  obtain ⟨u, hu⟩ := h.owned_of_live hp
  obtain ⟨hlow, hhigh⟩ := (h.inRegion_iff hu).mp ha
  exact h.rewrite hu fun x hx => Mem.writeByte_of_ne _ _ (by omega)

/-- Every session is described by a row of blocks. -/
theorem describes_of_reachable {s : Session} (h : Reachable s) : ∃ bs, Describes bs s := by
  induction h with
  | init h =>
      refine ⟨[⟨heapSize - headerSize, none⟩], rep_heapInit h, fun p => ?_⟩
      simp [usedAt]
  | call _ hvalid hreturns ih =>
      obtain ⟨bs, hbs⟩ := ih
      obtain ⟨r, hr⟩ := hbs.call_outcome hvalid
      obtain rfl := hr.returns.unique hreturns
      exact hr.after
  | store byte _ hp ha ih =>
      obtain ⟨bs, hbs⟩ := ih
      exact ⟨bs, hbs.store hp ha byte⟩

/-- In every session the block list tiles the heap with aligned, coalesced
blocks; every valid call returns, none through the corruption branch of
`malloc`; and `merge_free` terminates. -/
theorem heap_tiled {s : Session} (h : Reachable s) :
    (∃ bs, Tiled s.heap.mem bs) ∧
    (∀ c : Call, c.Valid s.live → ∃ r, Returns s.heap c r ∧ r.corrupted = false) ∧
    ∃ n h', ∀ fuel, n < fuel → mergeFree fuel s.heap = some h' := by
  obtain ⟨bs, hbs⟩ := describes_of_reachable h
  refine ⟨⟨bs, hbs.rep.toTiled⟩, fun c hvalid => ?_, ?_⟩
  · obtain ⟨r, hr⟩ := hbs.call_outcome hvalid
    exact ⟨r, hr.returns, hr.intact⟩
  · have hextent := hbs.rep.extent
    have hlinks := hbs.rep.links
    cases bs with
    | nil => exact absurd hextent (by decide)
    | cons b rest =>
        obtain ⟨m, hrun, _⟩ := mergeLoop_spec rest b s.heap.mem heapStart (by decide) hlinks
          (by rw [hextent]; rfl)
        refine ⟨rest.length, { s.heap with mem := m }, fun fuel hfuel => ?_⟩
        simp only [mergeFree, hbs.rep.start, hrun fuel hfuel, Option.map_some]

/-- Memory at power-on, before `heap_init`. -/
def blankHeap : HeapState := ⟨fun _ => 0, 0, false⟩

/-- What the first `malloc(100)` returns: the block is split after 104 bytes. -/
def firstReply : Reply :=
  ⟨heapStart + headerSize, false,
    ⟨setFree (split (heapInit blankHeap).mem heapStart 104) heapStart 0, heapStart, true⟩⟩

/-- The session after it. -/
def firstSession : Session :=
  ⟨firstReply.heap, (Call.malloc 100).settle (fun _ => none) firstReply.ptr⟩

theorem reachable_firstSession : Reachable firstSession := by
  refine (Reachable.init blankHeap).call (c := .malloc 100) (r := firstReply)
    (show 100 ≤ 0xFFFFFFF8 by decide) ⟨0, fun fuel hfuel => ?_⟩
  obtain ⟨k, rfl⟩ := Nat.exists_eq_add_of_lt hfuel
  rfl

theorem heap_tiled_firstSession :
    firstSession.live 0x800010 = some 100 ∧ (∃ bs, Tiled firstSession.heap.mem bs) ∧
      ∃ r, Returns firstSession.heap (.free 0x800010) r ∧ r.corrupted = false := by
  obtain ⟨htiled, hcalls, _⟩ := heap_tiled reachable_firstSession
  have hlive : firstSession.live 0x800010 = some 100 := rfl
  exact ⟨hlive, htiled, hcalls (.free 0x800010) (Or.inr (by simp [hlive]))⟩

/-- The allocations held are apart from each other and from the headers. -/
structure Isolated (s : Session) : Prop where
  inside : ∀ p, s.live p ≠ none →
    heapStart ≤ p ∧ 8 ∣ p - heapStart ∧ p + regionSize s.heap.mem p ≤ heapEnd
  enough : ∀ p n, s.live p = some n → n ≤ regionSize s.heap.mem p
  disjoint : ∀ p q, s.live p ≠ none → s.live q ≠ none → p ≠ q →
    ∀ x, InRegion s.heap.mem p x → ¬ InRegion s.heap.mem q x
  headers : ∃ bs, Tiled s.heap.mem bs ∧ ∀ p, s.live p ≠ none →
    ∀ x, InRegion s.heap.mem p x → ¬ HeaderByte headerSize heapStart bs x

theorem Describes.isolated {s : Session} {bs : List (Blk Nat)} (h : Describes bs s) :
    Isolated s := by
  refine ⟨fun p hp => ?_, fun p n hp => ?_, fun p q hp hq hne x hx hx' => ?_,
    bs, h.rep.toTiled, fun p hp x hx => ?_⟩
  · obtain ⟨u, hu⟩ := h.owned_of_live hp
    obtain ⟨hlow, hhigh⟩ := h.rep.owned_bounds hu
    rw [h.regionSize_eq hu]
    exact ⟨by omega, usedAt_dvd (by decide) h.rep.aligned hu, hhigh⟩
  · obtain ⟨u, hu⟩ := h.owned_of_live (p := p) (by simp [hp])
    rw [h.live, hu] at hp
    rw [h.regionSize_eq hu, ← Option.some.inj hp]
    exact h.rep.enough p u hu
  · obtain ⟨u, hu⟩ := h.owned_of_live hp
    obtain ⟨v, hv⟩ := h.owned_of_live hq
    unfold InRegion at hx hx'
    rw [h.regionSize_eq hu] at hx
    rw [h.regionSize_eq hv] at hx'
    have := usedAt_disjoint hu hv hne
    omega
  · obtain ⟨u, hu⟩ := h.owned_of_live hp
    exact (h.region_bytes hu hx).1

/-- In every session the allocations are isolated, and every valid call returns
without changing a region other than the one it returns. -/
theorem heap_isolated {s : Session} (h : Reachable s) :
    Isolated s ∧
    ∀ c : Call, c.Valid s.live → ∃ r, Returns s.heap c r ∧ Frame s.heap.mem s.live c r := by
  obtain ⟨bs, hbs⟩ := describes_of_reachable h
  refine ⟨hbs.isolated, fun c hvalid => ?_⟩
  obtain ⟨r, hr⟩ := hbs.call_outcome hvalid
  exact ⟨r, hr.returns, hr.frame⟩

/-- A second allocation leaves the region of the first alone. -/
theorem heap_isolated_firstSession :
    Isolated firstSession ∧ ∃ r, Returns firstSession.heap (.calloc 3 8) r ∧
      Frame firstSession.heap.mem firstSession.live (.calloc 3 8) r := by
  obtain ⟨hisolated, hcalls⟩ := heap_isolated reachable_firstSession
  exact ⟨hisolated, hcalls (.calloc 3 8) (show 3 * 8 ≤ 0xFFFFFFF8 by decide)⟩

end FalastinOS.Heap
