/-
  Heap/FirstFit.lean --- what `malloc` and `realloc` do to the block list.

  `malloc_first_fit` is the search of `malloc` on the list: it fails only if no
  free block is large enough, and else takes the one with the lowest address.
  What the block has more than was asked for is split off if it makes a header
  and `MIN_SPLIT` bytes of data.

  `realloc_contract` is `realloc` of a pointer that is held, for a size that the
  block has, for one that no block has, and for one that another block has.
-/
import FalastinOS.Heap.Blocks

set_option autoImplicit false

namespace FalastinOS.Heap

open FalastinOS.Foundation FalastinOS.Foundation.Arena FalastinOS.Libc

/-! ## `malloc` -/

/-- `malloc(n)` finds nothing exactly if no free block is large enough. -/
theorem allocated_eq_none_iff {n : Nat} (bs : List (Blk Nat)) :
    allocated n bs = none ↔
      ∀ c ∈ placed headerSize heapStart bs, c.isFree = true → c.size < roundUp n :=
  allocate_eq_none_iff bs heapStart

/-- A search that succeeds changes no byte outside the block it takes. -/
theorem mallocLoop_outside {n b : Nat} {m' : Mem} (fuel : Nat) :
    ∀ {m : Mem} {cur : Nat}, mallocLoop n fuel m cur = some (.found b, m') →
      b + headerSize + size m b ≤ heapEnd →
      ∀ x, x < b ∨ b + headerSize + size m b ≤ x → m' x = m x := by
  have hlimit : heapEnd = 12582912 := rfl
  have hhd : headerSize = 16 := rfl
  have hmin : minSplit = 32 := rfl
  induction fuel with
  | zero => exact fun h => absurd h (by simp [mallocLoop])
  | succ fuel ih =>
      intro m cur h hfit x hx
      rw [mallocLoop] at h
      split at h
      · exact absurd h (by simp)
      · split at h
        · exact absurd h (by simp)
        · split at h
          · rename_i htake
            obtain ⟨hexit, hmem⟩ := Prod.mk.inj (Option.some.inj h)
            obtain rfl := Exit.found.inj hexit
            rw [← hmem, setFree, Mem.writeLE_of_outside _ (by omega)]
            split
            · rename_i hguard
              have hroom : n + headerSize + minSplit ≤ size m cur := by
                have hwords : word (word (n + headerSize) + minSplit) =
                    n + headerSize + minSplit := by
                  unfold word
                  omega
                omega
              exact split_outside m (by omega) (by omega) (by omega)
            · rfl
          · exact ih h hfit x hx

/-- Block `b` was taken for `n` bytes: the size it has now, and what was split off. -/
inductive Cut (n : Nat) (b : Place) : Nat → List Place → Prop where
  | whole : b.size < n + headerSize + minSplit → Cut n b b.size []
  | split : n + headerSize + minSplit ≤ b.size →
      Cut n b n [⟨b.addr + headerSize + n, b.size - n - headerSize, true⟩]

theorem carvedPlace_cut (n : Nat) (b : Place) :
    ∃ size rest, Cut n b size rest ∧
      carvedPlace headerSize minSplit n b = ⟨b.addr, size, false⟩ :: rest := by
  unfold carvedPlace
  split
  · rename_i hroom
    exact ⟨n, _, .split hroom, rfl⟩
  · rename_i hroom
    exact ⟨b.size, [], .whole (Nat.not_le.mp hroom), rfl⟩

theorem Cut.bounds {n size : Nat} {b : Place} {rest : List Place} (h : Cut n b size rest)
    (hn : n ≤ b.size) : n ≤ size ∧ size < n + 48 := by
  have hhd : headerSize = 16 := rfl
  have hmin : minSplit = 32 := rfl
  cases h with
  | whole hsize => omega
  | split _ => omega

/-- What the free blocks lose. -/
theorem Cut.freeTotal {n size : Nat} {b : Place} {rest : List Place} (h : Cut n b size rest)
    (hfree : b.isFree = true) (before after : List Place) :
    Arena.freeTotal (before ++ ⟨b.addr, size, false⟩ :: (rest ++ after)) + size +
        (if rest = [] then 0 else headerSize) =
      Arena.freeTotal (before ++ b :: after) := by
  have hhd : headerSize = 16 := rfl
  cases h with
  | whole hsize =>
      simp only [freeTotal_append, freeTotal_cons, hfree, if_true, List.nil_append,
        Bool.false_eq_true, if_false]
      omega
  | split hsize =>
      simp only [freeTotal_append, freeTotal_cons, hfree, if_true, List.cons_append,
        List.nil_append, Bool.false_eq_true, if_false, reduceCtorEq]
      omega

/-- The size of a listed block stands in its header. -/
theorem Links.size_of_mem {m : Mem} {bs : List (Blk Nat)} {c : Place} :
    ∀ {a : Nat}, Links m a bs → c ∈ placed headerSize a bs → size m c.addr = c.size := by
  induction bs with
  | nil => exact fun _ hc => absurd hc (by simp [placed])
  | cons b bs ih =>
      intro a hlinks hc
      rcases List.mem_cons.mp hc with rfl | hlater
      · exact hlinks.1.size
      · exact ih hlinks.2 hlater

/-- `malloc` changes no byte outside the block it takes. -/
theorem malloc_outside {h : HeapState} {bs bs' : List (Blk Nat)} (hrep : Rep h bs) {n : Nat}
    (hpos : n ≠ 0) {b : Place} (hb : b ∈ placed headerSize heapStart bs)
    (halloc : allocated n bs = some (b.addr + headerSize, bs')) {r : Reply}
    (hr : Returns h (.malloc n) r) :
    ∀ x, x < b.addr ∨ b.addr + headerSize + b.size ≤ x → r.heap.mem x = h.mem x := by
  obtain ⟨e, m, hrun, hdone⟩ := hrep.search n
  unfold Searched at hdone
  rw [show allocate headerSize minSplit (roundUp n) n heapStart bs =
    some (b.addr + headerSize, bs') from halloc] at hdone
  obtain ⟨rfl, _, _⟩ := hdone
  rw [Nat.add_sub_cancel] at hrun
  have hready : ¬ (h.ready = false ∨ n = 0) := by simp [hrep.ready, hpos]
  obtain ⟨fuel, hfuel⟩ := hr
  have hloop := hrun (max bs.length fuel + 1) (by omega)
  have hresult := hfuel (max bs.length fuel + 1) (by omega)
  simp only [Call.exec, malloc, if_neg hready, hloop] at hresult
  obtain rfl := Option.some.inj hresult
  have hsize := hrep.links.size_of_mem hb
  have hend := placed_le hb
  rw [hrep.extent] at hend
  have houtside := mallocLoop_outside _ hloop (by rw [hsize]; exact hend)
  rw [hsize] at houtside
  exact houtside

/-- How a `malloc` for `n` bytes, rounded, went that took block `b` out of the list `l`:
the block has `size` bytes now, and `rest` was split off. -/
structure Took (n : Nat) (h : HeapState) (l : List Place) (r : Reply) (before : List Place)
    (b : Place) (after : List Place) (size : Nat) (rest : List Place) : Prop where
  listed : l = before ++ b :: after
  free : b.isFree = true
  fits : n ≤ b.size
  ptr : r.ptr = b.addr + headerSize
  lowest : ∀ c ∈ l, c.isFree = true → n ≤ c.size → b.addr ≤ c.addr
  cut : Cut n b size rest
  enough : n ≤ size
  spare : size < n + 48
  blocks : HasBlocks r.heap (before ++ ⟨b.addr, size, false⟩ :: (rest ++ after))
  total : freeTotal (before ++ ⟨b.addr, size, false⟩ :: (rest ++ after)) + size +
    (if rest = [] then 0 else 16) = freeTotal l
  bytes : ∀ x, x < b.addr ∨ b.addr + headerSize + b.size ≤ x → r.heap.mem x = h.mem x

/-- A successful search takes the first block that fits, and that is the lowest one. -/
theorem Rep.took {h : HeapState} {bs bs' : List (Blk Nat)} (hrep : Rep h bs) {n p : Nat}
    (hpos : n ≠ 0) (halloc : allocated n bs = some (p, bs')) {m : Mem}
    (hreturns : Returns h (.malloc n) ⟨p, false, { h with mem := m }⟩)
    (hrep' : Rep { h with mem := m } bs') :
    ∃ before b after size rest, Took (roundUp n) h (placed headerSize heapStart bs)
      ⟨p, false, { h with mem := m }⟩ before b after size rest := by
  obtain ⟨before, b, after, hlist, hfree, hfits, rfl, hbefore, hafter⟩ := placed_allocate halloc
  obtain ⟨size, rest, hcut, hcarved⟩ := carvedPlace_cut (roundUp n) b
  rw [hcarved, List.cons_append] at hafter
  have hb : b ∈ placed headerSize heapStart bs := by simp [hlist]
  have hblocks := hrep'.hasBlocks
  rw [hafter] at hblocks
  refine ⟨before, b, after, size, rest, hlist, hfree, hfits, rfl, fun c hc hcfree hcfits => ?_,
    hcut, (hcut.bounds hfits).1, (hcut.bounds hfits).2, hblocks, ?_,
    malloc_outside hrep hpos hb halloc hreturns⟩
  · -- No block before `b` fits, and those behind it are higher.
    rw [hlist] at hc
    rcases List.mem_append.mp hc with hc | hc
    · exact absurd (hbefore c hc hcfree) (Nat.not_lt.mpr hcfits)
    · rcases List.mem_cons.mp hc with rfl | hc
      · exact Nat.le_refl _
      · have hpairs : (before ++ b :: after).Pairwise fun c d =>
            c.addr + headerSize + c.size ≤ d.addr := by
          rw [← hlist]
          exact placed_pairwise bs heapStart
        have := (List.pairwise_cons.mp (List.pairwise_append.mp hpairs).2.1).1 c hc
        omega
  · rw [hlist]
    exact hcut.freeTotal hfree before after

/-- `malloc` is first fit on the block list: it returns 0 exactly if no free block
has the size asked for, rounded up to a multiple of 8, and then changes nothing;
else it takes the lowest of the blocks that have it. -/
theorem malloc_first_fit {s : Session} (h : Reachable s) {n : Nat} (hpos : 1 ≤ n)
    (hn : n ≤ 0xFFFFFFF8) :
    ∃ l r, HasBlocks s.heap l ∧ Returns s.heap (.malloc n) r ∧
      (r.ptr = 0 ↔ ∀ c ∈ l, c.isFree = true → c.size < (n + 7) / 8 * 8) ∧
      (r.ptr = 0 → r.heap = s.heap) ∧
      (r.ptr ≠ 0 → ∃ before b after size rest,
        Took ((n + 7) / 8 * 8) s.heap l r before b after size rest) := by
  obtain ⟨bs, hbs⟩ := describes_of_reachable h
  have hround : roundUp n = (n + 7) / 8 * 8 := by
    unfold roundUp word
    omega
  have hnz : n ≠ 0 := by omega
  have hspec := malloc_spec hbs.rep hnz hn
  have hnone := allocated_eq_none_iff (n := n) bs
  rw [← hround]
  cases halloc : allocated n bs with
  | none =>
      rw [halloc] at hspec
      refine ⟨_, _, hbs.rep.hasBlocks, ⟨_, hspec⟩, ?_, fun _ => rfl, fun hne => absurd rfl hne⟩
      exact ⟨fun _ => hnone.mp halloc, fun _ => rfl⟩
  | some found =>
      obtain ⟨p, bs'⟩ := found
      rw [halloc] at hspec
      obtain ⟨m, hrun, hrep, _⟩ := hspec
      have hreturns : Returns s.heap (.malloc n) ⟨p, false, { s.heap with mem := m }⟩ := ⟨_, hrun⟩
      obtain ⟨size, _, hlow, _⟩ := hbs.rep.allocated_bounds halloc
      have hpz : p ≠ 0 := by
        have hhd : headerSize = 16 := rfl
        omega
      refine ⟨_, _, hbs.rep.hasBlocks, hreturns, ⟨fun hz => absurd hz hpz, fun hall => ?_⟩,
        fun hz => absurd hz hpz, fun _ => hbs.rep.took hnz halloc hreturns hrep⟩
      exact absurd (halloc.symm.trans (hnone.mpr hall)) (by simp)

theorem malloc_first_fit_firstSession :
    ∃ l r, HasBlocks firstSession.heap l ∧ Returns firstSession.heap (.malloc 30) r ∧
      (r.ptr ≠ 0 → ∃ before b after size rest,
        Took 32 firstSession.heap l r before b after size rest) := by
  obtain ⟨l, r, hl, hr, _, _, htook⟩ :=
    malloc_first_fit reachable_firstSession (n := 30) (by decide) (by decide)
  exact ⟨l, r, hl, hr, htook⟩

/-! ## `realloc` -/

/-- A block in use for the pointer `p`, with `size` bytes. -/
def InUse (l : List Place) (p size : Nat) : Prop := (⟨p - headerSize, size, false⟩ : Place) ∈ l

theorem Describes.inUse {s : Session} {bs : List (Blk Nat)} (h : Describes bs s) {p : Nat}
    {u : Nat × Nat} (hu : owned bs p = some u) :
    InUse (placed headerSize heapStart bs) p (regionSize s.heap.mem p) := by
  rw [InUse, h.regionSize_eq hu]
  exact mem_placed_of_usedAt hu

/-- After `free(p)` the block of `p` lies in a free block. -/
theorem covered_freed {p : Nat} {u : Nat × Nat} {bs : List (Blk Nat)} (hu : owned bs p = some u) :
    ∃ d ∈ placed headerSize heapStart (freed p bs),
      Covers headerSize d ⟨p - headerSize, u.1, true⟩ := by
  have hmem : (⟨p - headerSize, u.1, true⟩ : Place) ∈
      placed headerSize heapStart (assign headerSize p none heapStart bs) :=
    mem_placed_assign (o := none) hu
  rw [freed]
  cases hrow : assign headerSize p none heapStart bs with
  | nil =>
      rw [hrow] at hmem
      exact absurd hmem (by simp [placed])
  | cons b rest =>
      rw [hrow] at hmem
      exact covered_merge rest heapStart b _ hmem rfl

/-- What a `realloc(p, n)` did that returned a new block. -/
structure Moved (s : Session) (p n : Nat) (r : Reply) (l : List Place) : Prop where
  blocks : HasBlocks r.heap l
  /-- the new block is another one than `p`'s and than every block in use before -/
  other : r.ptr ≠ p
  fresh : s.live r.ptr = none
  inUse : InUse l r.ptr (regionSize r.heap.mem r.ptr)
  enough : n ≤ regionSize r.heap.mem r.ptr
  copied : ∀ k, k < regionSize s.heap.mem p → r.heap.mem (r.ptr + k) = s.heap.mem (p + k)
  /-- the block of `p` lies in a free block -/
  released : ∃ d ∈ l, Covers headerSize d ⟨p - headerSize, regionSize s.heap.mem p, true⟩
  /-- every other block stays as it was -/
  others : ∀ q, s.live q ≠ none → q ≠ p → InUse l q (regionSize s.heap.mem q) ∧
    ∀ x, InRegion s.heap.mem q x → r.heap.mem x = s.heap.mem x

theorem Describes.moved {s : Session} {bs bs₁ : List (Blk Nat)} (h : Describes bs s)
    {p q n room : Nat} {u : Nat × Nat} (hu : owned bs p = some u) {m : Mem} (hroom : n ≤ room)
    (hfresh : owned bs q = none)
    (howned : owned bs₁ = Function.update (owned bs) q (some (room, n)))
    (hafter : Describes (freed p bs₁) ⟨{ s.heap with mem := m },
      Function.update (Function.update s.live p none) q (some n)⟩)
    (hothers : ∀ y v, owned bs y = some v → ∀ x, InRegion s.heap.mem y x → m x = s.heap.mem x)
    (hcopied : ∀ k, k < u.1 → m (q + k) = s.heap.mem (p + k)) :
    Moved s p n ⟨q, false, { s.heap with mem := m }⟩
      (placed headerSize heapStart (freed p bs₁)) := by
  obtain ⟨hne, hu₁⟩ := owned_kept hfresh howned hu
  have hfreed := owned_freed hu₁
  have hq : owned (freed p bs₁) q = some (room, n) := by
    rw [hfreed, Function.update_of_ne hne.symm, howned, Function.update_self]
  refine ⟨hafter.rep.hasBlocks, hne.symm, ?_, hafter.inUse hq, ?_, ?_, ?_,
    fun y hy hyp => ⟨?_, ?_⟩⟩
  · rw [h.live, hfresh, Option.map_none]
  · rw [hafter.regionSize_eq hq]
    exact hroom
  · rw [h.regionSize_eq hu]
    exact hcopied
  · rw [h.regionSize_eq hu]
    exact covered_freed hu₁
  · obtain ⟨v, hv⟩ := h.owned_of_live hy
    have hkept : owned (freed p bs₁) y = some v := by
      rw [hfreed, Function.update_of_ne hyp]
      exact (owned_kept hfresh howned hv).2
    rw [InUse, h.regionSize_eq hv]
    exact mem_placed_of_usedAt hkept
  · obtain ⟨v, hv⟩ := h.owned_of_live hy
    exact hothers y v hv

/-- The three ways a `realloc` of a pointer that is held can go. -/
theorem Describes.realloc_result {s : Session} {bs : List (Blk Nat)} (h : Describes bs s)
    {p n : Nat} {u : Nat × Nat} (hu : owned bs p = some u) (hnz : n ≠ 0) (hn : n ≤ 0xFFFFFFF8) :
    ∃ r, Returns s.heap (.realloc p n) r ∧
      ((n ≤ regionSize s.heap.mem p ∧ r.ptr = p ∧ r.heap = s.heap) ∨
        (regionSize s.heap.mem p < n ∧ r.ptr = 0 ∧ r.heap = s.heap) ∨
        (regionSize s.heap.mem p < n ∧ r.ptr ≠ 0 ∧ ∃ l, Moved s p n r l)) := by
  have hsize := h.regionSize_eq hu
  by_cases hfits : n ≤ u.1
  · exact ⟨_, (h.outcome_realloc_fits hu hnz hfits).returns, .inl ⟨by omega, rfl, rfl⟩⟩
  · rcases h.realloc_cases hu hnz (by omega) hn with
      hnone | ⟨q, room, bs₁, m, hreturns, hroom, hfresh, howned, hafter, hothers, hcopied⟩
    · exact ⟨_, hnone, .inr (.inl ⟨by omega, rfl, rfl⟩)⟩
    · have hqz : q ≠ 0 := by
        obtain ⟨v, hv⟩ := hafter.owned_of_live (p := q) (by simp)
        exact hafter.ne_zero hv
      exact ⟨_, hreturns, .inr (.inr ⟨by omega, hqz, _,
        h.moved hu hroom hfresh howned hafter hothers hcopied⟩)⟩

/-- `realloc` of a pointer that is held: the pointer itself if its block is large
enough; else 0, and nothing has changed, or a new block. -/
theorem realloc_contract {s : Session} (h : Reachable s) {p n : Nat} (hp : s.live p ≠ none)
    (hpos : 1 ≤ n) (hn : n ≤ 0xFFFFFFF8) :
    ∃ l r, HasBlocks s.heap l ∧ InUse l p (regionSize s.heap.mem p) ∧
      Returns s.heap (.realloc p n) r ∧
      (n ≤ regionSize s.heap.mem p → r.ptr = p ∧ r.heap = s.heap) ∧
      (r.ptr = 0 → r.heap = s.heap) ∧
      (regionSize s.heap.mem p < n → r.ptr ≠ 0 → ∃ l', Moved s p n r l') := by
  obtain ⟨bs, hbs⟩ := describes_of_reachable h
  obtain ⟨u, hu⟩ := hbs.owned_of_live hp
  obtain ⟨r, hr, hresult⟩ := hbs.realloc_result hu (by omega) hn
  refine ⟨_, r, hbs.rep.hasBlocks, hbs.inUse hu, hr, ?_⟩
  rcases hresult with ⟨hfits, hptr, hheap⟩ | ⟨hsmall, hptr, hheap⟩ | ⟨hsmall, hptr, hmoved⟩
  · exact ⟨fun _ => ⟨hptr, hheap⟩, fun _ => hheap, fun hsmall => absurd hsmall (by omega)⟩
  · exact ⟨fun hfits => absurd hfits (by omega), fun _ => hheap, fun _ hne => absurd hptr hne⟩
  · exact ⟨fun hfits => absurd hfits (by omega), fun hz => absurd hz hptr, fun _ _ => hmoved⟩

theorem realloc_contract_firstSession :
    ∃ l r, HasBlocks firstSession.heap l ∧
      Returns firstSession.heap (.realloc 0x800010 200) r ∧
      (regionSize firstSession.heap.mem 0x800010 < 200 → r.ptr ≠ 0 →
        ∃ l', Moved firstSession 0x800010 200 r l') := by
  have hlive : firstSession.live 0x800010 = some 100 := rfl
  obtain ⟨l, r, hl, _, hr, _, _, hmoved⟩ :=
    realloc_contract reachable_firstSession (p := 0x800010) (n := 200) (by simp [hlive])
      (by decide) (by decide)
  exact ⟨l, r, hl, hr, hmoved⟩

end FalastinOS.Heap
