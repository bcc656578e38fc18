/-
  Heap/Borrow.lean --- memory that is allocated for a while.

  Some callers take a buffer, fill it, use it and free it: `low_level_output` gathers a
  packet in one, and `gamemode.c` keeps the screen in one.  `Reachable.borrow` is the whole
  life of such a buffer, in any session: either there is no room and nothing happens, or
  the buffer lies apart from every allocation that is held, and after anything was stored in
  it and it was freed the heap is what it was, block by block, for everybody else.
-/
import FalastinOS.Heap.Sizes

set_option autoImplicit false

namespace FalastinOS.Heap

open FalastinOS.Foundation FalastinOS.Foundation.Arena

/-- A heap that serves the allocations of the session as before. -/
structure Restored (s : Session) (h : HeapState) : Prop where
  reachable : Reachable ⟨h, s.live⟩
  sizes : Session.liveBlocks ⟨h, s.live⟩ = s.liveBlocks
  regions : ∀ p, s.live p ≠ none → ∀ x, InRegion s.heap.mem p x → h.mem x = s.heap.mem x

/-- The session with a buffer of `n` bytes and memory `m`. -/
def Session.lent (s : Session) (n : Nat) (r : Reply) (m : Mem) : Session :=
  ⟨{ r.heap with mem := m }, Function.update s.live r.ptr (some n)⟩

/-- A buffer of `n` bytes that nobody else holds.  Whatever is stored in it and whatever others
do to the heap, as long as they leave it as they found it, it can be given back. -/
structure Borrowed (s : Session) (n : Nat) (r : Reply) : Prop where
  inside : heapStart ≤ r.ptr ∧ r.ptr + n ≤ heapEnd
  lend : ∀ m : Mem, (∀ x, x < r.ptr ∨ r.ptr + n ≤ x → m x = r.heap.mem x) →
    Reachable (s.lent n r m) ∧ n ≤ regionSize m r.ptr
  giveBack : ∀ (m : Mem) (h : HeapState), (∀ x, x < r.ptr ∨ r.ptr + n ≤ x → m x = r.heap.mem x) →
    Restored (s.lent n r m) h → ∃ f, Returns h (.free r.ptr) f ∧ Restored s f.heap

theorem Session.lent_held (s : Session) (n : Nat) (r : Reply) (m : Mem) :
    (s.lent n r m).live r.ptr ≠ none := by
  have hheld : (s.lent n r m).live r.ptr = some n := Function.update_self ..
  rw [hheld]
  exact Option.some_ne_none n

variable {s : Session}

theorem Reachable.restored (h : Reachable s) : Restored s s.heap := ⟨h, rfl, fun _ _ _ _ => rfl⟩

/-- The block list is as before, too. -/
theorem Restored.blocks {h : HeapState} (hs : Reachable s) (hrestored : Restored s h)
    {l : List Place} (hl : HasBlocks s.heap l) : HasBlocks h l :=
  hs.same_blocks hrestored.reachable hrestored.sizes.symm hl

theorem Restored.regionSize_eq {h : HeapState} (hrestored : Restored s h) {p : Nat}
    (hp : s.live p ≠ none) : regionSize h.mem p = regionSize s.heap.mem p := by
  obtain ⟨n, hn⟩ := Option.ne_none_iff_exists'.mp hp
  have hsize := congrFun hrestored.sizes p
  simp only [Session.liveBlocks, hn, Option.map_some] at hsize
  exact Option.some.inj hsize

theorem Restored.inRegion_iff {h : HeapState} (hrestored : Restored s h) {p x : Nat}
    (hp : s.live p ≠ none) : InRegion h.mem p x ↔ InRegion s.heap.mem p x := by
  rw [InRegion, InRegion, hrestored.regionSize_eq hp]

/-- Any bytes can be stored where an allocation was asked for. -/
theorem Reachable.rewrite (h : Reachable s) {p n : Nat} (hp : s.live p = some n) {m : Mem}
    (houtside : ∀ x, x < p ∨ p + n ≤ x → m x = s.heap.mem x) :
    Reachable ⟨{ s.heap with mem := m }, s.live⟩ := by
  obtain ⟨bs, hbs⟩ := describes_of_reachable h
  obtain ⟨u, hu⟩ := hbs.owned_of_live (p := p) (by simp [hp])
  have hn : n ≤ u.1 := by
    have hlive := hbs.live p
    rw [hp, hu] at hlive
    rw [Option.some.inj hlive]
    exact hbs.rep.enough p u hu
  have hpart : ∀ k ≤ n, Reachable ⟨{ s.heap with
      mem := fun x => if p ≤ x ∧ x < p + k then m x else s.heap.mem x }, s.live⟩ := by
    intro k
    induction k with
    | zero =>
        intro _
        have hsame : (fun x => if p ≤ x ∧ x < p + 0 then m x else s.heap.mem x) = s.heap.mem :=
          funext fun x => if_neg (by omega)
        rw [hsame]
        exact h
    | succ k ih =>
        intro hk
        have hstored := hbs.rewrite hu
          (m := fun x => if p ≤ x ∧ x < p + k then m x else s.heap.mem x)
          fun x hx => if_neg (by omega)
        have hnext := (ih (by omega)).store (m (p + k)) (show s.live p ≠ none by simp [hp])
          ((hstored.inRegion_iff hu).mpr (show p ≤ p + k ∧ p + k < p + u.1 by omega))
        have hsame : Mem.writeByte (fun x => if p ≤ x ∧ x < p + k then m x else s.heap.mem x)
            (p + k) (m (p + k)) = fun x => if p ≤ x ∧ x < p + (k + 1) then m x
              else s.heap.mem x := by
          funext x
          by_cases hx : x = p + k
          · rw [hx, Mem.writeByte_self, if_pos (by omega)]
          · rw [Mem.writeByte_of_ne _ _ hx]
            exact if_congr (by omega) rfl rfl
        rw [← hsame]
        exact hnext
  have hall := hpart n (Nat.le_refl n)
  have hsame : (fun x => if p ≤ x ∧ x < p + n then m x else s.heap.mem x) = m := by
    funext x
    split
    · rfl
    · exact (houtside x (by omega)).symm
  rw [hsame] at hall
  exact hall

/-- A pointer that is held can be freed, and no other region changes. -/
theorem Reachable.free_keeps (h : Reachable s) {p : Nat} (hp : s.live p ≠ none) :
    ∃ f, Returns s.heap (.free p) f ∧ Reachable ⟨f.heap, Function.update s.live p none⟩ ∧
      Session.liveBlocks ⟨f.heap, Function.update s.live p none⟩ =
        Function.update s.liveBlocks p none ∧
      ∀ q, s.live q ≠ none → ∀ x, InRegion s.heap.mem q x → f.heap.mem x = s.heap.mem x := by
  obtain ⟨bs, hbs⟩ := describes_of_reachable h
  obtain ⟨f, hfree, hreach, hblocks⟩ := h.free hp
  obtain ⟨f', hzero, houtcome⟩ := hbs.outcome_free (.inr hp)
  obtain rfl := hfree.unique houtcome.returns
  refine ⟨f, hfree, hreach, hblocks, fun q hq x hx => houtcome.frame.others q hq ?_ x hx⟩
  obtain ⟨v, hv⟩ := hbs.owned_of_live hq
  rw [hzero]
  exact hbs.ne_zero hv

/-- What is known of a buffer when `malloc` has taken a block for it. -/
theorem Describes.borrowed {bs bs' : List (Blk Nat)} {p size n : Nat} {m : Mem}
    (hreach : Reachable s) (h : Describes bs s) (hn : n ≤ 0xFFFFFFF8)
    (hreturns : Returns s.heap (.malloc n) ⟨p, false, { s.heap with mem := m }⟩)
    (hsize : n ≤ size) (hfresh : owned bs p = none)
    (howned : owned bs' = Function.update (owned bs) p (some (size, n)))
    (hrep : Rep { s.heap with mem := m } bs')
    (hsame : ∀ x, ¬ FreeByte headerSize heapStart bs x → m x = s.heap.mem x) :
    Borrowed s n ⟨p, false, { s.heap with mem := m }⟩ := by
  have hp : owned bs' p = some (size, n) := by rw [howned, Function.update_self]
  have hbounds := hrep.owned_bounds hp
  have hhd : headerSize = 16 := rfl
  have hpz : p ≠ 0 := by omega
  have hafter := h.gain hpz hrep howned
  have hnone : s.live p = none := by rw [h.live, hfresh, Option.map_none]
  have hlive : Heap.gain s.live p n = Function.update s.live p (some n) := if_neg hpz
  have hheld : Function.update s.live p (some n) p = some n := Function.update_self ..
  have hholds : Function.update s.live p (some n) p ≠ none := by
    rw [hheld]
    exact Option.some_ne_none n
  have hcall := hreach.call (c := .malloc n) hn hreturns
  simp only [Call.settle, hlive] at hcall hafter
  have hdesc : ∀ m' : Mem, (∀ x, x < p ∨ p + n ≤ x → m' x = m x) →
      Describes bs' ⟨{ s.heap with mem := m' }, Function.update s.live p (some n)⟩ :=
    fun m' hm' => hafter.rewrite hp fun x hx => hm' x (by omega)
  constructor
  · show heapStart ≤ p ∧ p + n ≤ heapEnd
    omega
  · intro m' hm'
    refine ⟨hcall.rewrite hheld hm', ?_⟩
    rw [(hdesc m' hm').regionSize_eq hp]
    exact hsize
  · intro m' h' hm' hrestored
    obtain ⟨f, hfree, hback, hblocks, hregions⟩ := hrestored.reachable.free_keeps (p := p) hholds
    have hgiven : Function.update (Session.lent s n ⟨p, false, { s.heap with mem := m }⟩ m').live p
        none = s.live := by
      rw [Session.lent, Function.update_idem, Function.update_eq_self_iff, hnone]
    simp only [hgiven] at hback hblocks
    refine ⟨f, hfree, hback, ?_, fun q hq x hx => ?_⟩
    · rw [hblocks, hrestored.sizes]
      funext q
      rw [Function.update_apply, Session.lent, (hdesc m' hm').liveBlocks_eq, howned,
        Function.update_apply, h.liveBlocks_eq]
      split
      · rename_i hq
        rw [hq, hfresh, Option.map_none]
      · rfl
    · -- The regions of the others are in blocks of their own, before the call and after it.
      obtain ⟨v, hv⟩ := h.owned_of_live hq
      obtain ⟨hne, hkept⟩ := owned_kept hfresh howned hv
      have hinside := (h.inRegion_iff hv).mp hx
      have hbeside : x < p ∨ p + size ≤ x := owned_apart hp hkept hne hinside
      have houtside : x < p ∨ p + n ≤ x := by omega
      have hlater : Function.update s.live p (some n) q ≠ none := by
        rwa [Function.update_of_ne hne]
      have hregion := ((hdesc m' hm').inRegion_iff hkept).mpr hinside
      calc f.heap.mem x = h'.mem x :=
            hregions q hlater x ((hrestored.inRegion_iff hlater).mpr hregion)
        _ = m' x := hrestored.regions q hlater x hregion
        _ = m x := hm' x houtside
        _ = s.heap.mem x := hsame x (h.region_bytes hv hx).2

/-- The life of a buffer. -/
theorem Reachable.borrow (h : Reachable s) {n : Nat} (hpos : 1 ≤ n) (hn : n ≤ 0xFFFFFFF8) :
    ∃ r, Returns s.heap (.malloc n) r ∧ (r.ptr = 0 ↔ NoRoom s.heap (roundUp n)) ∧
      (r.ptr = 0 → r.heap = s.heap) ∧ (r.ptr ≠ 0 → Borrowed s n r) := by
  obtain ⟨bs, hbs⟩ := describes_of_reachable h
  have hzero : n ≠ 0 := by omega
  have hspec := malloc_spec hbs.rep hzero hn
  rw [hbs.rep.noRoom_iff n]
  cases halloc : allocated n bs with
  | none =>
      rw [halloc] at hspec
      exact ⟨_, ⟨_, hspec⟩, ⟨fun _ => rfl, fun _ => rfl⟩, fun _ => rfl, fun hptr => absurd rfl hptr⟩
  | some found =>
      obtain ⟨p, bs'⟩ := found
      rw [halloc] at hspec
      obtain ⟨m, hrun, hrep, hsame⟩ := hspec
      obtain ⟨size, hsize, hnone, howned⟩ := Rep.owned_allocated hn halloc
      have hp : owned bs' p = some (size, n) := by rw [howned, Function.update_self]
      have hbounds := hrep.owned_bounds hp
      have hhd : headerSize = 16 := rfl
      have hpz : p ≠ 0 := by omega
      have hreturns : Returns s.heap (.malloc n) ⟨p, false, { s.heap with mem := m }⟩ := ⟨_, hrun⟩
      exact ⟨_, hreturns, ⟨fun hptr => absurd hptr hpz, nofun⟩, fun hptr => absurd hptr hpz,
        fun _ => hbs.borrowed h hn hreturns hsize hnone howned hrep hsame⟩

end FalastinOS.Heap
