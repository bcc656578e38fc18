/-
  Net/Output.lean --- the send path of `lwip_port.c`.

  lwIP hands a packet to `low_level_output` as a chain of buffers.  The port gathers them in
  a buffer of `tot_len` bytes on the heap, passes it to `rtl8139_send_packet` and frees it.

  `outputs_gathered` follows any packets, with any other calls of the allocator between
  them: what the driver gets is the packets in their order, each as a whole, but for those
  that found no room; nothing is stored outside the buffer, and the heap is as before.
-/
import FalastinOS.Foundation.Ring
import FalastinOS.Heap.Borrow
import FalastinOS.Net.Http

set_option autoImplicit false

namespace FalastinOS.Net

open FalastinOS.Foundation FalastinOS.Heap

/-! ## The code -/

/-- What `low_level_output` returns. -/
inductive OutputErr where
  | errOk
  | errMem
  | errIf
  deriving DecidableEq, Repr

/-- `for (q = p; q != NULL; q = q->next)`: the memory and `len` after the buffers. -/
def gather (buffer : Nat) : Mem → Nat → List (List UInt8) → Mem × Nat
  | m, len, [] => (m, len)
  | m, len, payload :: rest =>
      gather buffer (m.blit (buffer + len) payload) (len + payload.length) rest

/-- The heap, `lwip_ready`, and the frames that `rtl8139_send_packet` was given. -/
structure Link where
  heap : HeapState
  lwipReady : Bool
  handed : List (List UInt8)

/-- `low_level_output(netif, p)`. -/
def lowLevelOutput (fuel : Nat) (s : Link) (p : Chain) : Option (OutputErr × Link) :=
  if !s.lwipReady then some (.errIf, s)
  else do
    let r ← malloc fuel s.heap p.totLen
    if r.ptr = 0 then return (.errMem, { s with heap := r.heap })
    else
      let gathered := gather r.ptr r.heap.mem 0 (p.first :: p.rest)
      let frame := gathered.1.slice r.ptr gathered.2
      let d ← free fuel { r.heap with mem := gathered.1 } r.ptr
      return (.errOk, { s with heap := d.heap, handed := s.handed ++ [frame] })

/-- The call returns, with `err` and `s'`. -/
def Outputs (s : Link) (p : Chain) (err : OutputErr) (s' : Link) : Prop :=
  ∃ n, ∀ fuel, n < fuel → lowLevelOutput fuel s p = some (err, s')

/-! ## Packets -/

/-- The payloads are copied one behind the other. -/
theorem gather_eq (buffer : Nat) (parts : List (List UInt8)) : ∀ (m : Mem) (len : Nat),
    gather buffer m len parts =
      (m.blit (buffer + len) parts.flatten, len + parts.flatten.length) := by
  induction parts with
  | nil =>
      intro m len
      have hnone : m.blit (buffer + len) [] = m :=
        funext fun x => Mem.blit_outside _ (by simp; omega)
      rw [List.flatten_nil, hnone]
      rfl
  | cons payload rest ih =>
      intro m len
      rw [gather, ih, List.flatten_cons, ← Nat.add_assoc, Mem.blit_append, List.length_append,
        Nat.add_assoc]

variable {s : Link} {live : Live} {p : Chain}

/-- Without room for a packet, or with nothing in it, nothing happens. -/
theorem outputs_errMem (hready : s.lwipReady = true) {r : Reply}
    (hmalloc : Returns s.heap (.malloc p.totLen) r) (hnull : r.ptr = 0) (hheap : r.heap = s.heap) :
    Outputs s p .errMem s := by
  obtain ⟨n, hmalloc⟩ := hmalloc
  refine ⟨n, fun fuel hfuel => ?_⟩
  have hrun : malloc fuel s.heap p.totLen = some r := hmalloc fuel hfuel
  rw [lowLevelOutput, if_neg (by simp [hready]), hrun]
  simp only [Option.bind_eq_bind, Option.bind_some, hnull, if_true, hheap]
  rfl

/-- With room the packet is handed over as a whole. -/
theorem outputs_errOk (hready : s.lwipReady = true) {r d : Reply}
    (hmalloc : Returns s.heap (.malloc p.totLen) r) (hptr : r.ptr ≠ 0)
    (hfree : Returns { r.heap with mem := r.heap.mem.blit r.ptr p.payload } (.free r.ptr) d) :
    Outputs s p .errOk { s with heap := d.heap, handed := s.handed ++ [p.payload] } := by
  obtain ⟨n, hmalloc⟩ := hmalloc
  obtain ⟨n', hfree⟩ := hfree
  refine ⟨max n n', fun fuel hfuel => ?_⟩
  have hrun : malloc fuel s.heap p.totLen = some r := hmalloc fuel (by omega)
  have hrun' : free fuel { r.heap with mem := r.heap.mem.blit r.ptr p.payload } r.ptr = some d :=
    hfree fuel (by omega)
  have hgather : gather r.ptr r.heap.mem 0 (p.first :: p.rest) =
      (r.heap.mem.blit r.ptr p.payload, p.payload.length) := by
    rw [gather_eq, Nat.add_zero, Nat.zero_add]
    rfl
  rw [lowLevelOutput, if_neg (by simp [hready]), hrun]
  simp only [Option.bind_eq_bind, Option.bind_some, if_neg hptr, hgather, hrun', Mem.slice_blit]
  rfl

/-- One packet. -/
theorem exists_outputs (hready : s.lwipReady = true) (hreach : Reachable ⟨s.heap, live⟩)
    (hlen : p.totLen ≤ 0xFFFFFFF8) :
    (p.payload = [] ∨ NoRoom s.heap (roundUp p.totLen) → Outputs s p .errMem s) ∧
      (¬ (p.payload = [] ∨ NoRoom s.heap (roundUp p.totLen)) → ∃ heap,
        Outputs s p .errOk { s with heap := heap, handed := s.handed ++ [p.payload] } ∧
          Restored ⟨s.heap, live⟩ heap) := by
  by_cases hempty : p.payload = []
  · have hzero : p.totLen = 0 := by rw [Chain.totLen_eq, hempty, List.length_nil]
    have hmalloc : Returns s.heap (.malloc p.totLen) ⟨0, false, s.heap⟩ :=
      ⟨0, fun fuel _ => by rw [Call.exec, malloc, if_pos (.inr hzero)]⟩
    exact ⟨fun _ => outputs_errMem hready hmalloc rfl rfl, fun hno => absurd (.inl hempty) hno⟩
  · have hpos : 1 ≤ p.totLen := by
      rw [Chain.totLen_eq]
      exact List.length_pos_iff.mpr hempty
    obtain ⟨r, hmalloc, hroom, hsame, hborrow⟩ := hreach.borrow hpos hlen
    by_cases hnull : r.ptr = 0
    · exact ⟨fun _ => outputs_errMem hready hmalloc hnull (hsame hnull),
        fun hno => absurd (.inr (hroom.mp hnull)) hno⟩
    · have hborrowed := hborrow hnull
      have houtside : ∀ x, x < r.ptr ∨ r.ptr + p.totLen ≤ x →
          r.heap.mem.blit r.ptr p.payload x = r.heap.mem x := by
        intro x hx
        rw [Chain.totLen_eq] at hx
        exact Mem.blit_outside _ hx
      obtain ⟨d, hfree, hrestored⟩ := hborrowed.giveBack _ _ houtside
        (hborrowed.lend _ houtside).1.restored
      refine ⟨fun hno => ?_, fun _ => ⟨d.heap, outputs_errOk hready hmalloc hnull hfree, hrestored⟩⟩
      exact absurd (hroom.mpr (hno.resolve_left hempty)) hnull

/-! ## Any packets -/

/-- What is left of packets that were given to the port, with anything else on the heap: `sent`
are those for which it returned `ERR_OK`, and `live` is what others hold. -/
inductive Reached : Link → Live → List Chain → Prop where
  | start (h : HeapState) : Reached ⟨heapInit h, false, []⟩ (fun _ => none) []
  /-- `lwip_init_port()` -/
  | ready {s : Link} {live : Live} {sent : List Chain} : Reached s live sent →
      Reached { s with lwipReady := true } live sent
  | heap {s : Link} {live : Live} {sent : List Chain} {h : HeapState} {live' : Live} :
      Reached s live sent → Reachable ⟨h, live'⟩ → Reached { s with heap := h } live' sent
  | output {s s' : Link} {live : Live} {sent : List Chain} {p : Chain} {err : OutputErr} :
      Reached s live sent → p.totLen < 2 ^ 16 → Outputs s p err s' →
      Reached s' live (if err = .errOk then sent ++ [p] else sent)

theorem Outputs.unique {s s' t : Link} {p : Chain} {err err' : OutputErr}
    (h : Outputs s p err s') (ht : Outputs s p err' t) : err = err' ∧ s' = t := by
  obtain ⟨n, hn⟩ := h
  obtain ⟨k, hk⟩ := ht
  have hs := hn (max n k + 1) (by omega)
  rw [hk (max n k + 1) (by omega)] at hs
  obtain ⟨herr, hlink⟩ := Prod.mk.inj (Option.some.inj hs)
  exact ⟨herr.symm, hlink.symm⟩

/-- What a call does in every case. -/
theorem outputs_cases (hreach : Reachable ⟨s.heap, live⟩) (hlen : p.totLen < 2 ^ 16) :
    ∃ err s', Outputs s p err s' ∧ Restored ⟨s.heap, live⟩ s'.heap ∧
      (err = .errOk ↔ s.lwipReady = true ∧ p.payload ≠ [] ∧
        ¬ NoRoom s.heap (roundUp p.totLen)) ∧
      s'.handed = if err = .errOk then s.handed ++ [p.payload] else s.handed := by
  by_cases hready : s.lwipReady = true
  · obtain ⟨hrefused, hsent⟩ := exists_outputs hready hreach (p := p) (by omega)
    by_cases hno : p.payload = [] ∨ NoRoom s.heap (roundUp p.totLen)
    · refine ⟨.errMem, s, hrefused hno, hreach.restored, ⟨nofun, fun h => ?_⟩, rfl⟩
      exact (hno.elim h.2.1 h.2.2).elim
    · obtain ⟨heap, houtputs, hrestored⟩ := hsent hno
      rw [not_or] at hno
      exact ⟨.errOk, _, houtputs, hrestored, ⟨fun _ => ⟨hready, hno⟩, fun _ => rfl⟩, rfl⟩
  · have hrun : Outputs s p .errIf s :=
      ⟨0, fun fuel _ => by rw [lowLevelOutput, if_pos (by simpa using hready)]⟩
    exact ⟨.errIf, s, hrun, hreach.restored, ⟨nofun, fun h => absurd h.1 hready⟩, rfl⟩

/-- Whatever packets were given to the port and whatever else was done on the heap: the frames
the driver got are the packets that were accepted, whole and in order.  Any further packet is
accepted exactly if lwIP is ready, it is not empty and there is room for it, and the call leaves
the heap as it was for everybody who holds a part of it. -/
theorem outputs_gathered {sent : List Chain} (h : Reached s live sent) :
    s.handed = sent.map Chain.payload ∧
      ∀ p : Chain, p.totLen < 2 ^ 16 → ∃ err s', Outputs s p err s' ∧
        Restored ⟨s.heap, live⟩ s'.heap ∧
        (err = .errOk ↔ s.lwipReady = true ∧ p.payload ≠ [] ∧
          ¬ NoRoom s.heap (roundUp p.totLen)) := by
  have hkept : s.handed = sent.map Chain.payload ∧ Reachable ⟨s.heap, live⟩ := by
    induction h with
    | start h => exact ⟨rfl, .init h⟩
    | ready _ ih => exact ih
    | heap _ hreach ih => exact ⟨ih.1, hreach⟩
    | output _ hlen houtputs ih =>
        obtain ⟨err, s', houtputs', hrestored, -, hhanded⟩ := outputs_cases ih.2 hlen
        obtain ⟨rfl, rfl⟩ := houtputs.unique houtputs'
        refine ⟨?_, hrestored.reachable⟩
        rw [hhanded, ih.1]
        split
        · rw [List.map_append, List.map_singleton]
        · rfl
  refine ⟨hkept.1, fun p hlen => ?_⟩
  obtain ⟨err, s', houtputs, hrestored, hiff, -⟩ := outputs_cases hkept.2 hlen
  exact ⟨err, s', houtputs, hrestored, hiff⟩

/-- lwIP is set up, and a packet in two buffers is given to the port. -/
theorem outputs_gathered_two :
    let s : Link := ⟨heapInit blankHeap, true, []⟩
    s.handed = [] ∧ ∃ err s', Outputs s ⟨[1, 2, 3], [[4, 5]]⟩ err s' ∧
      Restored ⟨heapInit blankHeap, fun _ => none⟩ s'.heap := by
  intro s
  obtain ⟨hhanded, hnext⟩ := outputs_gathered (.ready (.start blankHeap))
  obtain ⟨err, s', houtputs, hrestored, -⟩ := hnext ⟨[1, 2, 3], [[4, 5]]⟩ (by decide)
  exact ⟨hhanded, err, s', houtputs, hrestored⟩

end FalastinOS.Net
