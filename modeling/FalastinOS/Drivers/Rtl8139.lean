/-
  Drivers/Rtl8139.lean --- the receive ring of `rtl8139.c`.

  The card and the driver share 8192 bytes.  The card writes each frame at its own
  offset, as a header (status and length), the frame and its checksum, and moves on to
  the next multiple of 4, modulo 8192; its offset is the register CBR.  The driver
  follows with `rx_offset`, which it computes by itself from the lengths it reads.

  The driver sets RCR_WRAP, so the card writes a frame straight on past the last byte of
  the ring; and the driver reads it straight on.  What the two disagree on is the offset
  after such a frame: the card takes it modulo 8192, and the driver starts again at 0.
  `inStep_iff_unsplit` says that this is the only way they get out of step.
-/
import FalastinOS.Foundation.Execution
import FalastinOS.Foundation.Ring

set_option autoImplicit false

namespace FalastinOS.Drivers

open FalastinOS.Foundation

/-! ## The driver -/

/-- `RX_BUF_SIZE`. -/
def rxBufSize : Nat := 8192

/-- The driver's variables, the memory from `rx_buffer` on, and the two registers of the
card that concern the ring. -/
structure Rtl8139 where
  rtlInitialized : Bool
  rxBuffer : Mem
  rxOffset : Nat
  cbr : Nat
  capr : Nat

namespace Rtl8139

/-- Set `rx_offset` and tell the card: `outw(RTL_CAPR, rx_offset - 0x10)`. -/
def advance (d : Rtl8139) (offset : Nat) : Rtl8139 :=
  { d with rxOffset := offset, capr := (offset + 65536 - 0x10) % 65536 }

/-- The ring after `rtl8139_init()`: the buffer is cleared, both offsets are 0 and CAPR is
0xFFF0. -/
def init (memory : Mem) : Rtl8139 where
  rtlInitialized := true
  rxBuffer := fun a => if a < rxBufSize + 16 then 0 else memory a
  rxOffset := 0
  cbr := 0
  capr := 0xFFF0

/-- What `rtl8139_receive_packet` returns and leaves in its buffer. -/
structure Reply where
  ret : Int
  data : List UInt8
  nic : Rtl8139

/-- `(x + 3) & ~3`. -/
def align4 (x : Nat) : Nat := (x + 3) / 4 * 4

/-- `rtl8139_receive_packet(buffer, max_len)`. -/
def receivePacket (d : Rtl8139) (maxLen : Nat) : Reply :=
  if !d.rtlInitialized || maxLen = 0 then ⟨-1, [], d⟩
  else if d.cbr = d.rxOffset then ⟨0, [], d⟩
  else
    let packetLen := d.rxBuffer.readLE 2 (d.rxOffset + 2)
    if packetLen < 4 then ⟨0, [], d⟩
    else
      let frameLen := packetLen - 4
      let frameLen := if frameLen > maxLen then maxLen % 65536 else frameLen
      let data := d.rxBuffer.slice (d.rxOffset + 4) frameLen
      let next := align4 (d.rxOffset + packetLen + 4) % 65536
      let next := if next ≥ rxBufSize then 0 else next
      ⟨frameLen, data, d.advance next⟩

/-- `rtl8139_packet_available()`. -/
def packetAvailable (d : Rtl8139) : Bool := d.rtlInitialized && d.cbr ≠ d.rxOffset

end Rtl8139

/-! ## The card -/

/-- A frame as it comes from the wire, with the status and the checksum the card adds. -/
structure Frame where
  bytes : List UInt8
  status : UInt16
  crc : Fin 4 → UInt8
  nonempty : 1 ≤ bytes.length
  lengthLe : bytes.length ≤ 1514

namespace Frame

/-- The length field: the frame and its checksum. -/
def lengthField (f : Frame) : Nat := f.bytes.length + 4

/-- The frame in the ring. -/
def record (f : Frame) : Record where
  bytes :=
    [UInt8.ofNat f.status.toNat, UInt8.ofNat (f.status.toNat / 256), UInt8.ofNat f.lengthField,
      UInt8.ofNat (f.lengthField / 256)] ++ f.bytes ++ List.ofFn f.crc
  stride := Rtl8139.align4 (f.bytes.length + 8)
  fits := by
    simp only [List.length_append, List.length_cons, List.length_nil, List.length_ofFn,
      Rtl8139.align4]
    omega

theorem stride_eq (f : Frame) : f.record.stride = Rtl8139.align4 (f.bytes.length + 8) := rfl

theorem length_record (f : Frame) : f.record.bytes.length = f.bytes.length + 8 := by
  simp [record]

end Frame

/-- The card writes a frame at its offset and moves on. -/
def Rtl8139.deviceWrite (d : Rtl8139) (f : Frame) : Rtl8139 :=
  { d with
    rxBuffer := d.rxBuffer.blit d.cbr f.record.bytes
    cbr := (d.cbr + f.record.stride) % rxBufSize }

/-! ## Traffic -/

/-- The ring, with a record of the frames that came from the wire and of those that the
calls of `rtl8139_receive_packet` returned. -/
structure Traffic where
  nic : Rtl8139
  received : List Frame
  returned : List (List UInt8)

namespace Traffic

/-- The card gets a frame, or the kernel calls `rtl8139_receive_packet(buffer, 2048)`. -/
inductive Event where
  | frame (f : Frame)
  | receive

/-- The ring has no room for the frame. -/
inductive Overfull where
  | full

/-- The frames that no call has returned yet. -/
def pending (s : Traffic) : List Frame := s.received.drop s.returned.length

/-- The room they take. -/
def occupied (s : Traffic) : Nat := (s.pending.map fun f => f.record.stride).sum

/-- A frame is written while it leaves the offset short of the first pending frame: a
ring filled to the last byte looks like an empty one, and the card counts it as an
overflow. -/
def step (s : Traffic) : Event → Except Overfull Traffic
  | .frame f =>
      if s.occupied + f.record.stride < rxBufSize then
        .ok { s with nic := s.nic.deviceWrite f, received := s.received ++ [f] }
      else .error .full
  | .receive =>
      let reply := s.nic.receivePacket 2048
      .ok { s with
        nic := reply.nic
        returned := if reply.ret > 0 then s.returned ++ [reply.data] else s.returned }

/-- The ring after `rtl8139_init()`. -/
def start (memory : Mem) : Traffic := ⟨Rtl8139.init memory, [], []⟩

/-- The next calls return these frames, one after the other, and then the offsets are the
same and no packet is reported. -/
def Returns : Rtl8139 → List Frame → Prop
  | d, [] => d.rxOffset = d.cbr ∧ d.packetAvailable = false
  | d, f :: fs =>
      (d.receivePacket 2048).ret = f.bytes.length ∧ (d.receivePacket 2048).data = f.bytes ∧
        Returns (d.receivePacket 2048).nic fs

/-- The calls so far have returned the first frames, in order, and the next calls will
return the others. -/
def InStep (s : Traffic) : Prop :=
  s.returned = (s.received.take s.returned.length).map Frame.bytes ∧ Returns s.nic s.pending

/-- The frame ends inside the ring. -/
def Unsplit (s : Traffic) : Event → Prop
  | .frame f => s.nic.cbr + f.record.stride ≤ rxBufSize
  | .receive => True

/-! ## One call and one frame -/

/-- The length field is read back. -/
theorem readLE_lengthField {m : Mem} {a : Nat} {f : Frame}
    (h : m.slice a f.record.bytes.length = f.record.bytes) :
    m.readLE 2 (a + 2) = f.lengthField := by
  rw [Mem.slice_eq_iff] at h
  have hlen := f.length_record
  have hle := f.lengthLe
  have hread : m.readLE 2 (a + 2) = f.lengthField % 256 ^ 2 := by
    refine Mem.readLE_of_bytes fun k hk => ?_
    obtain rfl | rfl : k = 0 ∨ k = 1 := by omega
    · simpa [Frame.record] using h 2 (by omega)
    · simpa [Frame.record] using h 3 (by omega)
  rw [hread, Nat.mod_eq_of_lt]
  simp only [Frame.lengthField]
  omega

/-- The frame is read back from behind its header. -/
theorem slice_frame {m : Mem} {a : Nat} {f : Frame}
    (h : m.slice a f.record.bytes.length = f.record.bytes) :
    m.slice (a + 4) f.bytes.length = f.bytes := by
  rw [Mem.slice_eq_iff] at h ⊢
  have hlen := f.length_record
  intro i hi
  have hbyte := h (i + 4) (by omega)
  rw [show a + 4 + i = a + (i + 4) by omega, hbyte]
  simp [Frame.record, List.getElem_append_left hi]

/-- Where the driver looks next. -/
def nextOffset (offset stride : Nat) : Nat :=
  if offset + stride ≥ rxBufSize then 0 else offset + stride

/-- After a frame that ends inside the ring the driver looks where the card writes. -/
theorem nextOffset_of_unsplit {p stride : Nat} (h : p % rxBufSize + stride ≤ rxBufSize) :
    nextOffset (p % rxBufSize) stride = (p + stride) % rxBufSize := by
  unfold nextOffset
  unfold rxBufSize at h ⊢
  by_cases hend : p % 8192 + stride ≥ 8192
  · rw [if_pos hend]
    omega
  · rw [if_neg hend]
    omega

/-- A call that finds a frame at `rx_offset` returns it. -/
theorem receivePacket_eq {d : Rtl8139} {f : Frame} (hinit : d.rtlInitialized = true)
    (hready : d.cbr ≠ d.rxOffset) (haligned : d.rxOffset % 4 = 0) (hlt : d.rxOffset < rxBufSize)
    (hslice : d.rxBuffer.slice d.rxOffset f.record.bytes.length = f.record.bytes) :
    d.receivePacket 2048 =
      ⟨f.bytes.length, f.bytes, d.advance (nextOffset d.rxOffset f.record.stride)⟩ := by
  have hle := f.lengthLe
  have hpacket := readLE_lengthField hslice
  have hnext : Rtl8139.align4 (d.rxOffset + f.lengthField + 4) % 65536 =
      d.rxOffset + f.record.stride := by
    simp only [rxBufSize, Frame.lengthField, Frame.stride_eq, Rtl8139.align4] at hlt ⊢
    omega
  have hfield : f.lengthField - 4 = f.bytes.length := by simp [Frame.lengthField]
  unfold Rtl8139.receivePacket
  rw [hinit, if_neg (by decide), if_neg hready]
  simp only [hpacket, hnext, hfield]
  rw [if_neg (by simp [Frame.lengthField]), if_neg (by omega), slice_frame hslice]
  rfl

theorem stride_pos (f : Frame) : 0 < f.record.stride := by
  rw [Frame.stride_eq, Rtl8139.align4]
  omega

theorem stride_aligned (f : Frame) : f.record.stride % 4 = 0 := by
  rw [Frame.stride_eq, Rtl8139.align4]
  omega

/-- A call at the first of the frames that are laid in the ring. -/
theorem receivePacket_laid {d : Rtl8139} {head tail : Nat} {f : Frame} {fs : List Frame}
    (hlaid : Laid d.rxBuffer rxBufSize head ((f :: fs).map Frame.record) tail)
    (hinit : d.rtlInitialized = true) (hoffset : d = d.advance (head % rxBufSize))
    (haligned : head % 4 = 0) (hcbr : d.cbr ≠ head % rxBufSize) :
    d.receivePacket 2048 =
      ⟨f.bytes.length, f.bytes, d.advance ((head + f.record.stride) % rxBufSize)⟩ := by
  obtain ⟨hunsplit, hslice, _⟩ := hlaid
  have hrx : d.rxOffset = head % rxBufSize := by rw [hoffset]; rfl
  rw [← nextOffset_of_unsplit hunsplit, ← hrx]
  refine receivePacket_eq hinit ?_ ?_ ?_ ?_
  · rwa [hrx]
  · rw [hrx, rxBufSize]
    omega
  · rw [hrx]
    exact Nat.mod_lt _ (by decide)
  · rw [hrx]
    exact hslice

/-- Frames that are laid in the ring are returned, whatever comes after them. -/
theorem returns_laid_append {d : Rtl8139} {head tail : Nat} {fs : List Frame}
    (hlaid : Laid d.rxBuffer rxBufSize head (fs.map Frame.record) tail)
    (hinit : d.rtlInitialized = true) (hoffset : d = d.advance (head % rxBufSize))
    (haligned : head % 4 = 0)
    (hcbr : ∀ p, head ≤ p → p < tail → d.cbr ≠ p % rxBufSize) (rest : List Frame) :
    Returns d (fs ++ rest) ↔ Returns (d.advance (tail % rxBufSize)) rest := by
  induction fs generalizing d head with
  | nil =>
      obtain rfl : head = tail := hlaid
      rw [List.nil_append, ← hoffset]
  | cons f fs ih =>
      have hrest := hlaid.2.2
      have htail := hrest.tail_eq
      have hpos := stride_pos f
      have hstride := stride_aligned f
      have hcall := receivePacket_laid hlaid hinit hoffset haligned
        (hcbr head (Nat.le_refl _) (by omega))
      rw [List.cons_append, Returns, hcall]
      simp only [true_and]
      exact ih (d := d.advance _) hrest hinit rfl (by omega)
        fun p hp hp' => hcbr p (by omega) hp'

/-! ## The invariant -/

/-- The pending frames are laid in the ring between the driver's position and the card's,
and the offsets are those positions modulo the size of the ring. -/
structure SyncAt (s : Traffic) (head tail : Nat) : Prop where
  laid : Laid s.nic.rxBuffer rxBufSize head (s.pending.map Frame.record) tail
  initialized : s.nic.rtlInitialized = true
  offset : s.nic = s.nic.advance (head % rxBufSize)
  cbr : s.nic.cbr = tail % rxBufSize
  aligned : head % 4 = 0
  room : tail < head + rxBufSize
  inOrder : s.returned = (s.received.take s.returned.length).map Frame.bytes

def Sync (s : Traffic) : Prop := ∃ head tail, s.SyncAt head tail

/-- A position short of the card's, within one turn, is at another address. -/
theorem mod_ne_of_room {p tail : Nat} (hp : p < tail) (hroom : tail < p + rxBufSize) :
    tail % rxBufSize ≠ p % rxBufSize := by
  unfold rxBufSize at hroom ⊢
  omega

theorem sync_start (memory : Mem) : (start memory).Sync :=
  ⟨0, 0, rfl, rfl, rfl, rfl, rfl, by decide, rfl⟩

namespace SyncAt

variable {s : Traffic} {head tail : Nat}

theorem tail_eq (h : s.SyncAt head tail) : tail = head + s.occupied := by
  have htail := h.laid.tail_eq
  rw [List.map_map] at htail
  exact htail

theorem aligned_tail (h : s.SyncAt head tail) : tail % 4 = 0 := by
  have hsum : ∀ fs : List Frame, (fs.map fun f => f.record.stride).sum % 4 = 0 := by
    intro fs
    induction fs with
    | nil => rfl
    | cons f fs ih =>
        have hstride := stride_aligned f
        rw [List.map_cons, List.sum_cons]
        omega
  have htail := h.tail_eq
  have haligned := h.aligned
  have hoccupied : s.occupied % 4 = 0 := hsum s.pending
  omega

theorem returned_le (h : s.SyncAt head tail) : s.returned.length ≤ s.received.length := by
  have hlen := congrArg List.length h.inOrder
  rw [List.length_map, List.length_take] at hlen
  omega

theorem inStep (h : s.SyncAt head tail) : s.InStep := by
  refine ⟨h.inOrder, ?_⟩
  have hclear : ∀ p, head ≤ p → p < tail → s.nic.cbr ≠ p % rxBufSize := by
    intro p hp hp'
    have hroom := h.room
    rw [h.cbr]
    exact mod_ne_of_room hp' (by omega)
  have hreturns := returns_laid_append h.laid h.initialized h.offset h.aligned hclear []
  rw [List.append_nil] at hreturns
  rw [hreturns]
  refine ⟨h.cbr.symm, ?_⟩
  simp [Rtl8139.packetAvailable, Rtl8139.advance, h.cbr]

/-- The frames that wait after another one came. -/
theorem pending_frame (h : s.SyncAt head tail) (f : Frame) :
    pending { s with nic := s.nic.deviceWrite f, received := s.received ++ [f] } =
      s.pending ++ [f] :=
  List.drop_append_of_le_length h.returned_le

theorem cbr_deviceWrite (h : s.SyncAt head tail) (f : Frame) :
    (s.nic.deviceWrite f).cbr = (tail + f.record.stride) % rxBufSize := by
  simp [Rtl8139.deviceWrite, h.cbr]

theorem offset_deviceWrite (h : s.SyncAt head tail) (f : Frame) :
    s.nic.deviceWrite f = (s.nic.deviceWrite f).advance (head % rxBufSize) := by
  have hoffset := h.offset
  rw [Rtl8139.mk.injEq] at hoffset
  simp only [Rtl8139.deviceWrite, Rtl8139.advance, Rtl8139.mk.injEq, true_and]
  exact ⟨hoffset.2.2.1, hoffset.2.2.2.2⟩

/-- A frame that ends inside the ring keeps the two in step. -/
theorem frame {f : Frame} (h : s.SyncAt head tail)
    (hfits : s.occupied + f.record.stride < rxBufSize)
    (hunsplit : s.nic.cbr + f.record.stride ≤ rxBufSize) :
    SyncAt { s with nic := s.nic.deviceWrite f, received := s.received ++ [f] } head
      (tail + f.record.stride) where
  laid := by
    have htail := h.tail_eq
    rw [h.pending_frame, List.map_append]
    rw [h.cbr] at hunsplit
    have hsnoc := h.laid.snoc f.record hunsplit (by omega)
    rw [← h.cbr] at hsnoc
    exact hsnoc
  initialized := h.initialized
  offset := h.offset_deviceWrite f
  cbr := h.cbr_deviceWrite f
  aligned := h.aligned
  room := by
    have htail := h.tail_eq
    show tail + f.record.stride < head + rxBufSize
    omega
  inOrder := by
    show s.returned = ((s.received ++ [f]).take s.returned.length).map Frame.bytes
    rw [List.take_append_of_le_length h.returned_le]
    exact h.inOrder

/-- If the calls will return all frames and end at the card's offset, the last frame ends
inside the ring. -/
theorem unsplit_of_inStep {f : Frame} (h : s.SyncAt head tail)
    (hfits : s.occupied + f.record.stride < rxBufSize)
    (hstep : InStep { s with nic := s.nic.deviceWrite f, received := s.received ++ [f] }) :
    s.nic.cbr + f.record.stride ≤ rxBufSize := by
  have htail := h.tail_eq
  have hlen := f.record.fits
  have hcbr := h.cbr_deviceWrite f
  have hlaid : Laid (s.nic.deviceWrite f).rxBuffer rxBufSize head (s.pending.map Frame.record)
      tail := by
    have hblit := h.laid.blit f.record.bytes (by omega)
    rw [← h.cbr] at hblit
    exact hblit
  have hstride : f.record.stride < rxBufSize := by omega
  have hpos := stride_pos f
  have hreturns := hstep.2
  rw [h.pending_frame, returns_laid_append hlaid h.initialized (h.offset_deviceWrite f) h.aligned
    (fun p hp hp' => by rw [hcbr]; exact mod_ne_of_room (by omega) (by omega))] at hreturns
  have hcall : (((s.nic.deviceWrite f).advance (tail % rxBufSize)).receivePacket 2048).nic =
      (s.nic.deviceWrite f).advance (nextOffset (tail % rxBufSize) f.record.stride) := by
    rw [receivePacket_eq (d := (s.nic.deviceWrite f).advance _) (f := f) h.initialized]
    · rfl
    · show (s.nic.deviceWrite f).cbr ≠ tail % rxBufSize
      rw [hcbr]
      exact mod_ne_of_room (by omega) (by omega)
    · have haligned := h.aligned_tail
      show tail % rxBufSize % 4 = 0
      unfold rxBufSize
      omega
    · exact Nat.mod_lt _ (by decide)
    · show ((s.nic.rxBuffer.blit s.nic.cbr f.record.bytes).slice (tail % rxBufSize)
        f.record.bytes.length) = f.record.bytes
      rw [h.cbr]
      exact s.nic.rxBuffer.slice_blit _ _
  -- the driver's offset after the last frame is the card's
  have hsame : nextOffset (tail % rxBufSize) f.record.stride =
      (tail + f.record.stride) % rxBufSize := by
    have hlast := hreturns.2.2.1
    rw [hcall] at hlast
    exact hlast.trans hcbr
  rw [h.cbr]
  unfold nextOffset at hsame
  unfold rxBufSize at hsame hstride ⊢
  by_cases hend : tail % 8192 + f.record.stride ≥ 8192
  · rw [if_pos hend] at hsame
    omega
  · omega

/-- A call keeps the two in step: it returns the first pending frame, if there is one. -/
theorem receive {s' : Traffic} (h : s.SyncAt head tail) (hstep : s.step .receive = .ok s') :
    s'.Sync := by
  obtain rfl := Except.ok.inj hstep
  have hlaid := h.laid
  cases hpending : s.pending with
  | nil =>
      rw [hpending] at hlaid
      obtain rfl : head = tail := hlaid
      have hrx : s.nic.rxOffset = head % rxBufSize := by rw [h.offset]; rfl
      have hcall : s.nic.receivePacket 2048 = ⟨0, [], s.nic⟩ := by
        unfold Rtl8139.receivePacket
        rw [h.initialized, if_neg (by decide), if_pos (h.cbr.trans hrx.symm)]
      rw [hcall]
      exact ⟨head, head, h⟩
  | cons f fs =>
      rw [hpending] at hlaid
      have hpos := stride_pos f
      have hstride := stride_aligned f
      have haligned := h.aligned
      have hroom := h.room
      have htail := hlaid.2.2.tail_eq
      have hcall := receivePacket_laid hlaid h.initialized h.offset h.aligned
        (by rw [h.cbr]; exact mod_ne_of_room (by omega) h.room)
      have hnext : s.received.drop (s.returned.length + 1) = fs := by
        rw [← List.tail_drop, ← pending, hpending, List.tail_cons]
      have hfirst : s.received[s.returned.length]? = some f := by
        have hhead := congrArg List.head? hpending
        rwa [pending, List.head?_drop, List.head?_cons] at hhead
      have hret : (f.bytes.length : Int) > 0 := Int.natCast_pos.mpr f.nonempty
      rw [hcall]
      simp only [hret, if_true]
      refine ⟨head + f.record.stride, tail, ?_, h.initialized, rfl, h.cbr, by omega, by omega, ?_⟩
      · show Laid s.nic.rxBuffer rxBufSize (head + f.record.stride)
          ((s.received.drop (s.returned ++ [f.bytes]).length).map Frame.record) tail
        rw [List.length_append, List.length_singleton, hnext]
        exact hlaid.2.2
      · show s.returned ++ [f.bytes] =
          (s.received.take (s.returned ++ [f.bytes]).length).map Frame.bytes
        rw [List.length_append, List.length_singleton, List.take_add_one, hfirst, List.map_append,
          ← h.inOrder]
        rfl

end SyncAt

/-- The card writes a frame only if there is room for it. -/
theorem step_frame {s s' : Traffic} {f : Frame} (hstep : s.step (.frame f) = .ok s') :
    s.occupied + f.record.stride < rxBufSize ∧
      s' = { s with nic := s.nic.deviceWrite f, received := s.received ++ [f] } := by
  simp only [step] at hstep
  split at hstep
  · exact ⟨‹_›, (Except.ok.inj hstep).symm⟩
  · exact nomatch hstep

/-- Card and driver are in step throughout, in every order of frames and calls, exactly if
every frame ends inside the ring. -/
theorem inStep_iff_unsplit (memory : Mem) (events : List Event) :
    Along step InStep (start memory) events ↔ Guarded step Unsplit (start memory) events := by
  refine along_iff_of_invariant (I := Sync) ?_ ?_ ?_ (sync_start memory)
  · rintro s ⟨head, tail, h⟩
    exact h.inStep
  · rintro s e s' ⟨head, tail, h⟩ hguard hstep
    cases e with
    | frame f =>
        obtain ⟨hfits, rfl⟩ := step_frame hstep
        exact ⟨head, _, h.frame hfits hguard⟩
    | receive => exact h.receive hstep
  · rintro s e s' ⟨head, tail, h⟩ hstep hP
    cases e with
    | frame f =>
        obtain ⟨hfits, rfl⟩ := step_frame hstep
        exact h.unsplit_of_inStep hfits hP
    | receive => trivial

/-- A frame of the greatest length. -/
def longFrame : Frame where
  bytes := List.replicate 1514 0
  status := 1
  crc := fun _ => 0
  nonempty := by rw [List.length_replicate]; decide
  lengthLe := by rw [List.length_replicate]

/-- Six of them, each fetched when it came.  The sixth runs over the end of the ring, and
then all frames are fetched and the offsets are 0 and 952. -/
theorem not_inStep_sixth_long_frame :
    ((run step (start fun _ => 0)
        ((List.replicate 6 [Event.frame longFrame, .receive]).flatten)).toOption.map fun s =>
      (s.received.length, s.returned.length, s.nic.rxOffset, s.nic.cbr, s.nic.packetAvailable)) =
      some (6, 6, 0, 952, true) := by
  decide +kernel

end Traffic

end FalastinOS.Drivers
