/-
  Drivers/Transmit.lean --- sending: `rtl8139_send_packet` and the card.

  `rtl8139_send_packet` copies the frame into `tx_buffer`, waits until the card is done with
  the frame before it, for 100000 reads of TSD0 at most, and stores the length in TSD0.
  From then on the card may read `tx_buffer`, at any time: it is a party of its own, and
  bit 31 of TSD0 is set until it has taken the frame, as the comment of the source says.

  The copy comes before the wait.  `inStep_iff_undisturbed` says exactly when the frames
  that leave are nevertheless those that were handed over: no frame is copied over one that
  the card still has to take, unless the two agree in the bytes they share, and no wait is
  given up.
-/
import FalastinOS.Foundation.Execution
import FalastinOS.Foundation.Ring

set_option autoImplicit false

namespace FalastinOS.Drivers

open FalastinOS.Foundation

/-! ## The driver and the card -/

/-- `TX_BUF_SIZE`. -/
def txBufSize : Nat := 1536

/-- How often the driver reads TSD0 before it gives up. -/
def txPolls : Nat := 100000

/-- The driver's variables for sending, the register TSD0, and what left the card. -/
structure Transmitter where
  rtlInitialized : Bool
  /-- `tx_buffer` -/
  txBuffer : Mem
  /-- TSD0; the card reads from `tx_buffer`, whose address is always in TSAD0 -/
  tsd0 : UInt32
  /-- the length of the frame in the call that waits, and the reads of TSD0 it has made -/
  waiting : Option (Nat × Nat)
  /-- the frames that were handed over, cut to `TX_BUF_SIZE` bytes -/
  accepted : List (List UInt8)
  /-- the frames that left the card -/
  wire : List (List UInt8)

/-- What the driver stores in TSD0. -/
def tsd0Of (len : Nat) : UInt32 := UInt32.ofNat len ||| 0x80000000

namespace Transmitter

/-- Bit 31 of TSD0 is set. -/
def Busy (s : Transmitter) : Prop := s.tsd0 &&& 0x80000000 ≠ 0

instance (s : Transmitter) : Decidable s.Busy := inferInstanceAs (Decidable (_ ≠ _))

/-- The length in TSD0: its lower 13 bits. -/
def size (s : Transmitter) : Nat := (s.tsd0 &&& 0x1FFF).toNat

/-- What can happen. -/
inductive Event where
  /-- `rtl8139_send_packet(data, len)` is called, up to its loop -/
  | send (data : List UInt8)
  /-- a round of its loop, or what follows the last one -/
  | poll
  /-- the card takes the frame it was given -/
  | fetch

/-- `memcpy(tx_buffer, data, len)`, and the loop begins. -/
def copied (s : Transmitter) (frame : List UInt8) : Transmitter :=
  { s with
    txBuffer := s.txBuffer.blit 0 frame
    waiting := some (frame.length, 0)
    accepted := s.accepted ++ [frame] }

/-- `rtl8139_send_packet(data, len)` up to the loop; with -1 it returns at once. -/
def send (s : Transmitter) (data : List UInt8) : Transmitter :=
  if !s.rtlInitialized || data.length = 0 then s else s.copied (data.take txBufSize)

/-- `outl(RTL_TSD0, len | 0x80000000)`, and the call returns. -/
def started (s : Transmitter) (len : Nat) : Transmitter :=
  { s with tsd0 := tsd0Of len, waiting := none }

/-- A round of the loop. -/
def poll (s : Transmitter) (len polls : Nat) : Transmitter :=
  if polls < txPolls ∧ s.Busy then { s with waiting := some (len, polls + 1) }
  else s.started len

/-- The card takes a frame from `tx_buffer`. -/
def fetch (s : Transmitter) : Transmitter :=
  if s.Busy then
    { s with
      tsd0 := s.tsd0 &&& 0x7FFFFFFF
      wire := s.wire ++ [s.txBuffer.slice 0 s.size] }
  else s

/-- One event.  A call is made only when the one before has returned. -/
def step (s : Transmitter) : Event → Except Empty Transmitter
  | .send data => .ok (if s.waiting = none then s.send data else s)
  | .poll =>
      match s.waiting with
      | some (len, polls) => .ok (s.poll len polls)
      | none => .ok s
  | .fetch => .ok s.fetch

/-- After `rtl8139_init()`, whatever is in `tx_buffer` and however many frames left before. -/
def start (memory : Mem) : Transmitter := ⟨true, memory, 0, none, [], []⟩

/-! ## Frames -/

/-- The frame that the card has to take. -/
def onCard (s : Transmitter) : List (List UInt8) :=
  if s.Busy then [s.txBuffer.slice 0 s.size] else []

/-- The frame of the call that waits. -/
def inCall (s : Transmitter) : List (List UInt8) :=
  match s.waiting with
  | some (len, _) => [s.txBuffer.slice 0 len]
  | none => []

/-- What left the card, and what is in `tx_buffer` for it, is what was handed over. -/
def InStep (s : Transmitter) : Prop := s.wire ++ (s.onCard ++ s.inCall) = s.accepted

/-- A frame that is copied agrees with one that the card still has to take in the bytes they
share, and the loop ends only when the card is done. -/
def Undisturbed (s : Transmitter) : Event → Prop
  | .send data =>
      s.waiting = none → s.rtlInitialized = true → data ≠ [] → s.Busy →
        (data.take txBufSize).take s.size =
          (s.txBuffer.slice 0 s.size).take (data.take txBufSize).length
  | .poll => ∀ len polls, s.waiting = some (len, polls) → s.Busy → polls < txPolls
  | .fetch => True

/-- A frame fits `tx_buffer`. -/
def Fits (s : Transmitter) : Prop := ∀ len polls, s.waiting = some (len, polls) → len ≤ txBufSize

/-! ## One event -/

/-- What is stored in TSD0 is read back. -/
theorem tsd0Of_fields {len : Nat} (h : len ≤ txBufSize) :
    tsd0Of len &&& 0x80000000 ≠ 0 ∧ (tsd0Of len &&& 0x1FFF).toNat = len := by
  have hall : ∀ k : Fin 1537, tsd0Of k.val &&& 0x80000000 ≠ 0 ∧
      (tsd0Of k.val &&& 0x1FFF).toNat = k.val := by decide +kernel
  exact hall ⟨len, Nat.lt_succ_of_le h⟩

/-- A copy changes the bytes it shares with a frame. -/
theorem slice_blit_zero (m : Mem) (bytes : List UInt8) (n : Nat) :
    (m.blit 0 bytes).slice 0 n = bytes.take n ++ (m.slice 0 n).drop bytes.length := by
  have hget : ∀ (m : Mem) (i : Nat) (h : i < (m.slice 0 n).length), (m.slice 0 n)[i] = m i := by
    intro m i h
    simp [Mem.slice]
  refine List.ext_getElem ?_ fun i hi hi' => ?_
  · simp only [Mem.length_slice, List.length_append, List.length_take, List.length_drop]
    omega
  · have hin : i < n := by simpa using hi
    rw [hget, List.getElem_append, Mem.blit]
    by_cases hshort : i < bytes.length
    · have htake : i < (bytes.take n).length := by
        rw [List.length_take]
        omega
      rw [if_pos ⟨Nat.zero_le i, by omega⟩, dif_pos htake, List.getElem_take, Nat.sub_zero,
        List.getD_eq_getElem _ _ hshort]
    · have htake : ¬ i < (bytes.take n).length := by
        rw [List.length_take]
        omega
      have hsum : bytes.length + (i - (bytes.take n).length) = i := by
        rw [List.length_take]
        omega
      rw [if_neg (by omega), dif_neg htake, List.getElem_drop, hget, hsum]

/-- A frame survives a copy exactly if the two agree in the bytes they share. -/
theorem slice_blit_eq_iff (m : Mem) (bytes : List UInt8) (n : Nat) :
    (m.blit 0 bytes).slice 0 n = m.slice 0 n ↔
      bytes.take n = (m.slice 0 n).take bytes.length := by
  have hlength : (m.slice 0 n).length = n := Mem.length_slice m 0 n
  have hsplit := List.take_append_drop bytes.length (m.slice 0 n)
  rw [slice_blit_zero]
  constructor
  · intro h
    rw [← hsplit] at h
    exact (List.append_inj h (by simp [Nat.min_comm])).1
  · intro h
    rw [h, hsplit]

variable {s s' : Transmitter}

/-- A call copies its frame over what the card has to take. -/
theorem inStep_send_iff (h : s.InStep) (hidle : s.waiting = none) (data : List UInt8) :
    (s.send data).InStep ↔ s.Undisturbed (.send data) := by
  have hnone : s.inCall = [] := by rw [inCall, hidle]
  rw [InStep, hnone, List.append_nil] at h
  unfold send
  split
  · rename_i hreturns
    refine ⟨fun _ _ hinit hdata => ?_, fun _ => ?_⟩
    · simp [hinit, hdata] at hreturns
    · rw [InStep, hnone, List.append_nil]
      exact h
  · rename_i hreturns
    rw [Bool.or_eq_true, not_or] at hreturns
    have hinit : s.rtlInitialized = true := by simpa using hreturns.1
    have hdata : data ≠ [] := by simpa using hreturns.2
    generalize hframe : data.take txBufSize = frame
    have hcopy : (s.txBuffer.blit 0 frame).slice 0 frame.length = frame := Mem.slice_blit ..
    have hguard : s.Undisturbed (.send data) ↔
        (s.Busy → frame.take s.size = (s.txBuffer.slice 0 s.size).take frame.length) := by
      rw [Undisturbed, hframe]
      exact ⟨fun hall => hall hidle hinit hdata, fun hbusy _ _ _ => hbusy⟩
    rw [hguard]
    have hcall : (s.copied frame).inCall = [frame] := congrArg (fun f => [f]) hcopy
    have hinStep : (s.copied frame).InStep ↔ (s.copied frame).onCard = s.onCard := by
      rw [InStep, hcall]
      show s.wire ++ ((s.copied frame).onCard ++ [frame]) = s.accepted ++ [frame] ↔ _
      rw [← h, List.append_assoc, List.append_cancel_left_eq, List.append_cancel_right_eq]
    rw [hinStep]
    by_cases hbusy : s.Busy
    · have hafter : (s.copied frame).onCard = [(s.txBuffer.blit 0 frame).slice 0 s.size] :=
        if_pos hbusy
      rw [hafter, onCard, if_pos hbusy, List.singleton_inj, slice_blit_eq_iff]
      exact ⟨fun heq _ => heq, fun heq => heq hbusy⟩
    · have hafter : (s.copied frame).onCard = [] := if_neg hbusy
      rw [hafter, onCard, if_neg hbusy]
      exact ⟨fun _ hb => absurd hb hbusy, fun _ => rfl⟩

/-- The loop ends and the frame of the call takes the place of the card's. -/
theorem inStep_poll_iff (hfits : s.Fits) (h : s.InStep) {len polls : Nat}
    (hwaiting : s.waiting = some (len, polls)) :
    (s.poll len polls).InStep ↔ s.Undisturbed .poll := by
  have hcall : s.inCall = [s.txBuffer.slice 0 len] := by rw [inCall, hwaiting]
  have hguard : s.Undisturbed .poll ↔ (s.Busy → polls < txPolls) := by
    constructor
    · exact fun hall => hall len polls hwaiting
    · rintro hone len' polls' hwaiting'
      obtain ⟨rfl, rfl⟩ := Prod.mk.inj (Option.some.inj (hwaiting.symm.trans hwaiting'))
      exact hone
  rw [hguard]
  unfold poll
  split
  · rename_i hagain
    refine ⟨fun _ _ => hagain.1, fun _ => ?_⟩
    rw [InStep, hcall] at h
    exact h
  · rename_i hover
    obtain ⟨hset, hlen⟩ := tsd0Of_fields (hfits len polls hwaiting)
    rw [InStep, hcall] at h
    have hsize : (s.started len).size = len := hlen
    have hafter : (s.started len).onCard = [s.txBuffer.slice 0 len] := by
      have hbusy : (s.started len).Busy := hset
      rw [onCard, if_pos hbusy, hsize]
      rfl
    rw [InStep, hafter]
    show s.wire ++ ([s.txBuffer.slice 0 len] ++ []) = s.accepted ↔ _
    rw [← h, List.append_nil, List.append_cancel_left_eq]
    by_cases hbusy : s.Busy
    · rw [onCard, if_pos hbusy]
      refine ⟨fun heq => absurd (congrArg List.length heq) (by simp), fun hpolls => ?_⟩
      exact absurd ⟨hpolls hbusy, hbusy⟩ hover
    · rw [onCard, if_neg hbusy]
      exact ⟨fun _ hb => absurd hb hbusy, fun _ => rfl⟩

/-- The card takes the frame as it is in the buffer. -/
theorem inStep_fetch (h : s.InStep) : s.fetch.InStep := by
  unfold fetch
  split
  · rename_i hbusy
    have hclear : s.tsd0 &&& 0x7FFFFFFF &&& 0x80000000 = 0 := by
      rw [UInt32.and_assoc]
      exact UInt32.and_zero
    have hafter : onCard { s with
        tsd0 := s.tsd0 &&& 0x7FFFFFFF
        wire := s.wire ++ [s.txBuffer.slice 0 s.size] } = [] := if_neg fun hset => hset hclear
    rw [InStep, onCard, if_pos hbusy] at h
    rw [InStep, hafter, List.nil_append, ← h, List.append_assoc]
    rfl
  · exact h

theorem inStep_step_iff (hfits : s.Fits) (h : s.InStep) {e : Event} (hstep : s.step e = .ok s') :
    s'.InStep ↔ s.Undisturbed e := by
  cases e with
  | send data =>
      obtain rfl := Except.ok.inj hstep
      split
      · rename_i hidle
        exact inStep_send_iff h hidle data
      · rename_i hcalling
        exact ⟨fun _ hidle => absurd hidle hcalling, fun _ => h⟩
  | poll =>
      rw [step] at hstep
      split at hstep
      · rename_i len polls hwaiting
        obtain rfl := Except.ok.inj hstep
        exact inStep_poll_iff hfits h hwaiting
      · rename_i hnone
        obtain rfl := Except.ok.inj hstep
        exact ⟨fun _ _ _ hwaiting => absurd (hnone.symm.trans hwaiting) nofun, fun _ => h⟩
  | fetch =>
      obtain rfl := Except.ok.inj hstep
      exact ⟨fun _ => trivial, fun _ => inStep_fetch h⟩

end Transmitter

end FalastinOS.Drivers
