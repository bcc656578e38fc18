/-
  Drivers/RingReads.lean --- which bytes of `rx_buffer` the driver reads.

  A call of `rtl8139_receive_packet` reads the four bytes of the header at `rx_offset`
  and then as many bytes behind it as the length field says, or as the caller takes.
  The length field is whatever the card wrote, and the buffer has 8208 bytes.  Between
  two calls the card may have written anything anywhere and may have moved on anyhow.

  `rx_offset` itself never leaves the ring: the alignment and the test against
  RX_BUF_SIZE see to that.  The copy is not tested against the end of the buffer, and
  `ringReads_iff` says for which calls it stays inside.
-/
import FalastinOS.Drivers.Rtl8139

set_option autoImplicit false

namespace FalastinOS.Drivers

open FalastinOS.Foundation

namespace Rtl8139

/-- The length field of the header at `rx_offset`. -/
def packetLen (d : Rtl8139) : Nat := d.rxBuffer.readLE 2 (d.rxOffset + 2)

/-- The indices of `rx_buffer` that `rtl8139_receive_packet(buffer, max_len)` reads. -/
def reads (d : Rtl8139) (maxLen : Nat) : List Nat :=
  if !d.rtlInitialized || maxLen = 0 then []
  else if d.cbr = d.rxOffset then []
  else
    let header := List.range' d.rxOffset 4
    if d.packetLen < 4 then header
    else
      let frameLen := d.packetLen - 4
      let frameLen := if frameLen > maxLen then maxLen % 65536 else frameLen
      header ++ List.range' (d.rxOffset + 4) frameLen

/-- The call gets as far as the copy. -/
def Copies (d : Rtl8139) (maxLen : Nat) : Prop :=
  d.rtlInitialized = true ∧ maxLen ≠ 0 ∧ d.cbr ≠ d.rxOffset ∧ 4 ≤ d.packetLen

/-- Where the driver goes from a header with the length `packetLen`. -/
def nextRead (offset packetLen : Nat) : Nat :=
  let next := align4 (offset + packetLen + 4) % 65536
  if next ≥ rxBufSize then 0 else next

/-- The next offset is one of the ring, whatever the length field says. -/
theorem nextRead_aligned (offset packetLen : Nat) :
    nextRead offset packetLen % 4 = 0 ∧ nextRead offset packetLen < rxBufSize := by
  unfold nextRead align4 rxBufSize
  dsimp only
  split <;> omega

/-- What a call can do: it leaves the ring alone and reads at most the header, or it
copies and moves on. -/
theorem receivePacket_cases (d : Rtl8139) {maxLen : Nat} (hmax : maxLen ≤ 2048) :
    (¬ d.Copies maxLen ∧ (d.receivePacket maxLen).nic = d ∧
      d.reads maxLen ⊆ List.range' d.rxOffset 4) ∨
    (d.Copies maxLen ∧ (d.receivePacket maxLen).nic = d.advance (nextRead d.rxOffset d.packetLen) ∧
      d.reads maxLen = List.range' d.rxOffset (4 + min (d.packetLen - 4) maxLen)) := by
  by_cases hoff : (!d.rtlInitialized || maxLen = 0) = true
  · left
    refine ⟨fun hcopies => ?_, by rw [receivePacket, if_pos hoff], ?_⟩
    · obtain ⟨hinit, hzero, -⟩ := hcopies
      simp [hinit, hzero] at hoff
    · rw [reads, if_pos hoff]
      exact List.nil_subset _
  by_cases hempty : d.cbr = d.rxOffset
  · left
    refine ⟨fun hcopies => hcopies.2.2.1 hempty, ?_, ?_⟩
    · rw [receivePacket, if_neg hoff, if_pos hempty]
    · rw [reads, if_neg hoff, if_pos hempty]
      exact List.nil_subset _
  by_cases hshort : d.packetLen < 4
  · left
    refine ⟨fun hcopies => absurd hcopies.2.2.2 (Nat.not_le.mpr hshort), ?_, ?_⟩
    · rw [receivePacket, if_neg hoff, if_neg hempty]
      exact congrArg Reply.nic (if_pos hshort)
    · rw [reads, if_neg hoff, if_neg hempty]
      dsimp only
      rw [if_pos hshort]
      exact List.Subset.refl _
  · right
    have hlen : (if d.packetLen - 4 > maxLen then maxLen % 65536 else d.packetLen - 4) =
        min (d.packetLen - 4) maxLen := by
      split <;> omega
    refine ⟨?_, ?_, ?_⟩
    · simp only [Bool.or_eq_true, Bool.not_eq_true', decide_eq_true_eq, not_or,
        Bool.not_eq_false] at hoff
      exact ⟨hoff.1, hoff.2, hempty, Nat.not_lt.mp hshort⟩
    · rw [receivePacket, if_neg hoff, if_neg hempty]
      exact congrArg Reply.nic (if_neg hshort)
    · rw [reads, if_neg hoff, if_neg hempty]
      dsimp only
      rw [if_neg hshort, hlen, List.range'_append_1]

/-- A call depends on no byte of the buffer that it does not read. -/
theorem receivePacket_congr (d : Rtl8139) (m : Mem) {maxLen : Nat}
    (h : ∀ i ∈ d.reads maxLen, m i = d.rxBuffer i) :
    ({ d with rxBuffer := m }.receivePacket maxLen).ret = (d.receivePacket maxLen).ret ∧
      ({ d with rxBuffer := m }.receivePacket maxLen).data = (d.receivePacket maxLen).data ∧
      ({ d with rxBuffer := m }.receivePacket maxLen).nic.rxOffset =
        (d.receivePacket maxLen).nic.rxOffset := by
  unfold reads at h
  unfold receivePacket
  dsimp only
  split
  · exact ⟨rfl, rfl, rfl⟩
  rename_i hoff
  rw [if_neg hoff] at h
  split
  · exact ⟨rfl, rfl, rfl⟩
  rename_i hempty
  rw [if_neg hempty] at h
  have hheader : m.readLE 2 (d.rxOffset + 2) = d.rxBuffer.readLE 2 (d.rxOffset + 2) := by
    refine Mem.readLE_congr fun x hx hx' => h x ?_
    dsimp only
    split
    · exact List.mem_range'_1.mpr (by omega)
    · exact List.mem_append_left _ (List.mem_range'_1.mpr (by omega))
  rw [hheader]
  split
  · exact ⟨rfl, rfl, rfl⟩
  rename_i hshort
  dsimp only at h
  rw [if_neg (show ¬ d.packetLen < 4 from hshort)] at h
  refine ⟨rfl, Mem.slice_congr fun x hx hx' => h x ?_, rfl⟩
  exact List.mem_append_right _ (List.mem_range'_1.mpr ⟨hx, hx'⟩)

end Rtl8139

/-! ## Calls and the card -/

/-- The ring, with a record of the indices the calls have read. -/
structure RingReads where
  nic : Rtl8139
  reads : List Nat

namespace RingReads

/-- The card writes the buffer and the register CBR as it likes, or the kernel calls
`rtl8139_receive_packet` with room for at most 2048 bytes. -/
inductive Event where
  | device (memory : Mem) (cbr : UInt16)
  | receive (maxLen : Fin 2049)

def step (s : RingReads) : Event → Except Empty RingReads
  | .device memory cbr => .ok { s with nic := { s.nic with rxBuffer := memory, cbr := cbr.toNat } }
  | .receive maxLen =>
      .ok ⟨(s.nic.receivePacket maxLen).nic, s.reads ++ s.nic.reads maxLen⟩

/-- After `rtl8139_init()`. -/
def start (memory : Mem) : RingReads := ⟨Rtl8139.init memory, []⟩

/-- `rx_offset` is a multiple of 4 in the ring. -/
def Aligned (s : RingReads) : Prop := s.nic.rxOffset % 4 = 0 ∧ s.nic.rxOffset < rxBufSize

/-- Everything that was read is a byte of `rx_buffer`. -/
def Inside (s : RingReads) : Prop := ∀ i ∈ s.reads, i < rxBufSize + 16

/-- If the call copies, what it copies ends inside the buffer. -/
def Fits (s : RingReads) : Event → Prop
  | .device _ _ => True
  | .receive maxLen => s.nic.Copies maxLen →
      s.nic.rxOffset + 4 + min (s.nic.packetLen - 4) maxLen ≤ rxBufSize + 16

theorem aligned_start (memory : Mem) : (start memory).Aligned := ⟨rfl, Nat.zero_lt_succ _⟩

theorem aligned_step {s s' : RingReads} {e : Event} (h : s.Aligned) (hstep : s.step e = .ok s') :
    s'.Aligned := by
  cases e with
  | device memory cbr =>
      obtain rfl := Except.ok.inj hstep
      exact h
  | receive maxLen =>
      obtain rfl := Except.ok.inj hstep
      rcases s.nic.receivePacket_cases (Nat.le_of_lt_succ maxLen.isLt) with
        ⟨-, hnic, -⟩ | ⟨-, hnic, -⟩
      · rw [Aligned, hnic]
        exact h
      · rw [Aligned, hnic]
        exact Rtl8139.nextRead_aligned _ _

/-- One step reads inside the buffer exactly if its copy fits.  The header always does,
since a multiple of 4 below 8192 is at most 8188. -/
theorem inside_step_iff {s s' : RingReads} {e : Event} (h : s.Aligned) (hinside : s.Inside)
    (hstep : s.step e = .ok s') : s'.Inside ↔ s.Fits e := by
  cases e with
  | device memory cbr =>
      obtain rfl := Except.ok.inj hstep
      exact iff_of_true hinside trivial
  | receive maxLen =>
      obtain rfl := Except.ok.inj hstep
      obtain ⟨haligned, hlt⟩ := h
      unfold rxBufSize at hlt
      have hreads : Inside ⟨(s.nic.receivePacket maxLen).nic, s.reads ++ s.nic.reads maxLen⟩ ↔
          ∀ i ∈ s.nic.reads maxLen, i < rxBufSize + 16 := by
        simp only [Inside, List.mem_append]
        exact ⟨fun hall i hi => hall i (Or.inr hi), fun hnew i hi => hi.elim (hinside i) (hnew i)⟩
      rw [hreads]
      rcases s.nic.receivePacket_cases (Nat.le_of_lt_succ maxLen.isLt) with
        ⟨hcopies, -, hheader⟩ | ⟨hcopies, -, hframe⟩
      · refine iff_of_true (fun i hi => ?_) (fun h => absurd h hcopies)
        have hbounds := List.mem_range'_1.mp (hheader hi)
        unfold rxBufSize
        omega
      · rw [hframe]
        constructor
        · intro hall _
          have hlast := hall _ (List.mem_range'_1.mpr
            ⟨Nat.le_add_right s.nic.rxOffset (3 + min (s.nic.packetLen - 4) maxLen), by omega⟩)
          omega
        · intro hfits i hi
          have hend := hfits hcopies
          have hbounds := List.mem_range'_1.mp hi
          omega

/-- Whatever the card does, `rx_offset` stays a multiple of 4 in the ring; and everything
that is read lies in the buffer exactly if every copy ends inside it. -/
theorem ringReads_iff (memory : Mem) (events : List Event) :
    Along step Aligned (start memory) events ∧
    (Along step (fun s => Aligned s ∧ Inside s) (start memory) events ↔
      Guarded step Fits (start memory) events) := by
  have hinside : (start memory).Inside := fun i hi => absurd hi List.not_mem_nil
  refine ⟨along_of_invariant (fun s e s' h hstep => aligned_step h hstep) (aligned_start memory) _,
    along_iff_guarded (J := Aligned) (fun s e s' h hstep => aligned_step h hstep) ?_
      (aligned_start memory) ⟨aligned_start memory, hinside⟩⟩
  intro s e s' haligned hsound hstep
  rw [← inside_step_iff haligned hsound.2 hstep]
  exact and_iff_right (aligned_step haligned hstep)

/-- A ring in which frames of the greatest length stand one after another: a header with
the length 1518 every 1524 bytes. -/
def fullFrames : Mem := fun i => if i % 1524 = 2 then 0xEE else if i % 1524 = 3 then 0x05 else 0

/-- Six of them fetched, each when it came. -/
def sixFrames : List Event :=
  (List.range 6).flatMap fun k =>
    [.device fullFrames (UInt16.ofNat (1524 * (k + 1) % 8192)), .receive 2048]

/-- The sixth is at offset 7620, and the copy reads up to index 9137. -/
theorem ringReads_past_end_sixFrames :
    (run step (start fun _ => 0) sixFrames).toOption.map
        (fun s => (s.nic.rxOffset, s.reads.getLast?)) = some (0, some 9137) ∧
      ¬ Along step (fun s => Aligned s ∧ Inside s) (start fun _ => 0) sixFrames := by
  have hrun : (run step (start fun _ => 0) sixFrames).toOption.map
      (fun s => (s.nic.rxOffset, s.reads.getLast?)) = some (0, some 9137) := by
    decide +kernel
  refine ⟨hrun, fun hall => ?_⟩
  obtain ⟨s, hs, hend⟩ := exists_run_of_map hrun
  have hlast := List.mem_of_getLast? (congrArg Prod.snd hend)
  exact absurd ((hall.last hs).2 _ hlast) (by decide)

end RingReads

end FalastinOS.Drivers
