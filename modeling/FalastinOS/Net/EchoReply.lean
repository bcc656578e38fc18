/-
  Net/EchoReply.lean --- what the answer to a ping contains.

  An echo reply repeats the identifier, the sequence number and the payload of the
  request, so it is as long as the request.  `icmp_handle_packet` passes the length of
  the payload alone, and `icmp_send_reply` adds the IP header to it but not the ICMP
  header: the reply says that it is 8 bytes shorter than the request and is sent
  without its last 8 bytes, over which the ICMP checksum was computed.  The word with
  the identifier and the sequence number is not stored at all.

  `echoReply_cut` says this of every request; no request is answered faithfully.
-/
import FalastinOS.Net.Icmp
import FalastinOS.Foundation.Wire
import Mathlib.Data.List.GetD

set_option autoImplicit false

namespace FalastinOS.Net

open FalastinOS.Foundation

/-- A sent frame as a memory. -/
def frameOf (bytes : List UInt8) : Mem := fun i => bytes.getD i 0

/-- An echo request to our address whose lengths agree and which can be answered, from
a sender in the ARP cache with the hardware address `mac`. -/
structure Answerable (net : NetState) (packet : Mem) (len : Nat) (mac : Mac) : Prop where
  frame : len = 14 + ipTotalLen packet
  low : 28 ≤ ipTotalLen packet
  high : ipTotalLen packet ≤ 498
  dest : ipDest packet = net.ourIp
  protocol : ipProtocol packet = 1
  request : icmpType packet = 8
  sender : arpLookup net (ipSrc packet) = some mac

/-- The frame `reply` is an echo reply to the request `packet`. -/
structure Faithful (net : NetState) (packet : Mem) (len : Nat) (mac : Mac) (reply : List UInt8) :
    Prop where
  destMac : reply.take 6 = List.ofFn mac
  srcIp : ipSrc (frameOf reply) = net.ourIp
  destIp : ipDest (frameOf reply) = ipSrc packet
  protocol : ipProtocol (frameOf reply) = 1
  echoReply : icmpType (frameOf reply) = 0
  totalLen : ipTotalLen (frameOf reply) = ipTotalLen packet
  rest : (frameOf reply).readLE 4 38 = packet.readLE 4 38
  payload : reply.drop 42 = (bytesOf packet len).drop 42
  ipChecksum : Wire.ChecksumVerifies ((reply.drop 14).take 20)
  icmpChecksum : Wire.ChecksumVerifies (reply.drop 34)

/-- The request is answered by one frame, an echo reply to it. -/
def AnsweredFaithfully (net : NetState) (stack packet : Mem) (len : Nat) (mac : Mac) : Prop :=
  ∃ reply, ipHandlePacket net stack packet len = .ok [reply] ∧ Faithful net packet len mac reply

/-- The copy of a payload that fits, as the memory after it. -/
theorem copyPayload_eq (frame : Mem) (frameLen n : Nat) : ∀ (i : Nat) (m : Mem),
    42 + i + n ≤ frameLen → 42 + i + n ≤ replySize →
      copyPayload frame frameLen n i m =
        .ok fun x => if 42 + i ≤ x ∧ x < 42 + i + n then frame x else m x := by
  induction n with
  | zero =>
      intro i m _ _
      rw [copyPayload]
      congr 1
      funext x
      rw [if_neg (by omega)]
  | succ n ih =>
      intro i m hframe hreply
      rw [copyPayload, if_neg (by omega), if_neg (by omega), ih (i + 1) _ (by omega) (by omega)]
      congr 1
      funext x
      by_cases hhere : x = 42 + i
      · rw [hhere, if_neg (by omega), if_pos (by omega), Mem.writeByte_self]
      · rw [Mem.writeByte_of_ne _ _ hhere]
        split <;> split <;> first | rfl | omega

theorem length_bytesOf (m : Mem) (n : Nat) : (bytesOf m n).length = n := by
  rw [bytesOf, List.length_map, List.length_range]

theorem frameOf_bytesOf (m : Mem) {n i : Nat} (h : i < n) : frameOf (bytesOf m n) i = m i := by
  rw [frameOf, bytesOf, List.getD_eq_getElem _ _ (by simpa using h), List.getElem_map,
    List.getElem_range]

theorem readLE_frameOf_bytesOf (m : Mem) {n k a : Nat} (h : a + k ≤ n) :
    (frameOf (bytesOf m n)).readLE k a = m.readLE k a :=
  Mem.readLE_congr fun _ _ _ => frameOf_bytesOf m (by omega)

/-- The headers give the length of the IP header and of `len` bytes. -/
theorem replyHeaders_totalLen (net : NetState) (stack : Mem) (destMac : Mac) (destIp : UInt32)
    {len : Nat} (hlen : len ≤ 470) :
    (replyHeaders net stack destMac destIp len).readLE 2 16 = 20 + len := by
  have hbytes : ∀ k, k < 2 → replyHeaders net stack destMac destIp len (16 + k) =
      UInt8.ofNat ((20 + len) / 256 ^ k) := by
    intro k hk
    unfold replyHeaders
    simp only [Mem.writeLE, Mem.writeByte]
    repeat rw [if_neg (by omega)]
    rw [if_pos (by omega), Nat.add_sub_cancel_left, show ipHeaderSize = 20 from rfl,
      Nat.mod_eq_of_lt (by omega)]
  rw [Mem.readLE_of_bytes hbytes, Nat.mod_eq_of_lt (by omega)]

/-- The headers leave the bytes of the ICMP header behind its checksum as they are. -/
theorem replyHeaders_rest (net : NetState) (stack : Mem) (destMac : Mac) (destIp : UInt32)
    (len : Nat) {x : Nat} (hx : 38 ≤ x) :
    replyHeaders net stack destMac destIp len x = stack x := by
  unfold replyHeaders putEthHeader putMac
  simp only [Mem.writeLE, Mem.writeByte]
  repeat rw [if_neg (by omega)]
  rw [dif_neg (by omega), dif_neg (by omega)]

/-- The buffer of the reply before the ICMP checksum is stored. -/
def replyBuffer (net : NetState) (stack packet : Mem) (mac : Mac) (destIp : UInt32) (len : Nat) :
    Mem := fun x =>
  if 42 ≤ x ∧ x < 42 + len then packet x else replyHeaders net stack mac destIp len x

/-- The reply to a sender in the cache, for a payload that fits both buffers. -/
theorem icmpSendReply_eq {net : NetState} {mac : Mac} {destIp : UInt32} (stack packet : Mem)
    (frameLen len : Nat) (hsender : arpLookup net destIp = some mac) (hframe : 42 + len ≤ frameLen)
    (hreply : len ≤ 470) :
    ∃ sum, icmpSendReply net stack packet frameLen destIp len =
      .ok (bytesOf ((replyBuffer net stack packet mac destIp len).writeLE 2 36 sum)
        (34 + len)) := by
  have hlimit : replySize = 512 := rfl
  have hicmp : icmpHeaderSize = 8 := rfl
  have hsum : ¬ replySize < 34 + checksumExtent ((len + icmpHeaderSize) % 2 ^ 32) := by
    unfold checksumExtent
    omega
  have hsize : (ethHeaderSize + (ipHeaderSize + len) % 2 ^ 32) % 2 ^ 32 = 34 + len := by
    rw [show ethHeaderSize = 14 from rfl, show ipHeaderSize = 20 from rfl]
    omega
  have hcopy := copyPayload_eq packet frameLen len 0 (replyHeaders net stack mac destIp len)
    (by omega) (by omega)
  rw [icmpSendReply, hsender]
  simp only [hcopy, if_neg hsum, hsize]
  exact ⟨_, rfl⟩

/-- The frame that answers a request: it and the length in it are 8 bytes short, and the
word behind the ICMP checksum holds what was on the stack. -/
theorem echoReply_sent {net : NetState} {packet : Mem} {len : Nat} {mac : Mac} (stack : Mem)
    (h : Answerable net packet len mac) :
    ∃ reply, ipHandlePacket net stack packet len = .ok [reply] ∧ reply.length + 8 = len ∧
      ipTotalLen (frameOf reply) + 8 = ipTotalLen packet ∧
      ∀ i, 38 ≤ i → i < 42 → i < reply.length → frameOf reply i = stack i := by
  obtain ⟨hframe, hlow, hhigh, hdest, hproto, htype, hsender⟩ := h
  have hdata := dataLen_of_le hlow
  obtain ⟨sum, hsent⟩ := icmpSendReply_eq stack packet len (dataLen packet) hsender (by omega)
    (by omega)
  rw [ipHandlePacket, ipEcho_of_dest hdest, icmpEcho_of_request ⟨by omega, hproto, htype⟩, answer,
    hsent]
  refine ⟨_, rfl, ?_, ?_, fun i hi hi' hlen => ?_⟩
  · rw [length_bytesOf]
    omega
  · have hheaders : (replyBuffer net stack packet mac (ipSrc packet) (dataLen packet)).readLE 2 16 =
        (replyHeaders net stack mac (ipSrc packet) (dataLen packet)).readLE 2 16 :=
      Mem.readLE_congr fun x _ hx => if_neg (by omega)
    rw [ipTotalLen, readLE_frameOf_bytesOf _ (by omega),
      Mem.readLE_writeLE_of_disjoint _ (by omega), hheaders,
      replyHeaders_totalLen _ _ _ _ (by omega)]
    omega
  · rw [length_bytesOf] at hlen
    rw [frameOf_bytesOf _ hlen, Mem.writeLE_of_outside _ (by omega), replyBuffer,
      if_neg (by omega), replyHeaders_rest _ _ _ _ _ hi]

theorem not_answeredFaithfully {net : NetState} {packet : Mem} {len : Nat} {mac : Mac} (stack : Mem)
    (h : Answerable net packet len mac) : ¬ AnsweredFaithfully net stack packet len mac := by
  rintro ⟨reply, hreply, hfaithful⟩
  obtain ⟨sent, hsent, -, htotal, -⟩ := echoReply_sent stack h
  obtain ⟨rfl, -⟩ := List.cons_eq_cons.mp (Except.ok.inj (hreply.symm.trans hsent))
  have hsame := hfaithful.totalLen
  omega

/-- No request is answered faithfully: the reply to each of them is cut. -/
theorem echoReply_cut {net : NetState} {packet : Mem} {len : Nat} {mac : Mac} (stack : Mem)
    (h : Answerable net packet len mac) :
    (∃ reply, ipHandlePacket net stack packet len = .ok [reply] ∧ reply.length + 8 = len ∧
      ipTotalLen (frameOf reply) + 8 = ipTotalLen packet ∧
      ∀ i, 38 ≤ i → i < 42 → i < reply.length → frameOf reply i = stack i) ∧
    ¬ AnsweredFaithfully net stack packet len mac :=
  ⟨echoReply_sent stack h, not_answeredFaithfully stack h⟩

/-- An echo request of the gateway with 32 bytes of payload, the letters from `A` on. -/
def gatewayPing : Mem := fun i =>
  ([0x52, 0x54, 0x00, 0xAB, 0xCD, 0xEF, 0x52, 0x54, 0x00, 0x12, 0x34, 0x56, 0x00, 0x08,
    0x45, 0, 0x3C, 0, 0x34, 0x12, 0, 0, 64, 1, 0xF9, 0xD3, 0x02, 0x02, 0x00, 0x0A,
    0x0F, 0x02, 0x00, 0x0A, 8, 0, 0x0C, 0x27, 0x34, 0x12, 1, 0,
    0x41, 0x42, 0x43, 0x44, 0x45, 0x46, 0x47, 0x48, 0x49, 0x4A, 0x4B, 0x4C, 0x4D, 0x4E, 0x4F, 0x50,
    0x51, 0x52, 0x53, 0x54, 0x55, 0x56, 0x57, 0x58, 0x59, 0x5A, 0x41, 0x42, 0x43, 0x44, 0x45,
    0x46] : List UInt8).getD i 0

/-- The hardware address it comes from. -/
def pingerMac : Mac := fun k => [0x52, 0x54, 0x00, 0x12, 0x34, 0x56].getD k.val 0

theorem answerable_gatewayPing : Answerable (bootNet fun _ => 0) gatewayPing 74 pingerMac where
  frame := by decide
  low := by decide
  high := by decide
  dest := by decide
  protocol := by decide
  request := by decide
  sender := by
    have hslot : (List.finRange 16).find? (fun i =>
        decide (i.val < (bootNet fun _ => 0).arpCacheCount) &&
          decide (((bootNet fun _ => 0).arpCache i).valid ≠ 0) &&
          decide (((bootNet fun _ => 0).arpCache i).ip = ipSrc gatewayPing)) = some 1 := by
      decide +kernel
    rw [arpLookup, hslot]
    rfl

theorem echoReply_cut_gatewayPing :
    Answerable (bootNet fun _ => 0) gatewayPing 74 pingerMac ∧
      ∃ reply, ipHandlePacket (bootNet fun _ => 0) (fun _ => 0) gatewayPing 74 = .ok [reply] ∧
        reply.length = 66 := by
  obtain ⟨reply, hreply, hlength, -⟩ := (echoReply_cut (fun _ => 0) answerable_gatewayPing).1
  exact ⟨answerable_gatewayPing, reply, hreply, by omega⟩

/-- The reply to this ping says that it is 52 bytes long, where the request has 60. -/
theorem echoReply_short_gatewayPing :
    ipTotalLen gatewayPing = 60 ∧
      (∃ reply, ipHandlePacket (bootNet fun _ => 0) (fun _ => 0) gatewayPing 74 = .ok [reply] ∧
        ipTotalLen (frameOf reply) = 52) ∧
      ¬ AnsweredFaithfully (bootNet fun _ => 0) (fun _ => 0) gatewayPing 74 pingerMac := by
  have hrequest : ipTotalLen gatewayPing = 60 := by decide
  obtain ⟨reply, hreply, -, htotal, -⟩ := echoReply_sent (fun _ => 0) answerable_gatewayPing
  exact ⟨hrequest, ⟨reply, hreply, by omega⟩,
    not_answeredFaithfully (fun _ => 0) answerable_gatewayPing⟩

end FalastinOS.Net
