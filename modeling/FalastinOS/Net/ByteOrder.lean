/-
  Net/ByteOrder.lean --- the frames of `net.c` against the wire.

  On the wire the integer fields of Ethernet, ARP and IPv4 stand with their most
  significant byte first.  `net.c` lays packed structures over its buffers and stores
  and reads these fields natively, least significant byte first, without `htons` and
  `ntohs`; so it understands its own frames and no others.

  `CarriesArp` and `CarriesEcho` say what the standards require of a frame.
  `never_network_order` says that nothing `net.c` sends is such a frame, and that it does
  not recognise the ARP requests of others.
-/
import FalastinOS.Drivers.Rtl8139
import FalastinOS.Foundation.Wire
import FalastinOS.Net.ArpCache
import FalastinOS.Net.Icmp

set_option autoImplicit false

namespace FalastinOS.Net

open FalastinOS.Foundation FalastinOS.Foundation.Wire FalastinOS.Drivers

/-! ## `ping` -/

/-- `ping_data`. -/
def pingData (i : Nat) : UInt8 := UInt8.ofNat (0x41 + i % 26)

/-- The headers `ping(ip)` stores, with a checksum of 0 in the ICMP header; bytes 38 to 41
are not stored. -/
def pingHeaders (net : NetState) (stack : Mem) (destMac : Mac) (ip : UInt32) : Mem :=
  let m := putEthHeader stack destMac net.ourMac 0x0800
  let m := m.writeByte 14 0x45
  let m := m.writeByte 15 0
  let m := m.writeLE 2 16 (ipHeaderSize + icmpHeaderSize + 32)
  let m := m.writeLE 2 18 0x1234
  let m := m.writeLE 2 20 0
  let m := m.writeByte 22 64
  let m := m.writeByte 23 1
  let m := m.writeLE 4 26 net.ourIp.toNat
  let m := m.writeLE 4 30 ip.toNat
  let m := m.writeLE 2 24 0
  let m := m.writeLE 2 24 (netChecksum m 14 ipHeaderSize)
  let m := m.writeByte 34 8
  let m := m.writeByte 35 0
  m.writeLE 2 36 0

/-- The packet `ping(ip)` hands to `rtl8139_send_packet` once it has a hardware address. -/
def pingPacket (net : NetState) (stack : Mem) (destMac : Mac) (ip : UInt32) : List UInt8 :=
  let m := (pingHeaders net stack destMac ip).blit 42 ((List.range 32).map pingData)
  let m := m.writeLE 2 36 (netChecksum m 34 (icmpHeaderSize + 32))
  bytesOf m (ethHeaderSize + (ipHeaderSize + icmpHeaderSize + 32))

/-- `ping(ip)`: the packets it sends.  While it sleeps after an ARP request no packet is
handled, so the second lookup fails as the first did. -/
def ping (net : NetStack) (stack : Mem) (ip : UInt32) : List (List UInt8) :=
  match arpLookup net.toNetState (nextHop net ip) with
  | some destMac => [pingPacket net.toNetState stack destMac ip]
  | none => [arpSendRequest net.toNetState stack (nextHop net ip)]

/-! ## `net_handle_packet` -/

/-- `net_handle_packet()`, with the old contents of its buffer and of the stack below: the
variables after it and the packets it sends. -/
def netHandlePacket (net : NetStack) (nic : Rtl8139) (buffer stack : Mem) :
    Except Fault (NetStack × Rtl8139 × List (List UInt8)) :=
  if !nic.packetAvailable then .ok (net, nic, [])
  else
    let reply := nic.receivePacket 2048
    if reply.ret ≤ 0 then .ok (net, reply.nic, [])
    else
      let packet := buffer.blit 0 reply.data
      let len := reply.ret.toNat
      let ethertype := packet.readLE 2 12
      if ethertype = 0x0806 then
        let (net', sent) := arpHandlePacket net stack packet len
        .ok (net', reply.nic, sent.toList)
      else if ethertype = 0x0800 then
        (ipHandlePacket net.toNetState stack packet len).map fun sent => (net, reply.nic, sent)
      else .ok (net, reply.nic, [])

/-! ## What the standards require -/

/-- Six bytes of a packet are a hardware address. -/
def MacAt (bytes : List UInt8) (i : Nat) (mac : Mac) : Prop :=
  ∀ k : Fin 6, bytes.getD (i + k.val) 0 = mac k

/-- The contents of an ARP frame. -/
structure ArpFields where
  dest : Mac
  src : Mac
  opcode : Nat
  senderMac : Mac
  senderIp : UInt32
  targetMac : Mac
  targetIp : UInt32

/-- The frame carries an ARP message for Ethernet and IPv4 (RFC 826). -/
structure CarriesArp (bytes : List UInt8) (a : ArpFields) : Prop where
  length : ethHeaderSize + arpHeaderSize ≤ bytes.length
  dest : MacAt bytes 0 a.dest
  src : MacAt bytes 6 a.src
  ethertype : wordAt bytes 12 = 0x0806
  htype : wordAt bytes 14 = 1
  ptype : wordAt bytes 16 = 0x0800
  hlen : bytes.getD 18 0 = 6
  plen : bytes.getD 19 0 = 4
  opcode : wordAt bytes 20 = a.opcode
  senderMac : MacAt bytes 22 a.senderMac
  senderIp : longAt bytes 28 = a.senderIp.toNat
  targetMac : MacAt bytes 32 a.targetMac
  targetIp : longAt bytes 38 = a.targetIp.toNat

/-- The frame carries an ICMP echo request in an IPv4 packet (RFC 791). -/
structure CarriesEcho (bytes : List UInt8) (src dest : UInt32) : Prop where
  ethertype : wordAt bytes 12 = 0x0800
  verIhl : bytes.getD 14 0 = 0x45
  totalLen : wordAt bytes 16 + ethHeaderSize = bytes.length
  protocol : bytes.getD 23 0 = 1
  checksum : ChecksumVerifies ((bytes.drop 14).take 20)
  srcIp : longAt bytes 26 = src.toNat
  destIp : longAt bytes 30 = dest.toNat
  echo : bytes.getD 34 0 = 8

/-! ## What is sent -/

theorem wordAt_bytesOf (m : Mem) {n i : Nat} (h : i + 1 < n) :
    wordAt (bytesOf m n) i = word (m i) (m (i + 1)) := by
  have hget : ∀ k, k < n → (bytesOf m n).getD k 0 = m k := by
    intro k hk
    rw [List.getD_eq_getElem _ _ (by simpa [bytesOf] using hk)]
    simp [bytesOf]
  rw [wordAt, hget i (by omega), hget (i + 1) h]

/-- The type field as `putEthHeader` leaves it. -/
theorem putEthHeader_type (m : Mem) (dest src : Mac) (ethertype : Nat) :
    putEthHeader m dest src ethertype 12 = UInt8.ofNat ethertype ∧
      putEthHeader m dest src ethertype 13 = UInt8.ofNat (ethertype / 256) := by
  simp [putEthHeader, Mem.writeLE]

/-- The type of an ARP request is on the wire as 06 08. -/
theorem wordAt_arpSendRequest (net : NetState) (stack : Mem) (target : UInt32) :
    wordAt (arpSendRequest net stack target) 12 = 0x0608 := by
  obtain ⟨h12, h13⟩ := putEthHeader_type stack (fun _ => 0xFF) net.ourMac 0x0806
  rw [arpSendRequest, wordAt_bytesOf _ (by decide)]
  simp only [Mem.writeLE, Mem.writeByte, putMac, Nat.reduceLeDiff, Nat.reduceEqDiff, false_and,
    if_false, dif_neg, not_false_eq_true, Nat.reduceAdd, h12, h13]
  decide

theorem wordAt_arpReply (net : NetStack) (stack packet : Mem) :
    wordAt (arpReply net stack packet) 12 = 0x0608 := by
  obtain ⟨h12, h13⟩ := putEthHeader_type stack (senderMac packet) net.ourMac 0x0806
  rw [arpReply, wordAt_bytesOf _ (by decide)]
  simp only [Mem.writeLE, Mem.writeByte, putMac, Nat.reduceLeDiff, Nat.reduceEqDiff, false_and,
    if_false, dif_neg, not_false_eq_true, Nat.reduceAdd, h12, h13]
  decide

/-- The type of an echo request is on the wire as 00 08. -/
theorem wordAt_pingPacket (net : NetState) (stack : Mem) (destMac : Mac) (ip : UInt32) :
    wordAt (pingPacket net stack destMac ip) 12 = 0x0008 := by
  obtain ⟨h12, h13⟩ := putEthHeader_type stack destMac net.ourMac 0x0800
  rw [pingPacket, wordAt_bytesOf _ (by decide)]
  simp only [pingHeaders, Mem.blit, Mem.writeLE, Mem.writeByte, Nat.reduceLeDiff,
    Nat.reduceEqDiff, false_and, if_false, Nat.reduceAdd, h12, h13]
  decide

theorem not_carriesArp_of_type {bytes : List UInt8} (h : wordAt bytes 12 ≠ 0x0806)
    (a : ArpFields) : ¬ CarriesArp bytes a := fun hcarries => h hcarries.ethertype

/-! ## What is recognised -/

/-- The type field of a received ARP frame, as the handler reads it. -/
theorem readLE_type {data : List UInt8} {a : ArpFields} (h : CarriesArp data a) (buffer : Mem) :
    (buffer.blit 0 data).readLE 2 12 = 0x0608 := by
  have hlen : 42 ≤ data.length := h.length
  have hbyte : ∀ k, k < data.length → buffer.blit 0 data k = data.getD k 0 := by
    intro k hk
    rw [Mem.blit, if_pos (by omega), Nat.sub_zero]
  have htype := h.ethertype
  have hhi := (data.getD 12 0).toNat_lt
  have hlo := (data.getD 13 0).toNat_lt
  simp only [wordAt, word, Nat.reduceAdd] at htype
  simp only [Mem.readLE, Nat.reduceAdd, hbyte 12 (by omega), hbyte 13 (by omega)]
  omega

/-- No ARP frame of another machine is recognised: it changes nothing and gets no answer. -/
theorem netHandlePacket_arp {net : NetStack} {nic : Rtl8139} {a : ArpFields} (buffer stack : Mem)
    (h : CarriesArp (nic.receivePacket 2048).data a) :
    ∃ nic', netHandlePacket net nic buffer stack = .ok (net, nic', []) := by
  unfold netHandlePacket
  cases nic.packetAvailable with
  | false => exact ⟨nic, rfl⟩
  | true =>
      simp only [Bool.not_true, Bool.false_eq_true, if_false]
      by_cases hret : (nic.receivePacket 2048).ret ≤ 0
      · exact ⟨_, if_pos hret⟩
      · rw [if_neg hret, readLE_type h buffer, if_neg (by decide), if_neg (by decide)]
        exact ⟨_, rfl⟩

/-- For every configuration, address and packet: what `arp_send_request`, the reply path of
`arp_handle_packet` and `ping` send is not in network byte order, and an ARP request for our
own address is neither recognised nor answered. -/
theorem never_network_order (net : NetStack) (stack : Mem) :
    (∀ target a, ¬ CarriesArp (arpSendRequest net.toNetState stack target) a) ∧
      (∀ packet a, ¬ CarriesArp (arpReply net stack packet) a) ∧
      (∀ ip, ∀ bytes ∈ ping net stack ip,
        (∀ a, ¬ CarriesArp bytes a) ∧ ∀ src dest, ¬ CarriesEcho bytes src dest) ∧
      ∀ (nic : Rtl8139) (a : ArpFields) (buffer : Mem),
        CarriesArp (nic.receivePacket 2048).data a → a.opcode = 1 → a.targetIp = net.ourIp →
          ∃ nic', netHandlePacket net nic buffer stack = .ok (net, nic', []) := by
  have hrequest := wordAt_arpSendRequest net.toNetState stack
  refine ⟨fun target => not_carriesArp_of_type (by rw [hrequest]; decide),
    fun packet => not_carriesArp_of_type (by rw [wordAt_arpReply]; decide), ?_,
    fun nic a buffer h _ _ => netHandlePacket_arp buffer stack h⟩
  intro ip bytes hmem
  unfold ping at hmem
  cases hlookup : arpLookup net.toNetState (nextHop net ip) with
  | some destMac =>
      rw [hlookup] at hmem
      obtain rfl := List.mem_singleton.mp hmem
      have htype := wordAt_pingPacket net.toNetState stack destMac ip
      refine ⟨not_carriesArp_of_type (by rw [htype]; decide), fun src dest h => ?_⟩
      exact absurd (htype.symm.trans h.ethertype) (by decide)
  | none =>
      rw [hlookup] at hmem
      obtain rfl := List.mem_singleton.mp hmem
      refine ⟨not_carriesArp_of_type (by rw [hrequest]; decide), fun src dest h => ?_⟩
      exact absurd ((hrequest _).symm.trans h.ethertype) (by decide)

/-- The gateway asks for 10.0.2.15: what it says, and the frame it sends. -/
def gatewayAsks : ArpFields where
  dest := fun _ => 0xFF
  src := gatewayMac
  opcode := 1
  senderMac := gatewayMac
  senderIp := 0x0A000202
  targetMac := fun _ => 0
  targetIp := 0x0A00020F

def gatewayFrame : Frame where
  bytes :=
    [0xFF, 0xFF, 0xFF, 0xFF, 0xFF, 0xFF, 0x52, 0x54, 0x00, 0x12, 0x34, 0x56, 0x08, 0x06,
      0x00, 0x01, 0x08, 0x00, 0x06, 0x04, 0x00, 0x01, 0x52, 0x54, 0x00, 0x12, 0x34, 0x56,
      0x0A, 0x00, 0x02, 0x02, 0x00, 0x00, 0x00, 0x00, 0x00, 0x00, 0x0A, 0x00, 0x02, 0x0F]
  status := 1
  crc := fun _ => 0
  nonempty := by decide
  lengthLe := by decide

theorem gatewayFrame_carries : CarriesArp gatewayFrame.bytes gatewayAsks where
  length := by decide
  dest := by unfold MacAt; decide
  src := by unfold MacAt; decide
  ethertype := by decide
  htype := by decide
  ptype := by decide
  hlen := by decide
  plen := by decide
  opcode := by decide
  senderMac := by unfold MacAt; decide
  senderIp := by decide
  targetMac := by unfold MacAt; decide
  targetIp := by decide

/-- The frame is received, it is a proper request for our address, and there is no answer;
and our own request for the gateway has the bytes of its type the wrong way round. -/
theorem gateway_request_unanswered :
    let nic := (Rtl8139.init fun _ => 0).deviceWrite gatewayFrame
    let net := netInit NetStack.boot fun _ => 0x52
    CarriesArp (nic.receivePacket 2048).data gatewayAsks ∧ gatewayAsks.targetIp = net.ourIp ∧
      (∃ nic', netHandlePacket net nic (fun _ => 0) (fun _ => 0) = .ok (net, nic', [])) ∧
      (arpSendRequest net.toNetState (fun _ => 0) net.gatewayIp).getD 12 0 = 0x06 ∧
      (arpSendRequest net.toNetState (fun _ => 0) net.gatewayIp).getD 13 0 = 0x08 := by
  intro nic net
  have hdata : (nic.receivePacket 2048).data = gatewayFrame.bytes := by decide +kernel
  have hcarries : CarriesArp (nic.receivePacket 2048).data gatewayAsks := by
    rw [hdata]
    exact gatewayFrame_carries
  refine ⟨hcarries, by decide, netHandlePacket_arp _ _ hcarries, ?_, ?_⟩ <;> decide +kernel

end FalastinOS.Net
