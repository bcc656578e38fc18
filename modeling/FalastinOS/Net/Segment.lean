/-
  Net/Segment.lean --- machines of this kernel on one Ethernet segment.

  Any number of machines send each other the frames of `net.c`, and the segment may lose
  them, repeat them, reorder them, and show a frame to machines it is not addressed to: a
  frame that was ever sent may be delivered to anyone at any time.

  `safe` says what holds in every such run: no handler leaves its buffers, and no
  machine ever believes a wrong hardware address.  `resolves` says that asking works:
  a request that reaches its target and an answer that comes back resolve the address
  whatever happens in between, and it stays resolved.  `deliveries_le` says that the
  segment becomes quiet: how many frames can still be delivered is bounded by the frames
  that are pending now.
-/
import FalastinOS.Net.EchoReply
import FalastinOS.Net.ByteOrder
import Mathlib.Tactic.ByContra

set_option autoImplicit false

namespace FalastinOS.Net

open FalastinOS.Foundation FalastinOS.Drivers

/-! ## A frame arrives -/

/-- What `net_handle_packet()` does with a received packet. -/
def netDispatch (net : NetStack) (stack packet : Mem) (len : Nat) :
    Except Fault (NetStack × List (List UInt8)) :=
  if packet.readLE 2 12 = 0x0806 then
    let (net', sent) := arpHandlePacket net stack packet len
    .ok (net', sent.toList)
  else if packet.readLE 2 12 = 0x0800 then
    (ipHandlePacket net.toNetState stack packet len).map fun sent => (net, sent)
  else .ok (net, [])

/-- With a frame of the card's ring in front of it, `net_handle_packet()` dispatches it. -/
theorem netHandlePacket_received {net : NetStack} {nic : Rtl8139} {f : Frame} (buffer stack : Mem)
    (hinit : nic.rtlInitialized = true) (hready : nic.cbr ≠ nic.rxOffset)
    (haligned : nic.rxOffset % 4 = 0) (hlt : nic.rxOffset < rxBufSize)
    (hslice : nic.rxBuffer.slice nic.rxOffset f.record.bytes.length = f.record.bytes) :
    netHandlePacket net nic buffer stack =
      (netDispatch net stack (buffer.blit 0 f.bytes) f.bytes.length).map fun r =>
        (r.1, (nic.receivePacket 2048).nic, r.2) := by
  have havailable : nic.packetAvailable = true := by simp [Rtl8139.packetAvailable, hinit, hready]
  have hreply := Traffic.receivePacket_eq hinit hready haligned hlt hslice
  have hpos := f.nonempty
  unfold netHandlePacket netDispatch
  rw [havailable, hreply, if_neg (by decide)]
  simp only [Int.toNat_natCast]
  rw [if_neg (by omega)]
  split
  · rfl
  · split
    · cases ipHandlePacket net.toNetState stack (buffer.blit 0 f.bytes) f.bytes.length <;> rfl
    · rfl

/-- The bytes of a frame that a machine has received. -/
theorem blit_eq_frameOf (buffer : Mem) {bytes : List UInt8} {i : Nat} (h : i < bytes.length) :
    buffer.blit 0 bytes i = frameOf bytes i := by
  rw [Mem.blit, if_pos (by omega), Nat.sub_zero]
  rfl

/-! ## ARP frames -/

/-- The buffer in which both kinds of ARP frame are put together. -/
def arpBuffer (stack : Mem) (dest src : Mac) (opcode : Nat) (sender : UInt32) (targetMac : Mac)
    (target : UInt32) : Mem :=
  let m := putEthHeader stack dest src 0x0806
  let m := m.writeLE 2 14 1
  let m := m.writeLE 2 16 0x0800
  let m := m.writeByte 18 6
  let m := m.writeByte 19 4
  let m := m.writeLE 2 20 opcode
  let m := putMac m 22 src
  let m := m.writeLE 4 28 sender.toNat
  let m := putMac m 32 targetMac
  m.writeLE 4 38 target.toNat

theorem arpSendRequest_eq (net : NetState) (stack : Mem) (target : UInt32) :
    arpSendRequest net stack target =
      bytesOf (arpBuffer stack (fun _ => 0xFF) net.ourMac 1 net.ourIp (fun _ => 0) target) 42 := rfl

theorem arpReply_eq (net : NetStack) (stack packet : Mem) :
    arpReply net stack packet =
      bytesOf (arpBuffer stack (senderMac packet) net.ourMac 2 net.ourIp (senderMac packet)
        (senderIp packet)) 42 := rfl

/-- What an ARP frame says to `arp_handle_packet`. -/
structure ArpHeard (packet : Mem) (src : Mac) (opcode : Nat) (sender target : UInt32) : Prop where
  ethertype : packet.readLE 2 12 = 0x0806
  opcode : arpOpcode packet = opcode
  senderMac : senderMac packet = src
  senderIp : senderIp packet = sender
  targetIp : targetIp packet = target

section Layout

variable (m : Mem) {a b n k v x : Nat} {byte : UInt8} {mac : Mac}

theorem putMac_of_outside (h : x < a ∨ a + 6 ≤ x) : putMac m a mac x = m x := by
  rw [putMac, dif_neg (by omega)]

theorem putMac_at (i : Fin 6) : putMac m a mac (a + i.val) = mac i := by
  rw [putMac, dif_pos (by omega)]
  congr 1
  exact Fin.ext (by simp only; omega)

theorem readLE_putMac_of_disjoint (h : b + k ≤ a ∨ a + 6 ≤ b) :
    (putMac m a mac).readLE k b = m.readLE k b :=
  Mem.readLE_congr fun _ _ _ => putMac_of_outside m (by omega)

theorem readLE_writeByte_of_outside (h : x < b ∨ b + k ≤ x) :
    (m.writeByte x byte).readLE k b = m.readLE k b :=
  Mem.readLE_congr fun _ _ _ => m.writeByte_of_ne byte (by omega)

theorem readLE_blit_of_before {bytes : List UInt8} (h : b + k ≤ a) :
    (m.blit a bytes).readLE k b = m.readLE k b :=
  Mem.readLE_congr fun _ _ _ => if_neg (by omega)

end Layout

section Arp

variable (stack : Mem) (dest src targetMac : Mac) (opcode : Nat) (sender target : UInt32)

theorem arpBuffer_heard (hopcode : opcode < 65536) :
    ArpHeard (arpBuffer stack dest src opcode sender targetMac target) src opcode sender
      target := by
  constructor
  · unfold arpBuffer putEthHeader
    simp (disch := omega) only [Mem.readLE_writeLE_of_disjoint, readLE_putMac_of_disjoint,
      readLE_writeByte_of_outside]
    exact Mem.readLE_writeLE_of_lt _ 12 (by decide)
  · unfold arpOpcode arpBuffer putEthHeader
    simp (disch := omega) only [Mem.readLE_writeLE_of_disjoint, readLE_putMac_of_disjoint]
    exact Mem.readLE_writeLE_of_lt _ 20 hopcode
  · funext i
    unfold senderMac arpBuffer
    simp (disch := omega) only [Mem.writeLE_of_outside, putMac_of_outside]
    exact putMac_at _ i
  · unfold senderIp arpBuffer
    simp (disch := omega) only [Mem.readLE_writeLE_of_disjoint, readLE_putMac_of_disjoint]
    rw [Mem.readLE_writeLE_of_lt _ 28 (by exact sender.toNat_lt)]
    exact UInt32.ofNat_toNat
  · unfold targetIp arpBuffer
    rw [Mem.readLE_writeLE_of_lt _ 38 (by exact target.toNat_lt)]
    exact UInt32.ofNat_toNat

end Arp

/-! ## What a receiver reads -/

/-- A received frame holds the bytes of the buffer it was put together in. -/
theorem blit_bytesOf (buffer m : Mem) {n i : Nat} (h : i < n) :
    buffer.blit 0 (bytesOf m n) i = m i := by
  rw [Mem.blit, if_pos (by rw [length_bytesOf]; omega), Nat.sub_zero]
  exact frameOf_bytesOf m h

theorem readLE_blit_bytesOf (buffer m : Mem) {n k a : Nat} (h : a + k ≤ n) :
    (buffer.blit 0 (bytesOf m n)).readLE k a = m.readLE k a :=
  Mem.readLE_congr fun _ _ _ => blit_bytesOf buffer m (by omega)

theorem ArpHeard.received {m : Mem} {src : Mac} {opcode : Nat} {sender target : UInt32}
    (h : ArpHeard m src opcode sender target) (buffer : Mem) :
    ArpHeard (buffer.blit 0 (bytesOf m 42)) src opcode sender target where
  ethertype := (readLE_blit_bytesOf buffer m (by decide)).trans h.ethertype
  opcode := (readLE_blit_bytesOf buffer m (by decide)).trans h.opcode
  senderMac := by
    rw [← h.senderMac]
    exact funext fun i => blit_bytesOf buffer m (by omega)
  senderIp :=
    (congrArg UInt32.ofNat (readLE_blit_bytesOf buffer m (by decide))).trans h.senderIp
  targetIp :=
    (congrArg UInt32.ofNat (readLE_blit_bytesOf buffer m (by decide))).trans h.targetIp

/-- A request is heard as one. -/
theorem arpSendRequest_heard (net : NetState) (stack : Mem) (target : UInt32) (buffer : Mem) :
    ArpHeard (buffer.blit 0 (arpSendRequest net stack target)) net.ourMac 1 net.ourIp target :=
  (arpBuffer_heard stack _ _ _ 1 _ target (by decide)).received buffer

/-- An answer is heard as one, by the machine that has asked. -/
theorem arpReply_heard (net : NetStack) (stack packet buffer : Mem) :
    ArpHeard (buffer.blit 0 (arpReply net stack packet)) net.ourMac 2 net.ourIp (senderIp packet) :=
  (arpBuffer_heard stack _ _ _ 2 _ _ (by decide)).received buffer

/-- What a ping says to `ip_handle_packet`. -/
structure PingHeard (packet : Mem) : Prop where
  ethertype : packet.readLE 2 12 = 0x0800
  totalLen : ipTotalLen packet = 60

theorem pingPacket_heard (net : NetState) (stack : Mem) (destMac : Mac) (ip : UInt32)
    (buffer : Mem) : PingHeard (buffer.blit 0 (pingPacket net stack destMac ip)) := by
  constructor
  · unfold pingPacket
    rw [readLE_blit_bytesOf _ _ (by decide)]
    unfold pingHeaders putEthHeader
    simp (disch := omega) only [Mem.readLE_writeLE_of_disjoint, readLE_blit_of_before,
      readLE_writeByte_of_outside]
    exact Mem.readLE_writeLE_of_lt _ 12 (by decide)
  · unfold ipTotalLen pingPacket
    rw [readLE_blit_bytesOf _ _ (by decide)]
    unfold pingHeaders
    simp (disch := omega) only [Mem.readLE_writeLE_of_disjoint, readLE_blit_of_before,
      readLE_writeByte_of_outside]
    exact Mem.readLE_writeLE_of_lt _ 16 (by decide)

/-- What an echo reply says to `ip_handle_packet`. -/
theorem replyBuffer_heard (net : NetState) (stack packet : Mem) (mac : Mac) (destIp : UInt32)
    (len sum : Nat) (buffer : Mem) :
    let received := buffer.blit 0
      (bytesOf ((replyBuffer net stack packet mac destIp len).writeLE 2 36 sum) (34 + len))
    received.readLE 2 12 = 0x0800 ∧ ¬ EchoRequest received (34 + len) := by
  intro received
  constructor
  · have hbuffer : (replyBuffer net stack packet mac destIp len).readLE 2 12 =
        (replyHeaders net stack mac destIp len).readLE 2 12 :=
      Mem.readLE_congr fun x _ hx => if_neg (by omega)
    rw [readLE_blit_bytesOf _ _ (by omega), Mem.readLE_writeLE_of_disjoint _ (by omega), hbuffer]
    unfold replyHeaders putEthHeader
    simp (disch := omega) only [Mem.readLE_writeLE_of_disjoint, readLE_writeByte_of_outside]
    exact Mem.readLE_writeLE_of_lt _ 12 (by decide)
  · rintro ⟨hlen, _, htype⟩
    have hzero : received 34 = 0 := by
      refine (blit_bytesOf _ _ (by omega)).trans ?_
      rw [Mem.writeLE_of_outside _ (by omega), replyBuffer,
        if_neg (by omega)]
      unfold replyHeaders
      rw [Mem.writeLE_of_outside _ (by omega), Mem.writeByte_of_ne _ _ (by omega),
        Mem.writeByte_self]
    exact absurd (hzero.symm.trans htype) (by decide)

/-! ## The segment -/

variable {ι : Type}

/-- The machines, and the frames that have been sent. -/
structure Segment (ι : Type) where
  hosts : ι → NetStack
  sent : List (List UInt8)

/-- What can happen, with the old contents of the buffers and stacks it happens in. -/
inductive SegmentEvent (ι : Type) where
  | request (i : ι) (ip : UInt32) (stack : Mem)
  | ping (i : ι) (ip : UInt32) (stack : Mem)
  /-- a frame that was sent reaches a machine, be it addressed to it or not -/
  | deliver (i : ι) (bytes : List UInt8) (buffer stack : Mem)

namespace Segment

def step [DecidableEq ι] (s : Segment ι) : SegmentEvent ι → Except Fault (Segment ι)
  | .request i ip stack =>
      .ok { s with sent := s.sent ++ [arpSendRequest (s.hosts i).toNetState stack ip] }
  | .ping i ip stack => .ok { s with sent := s.sent ++ Net.ping (s.hosts i) stack ip }
  | .deliver i bytes buffer stack =>
      if bytes ∈ s.sent then
        (netDispatch (s.hosts i) stack (buffer.blit 0 bytes) bytes.length).map fun (net, out) =>
          ⟨Function.update s.hosts i net, s.sent ++ out⟩
      else .ok s

end Segment

variable (ip : ι → UInt32) (mac : ι → Mac)

/-- The machine has its addresses, and believes of the others what is true. -/
structure Informed (i : ι) (net : NetStack) : Prop where
  ourIp : net.ourIp = ip i
  ourMac : net.ourMac = mac i
  kept : net.table.Kept
  right : ∀ j m, arpLookup net.toNetState (ip j) = some m → m = mac j

/-- The frame tells its receiver nothing wrong: an ARP message gives the address of its
sender, and an echo request has the length it says. -/
structure Honest (bytes : List UInt8) : Prop where
  arp : ∀ buffer : Mem, (buffer.blit 0 bytes).readLE 2 12 = 0x0806 →
    ∃ j, senderIp (buffer.blit 0 bytes) = ip j ∧ senderMac (buffer.blit 0 bytes) = mac j
  echo : ∀ buffer : Mem, (buffer.blit 0 bytes).readLE 2 12 = 0x0800 →
    EchoRequest (buffer.blit 0 bytes) bytes.length →
      ConsistentLength (buffer.blit 0 bytes) bytes.length

variable {ip mac} {i : ι} {net : NetStack}

theorem honest_of_arpHeard {bytes : List UInt8} {opcode : Nat} {target : UInt32}
    (h : ∀ buffer : Mem, ArpHeard (buffer.blit 0 bytes) (mac i) opcode (ip i) target) :
    Honest ip mac bytes where
  arp := fun buffer _ => ⟨i, (h buffer).senderIp, (h buffer).senderMac⟩
  echo := fun buffer htype => absurd ((h buffer).ethertype.symm.trans htype) (by decide)

theorem honest_arpSendRequest (h : Informed ip mac i net) (stack : Mem) (target : UInt32) :
    Honest ip mac (arpSendRequest net.toNetState stack target) :=
  honest_of_arpHeard fun buffer => by
    rw [← h.ourMac, ← h.ourIp]
    exact arpSendRequest_heard _ _ _ _

theorem honest_arpReply (h : Informed ip mac i net) (stack packet : Mem) :
    Honest ip mac (arpReply net stack packet) :=
  honest_of_arpHeard fun buffer => by
    rw [← h.ourMac, ← h.ourIp]
    exact arpReply_heard _ _ _ _

theorem honest_pingPacket (stack : Mem) (destMac : Mac) (target : UInt32) :
    Honest ip mac (pingPacket net.toNetState stack destMac target) where
  arp := fun buffer htype =>
    absurd ((pingPacket_heard _ _ _ _ buffer).ethertype.symm.trans htype) (by decide)
  echo := fun buffer _ _ => by
    have hlen : (pingPacket net.toNetState stack destMac target).length = 74 := length_bytesOf _ _
    have htotal := (pingPacket_heard net.toNetState stack destMac target buffer).totalLen
    rw [ConsistentLength, hlen, htotal]
    decide

theorem honest_ping (h : Informed ip mac i net) (stack : Mem) (target : UInt32) :
    ∀ bytes ∈ ping net stack target, Honest ip mac bytes := by
  intro bytes hmem
  unfold ping at hmem
  split at hmem
  · obtain rfl := List.mem_singleton.mp hmem
    exact honest_pingPacket _ _ _
  · obtain rfl := List.mem_singleton.mp hmem
    exact honest_arpSendRequest h _ _

theorem honest_echoReply (net : NetStack) (stack packet : Mem) (m : Mac) (destIp : UInt32)
    (len sum : Nat) :
    Honest ip mac (bytesOf
      ((replyBuffer net.toNetState stack packet m destIp len).writeLE 2 36 sum) (34 + len)) where
  arp := fun buffer htype => absurd
    ((replyBuffer_heard net.toNetState stack packet m destIp len sum buffer).1.symm.trans htype)
    (by decide)
  echo := fun buffer _ hrequest => absurd (by rwa [length_bytesOf] at hrequest)
    (replyBuffer_heard net.toNetState stack packet m destIp len sum buffer).2

/-! ## What a machine learns -/

theorem arpStore_config (net : NetStack) (a : UInt32) (m : Mac) :
    (arpStore net a m).ourMac = net.ourMac ∧ (arpStore net a m).ourIp = net.ourIp := by
  rw [arpStore_eq]
  split
  · exact ⟨rfl, rfl⟩
  · split <;> exact ⟨rfl, rfl⟩

/-- What was found before a store is found after it. -/
theorem lookup_isSome_arpStore (hkept : net.table.Kept) (a : UInt32) (m : Mac) {b : UInt32}
    (h : (arpLookup net.toNetState b).isSome) :
    (arpLookup (arpStore net a m).toNetState b).isSome := by
  rw [arpLookup_eq, table_arpStore]
  rw [arpLookup_eq] at h
  by_cases hb : b = a
  · subst hb
    have hfound : net.table.lookup b ≠ none := Option.isSome_iff_ne_none.mp h
    rw [hkept.lookup_store_self, if_neg (fun hfull => hfound hfull.1)]
    rfl
  · rwa [hkept.lookup_store_other m hb]

theorem count_le_arpStore (net : NetStack) (a : UInt32) (m : Mac) :
    net.arpCacheCount ≤ (arpStore net a m).arpCacheCount := by
  have hle := net.table.count_le_store a m
  rwa [← table_arpStore] at hle

theorem informed_arpStore (hip : Function.Injective ip) (h : Informed ip mac i net) (j : ι) :
    Informed ip mac i (arpStore net (ip j) (mac j)) where
  ourIp := (arpStore_config net _ _).2.trans h.ourIp
  ourMac := (arpStore_config net _ _).1.trans h.ourMac
  kept := by
    rw [table_arpStore]
    exact h.kept.store _ _
  right := by
    intro k m hlookup
    rw [arpLookup_eq, table_arpStore] at hlookup
    by_cases hk : ip k = ip j
    · rw [hk, h.kept.lookup_store_self] at hlookup
      split at hlookup
      · exact absurd hlookup.symm (Option.some_ne_none m)
      · rw [hip hk]
        exact (Option.some.inj hlookup).symm
    · rw [h.kept.lookup_store_other _ hk] at hlookup
      exact h.right k m hlookup

/-- What a machine does with an honest frame. -/
structure Handled (ip : ι → UInt32) (mac : ι → Mac) (i : ι) (net : NetStack)
    (r : NetStack × List (List UInt8)) : Prop where
  informed : Informed ip mac i r.1
  honest : ∀ bytes ∈ r.2, Honest ip mac bytes
  gatewayIp : r.1.gatewayIp = net.gatewayIp
  known : ∀ a, (arpLookup net.toNetState a).isSome → (arpLookup r.1.toNetState a).isSome
  count : net.arpCacheCount ≤ r.1.arpCacheCount

theorem Handled.unchanged (h : Informed ip mac i net) {out : List (List UInt8)}
    (hout : ∀ bytes ∈ out, Honest ip mac bytes) : Handled ip mac i net (net, out) :=
  ⟨h, hout, rfl, fun _ hknown => hknown, Nat.le_refl _⟩

theorem arpHandlePacket_handled (hip : Function.Injective ip) (h : Informed ip mac i net)
    (stack packet : Mem) (len : Nat)
    (hsender : ∃ j, senderIp packet = ip j ∧ senderMac packet = mac j) :
    Handled ip mac i net ((arpHandlePacket net stack packet len).1,
      (arpHandlePacket net stack packet len).2.toList) := by
  obtain ⟨j, hsenderIp, hsenderMac⟩ := hsender
  unfold arpHandlePacket
  split
  · exact .unchanged h (by simp)
  · split
    · exact .unchanged h (by simp)
    · have hstored : Informed ip mac i (arpStore net (senderIp packet) (senderMac packet)) := by
        rw [hsenderIp, hsenderMac]
        exact informed_arpStore hip h j
      refine ⟨hstored, ?_, arpStore_gatewayIp _ _ _,
        fun a => lookup_isSome_arpStore h.kept _ _, count_le_arpStore _ _ _⟩
      intro bytes hmem
      split at hmem
      · obtain rfl := List.mem_singleton.mp hmem
        exact honest_arpReply hstored stack packet
      · exact absurd hmem (by simp)

/-- Every answer of `icmp_send_reply` to a payload that fits is honest. -/
theorem icmpSendReply_honest (h : Informed ip mac i net) (stack packet : Mem) (destIp : UInt32)
    (frameLen len : Nat) (hframe : 42 + len ≤ frameLen) (hreply : len ≤ 470) :
    ∃ bytes, icmpSendReply net.toNetState stack packet frameLen destIp len = .ok bytes ∧
      Honest ip mac bytes := by
  cases hlookup : arpLookup net.toNetState destIp with
  | none =>
      refine ⟨_, ?_, honest_arpSendRequest h stack destIp⟩
      rw [icmpSendReply, hlookup]
  | some m =>
      obtain ⟨sum, hsent⟩ := icmpSendReply_eq stack packet frameLen len hlookup hframe hreply
      exact ⟨_, hsent, honest_echoReply net stack packet m destIp len sum⟩

theorem ipHandlePacket_honest (h : Informed ip mac i net) (stack : Mem) {packet : Mem} {len : Nat}
    (hlength : EchoRequest packet len → ConsistentLength packet len) :
    ∃ out, ipHandlePacket net.toNetState stack packet len = .ok out ∧
      ∀ bytes ∈ out, Honest ip mac bytes := by
  rw [ipHandlePacket]
  cases hecho : ipEcho net.toNetState packet len with
  | none => exact ⟨[], rfl, by simp⟩
  | some call =>
      have hdest : ipDest packet = net.ourIp := by
        by_contra hne
        simp [ipEcho, hne] at hecho
      rw [ipEcho_of_dest hdest] at hecho
      have hrequest : EchoRequest packet len := by
        by_contra hno
        rw [icmpEcho_of_not_request hno] at hecho
        exact absurd hecho.symm (Option.some_ne_none call)
      obtain ⟨hlow, hhigh, hframe⟩ := hlength hrequest
      rw [icmpEcho_of_request hrequest, Option.some.injEq] at hecho
      have hdata := dataLen_of_le hlow
      obtain ⟨bytes, hsent, hhonest⟩ := icmpSendReply_honest h stack packet (ipSrc packet)
        len (dataLen packet) (by omega) (by omega)
      refine ⟨[bytes], ?_, by simpa using hhonest⟩
      rw [← hecho, answer, hsent]
      rfl

/-- A machine handles every honest frame without a fault. -/
theorem netDispatch_handled (hip : Function.Injective ip) (h : Informed ip mac i net)
    {bytes : List UInt8} (hbytes : Honest ip mac bytes) (buffer stack : Mem) :
    ∃ r, netDispatch net stack (buffer.blit 0 bytes) bytes.length = .ok r ∧
      Handled ip mac i net r := by
  unfold netDispatch
  split
  · rename_i htype
    exact ⟨_, rfl, arpHandlePacket_handled hip h stack _ _ (hbytes.arp buffer htype)⟩
  · split
    · rename_i htype
      obtain ⟨out, hsent, hout⟩ := ipHandlePacket_honest h stack (hbytes.echo buffer htype)
      refine ⟨(net, out), ?_, .unchanged h hout⟩
      rw [hsent]
      rfl
    · exact ⟨_, rfl, .unchanged h (by simp)⟩

/-! ## Every run is safe -/

namespace Segment

/-- Every machine is informed and every frame honest. -/
structure Sane (ip : ι → UInt32) (mac : ι → Mac) (s : Segment ι) : Prop where
  informed : ∀ i, Informed ip mac i (s.hosts i)
  honest : ∀ bytes ∈ s.sent, Honest ip mac bytes

/-- What only grows. -/
structure Later (s s' : Segment ι) : Prop where
  sent : ∀ bytes ∈ s.sent, bytes ∈ s'.sent
  gatewayIp : ∀ i, (s'.hosts i).gatewayIp = (s.hosts i).gatewayIp
  known : ∀ i a, (arpLookup (s.hosts i).toNetState a).isSome →
    (arpLookup (s'.hosts i).toNetState a).isSome
  count : ∀ i, (s.hosts i).arpCacheCount ≤ (s'.hosts i).arpCacheCount

theorem Later.refl (s : Segment ι) : s.Later s :=
  ⟨fun _ h => h, fun _ => rfl, fun _ _ h => h, fun _ => Nat.le_refl _⟩

theorem Later.trans {s s' s'' : Segment ι} (h : s.Later s') (h' : s'.Later s'') : s.Later s'' where
  sent := fun bytes hmem => h'.sent bytes (h.sent bytes hmem)
  gatewayIp := fun i => (h'.gatewayIp i).trans (h.gatewayIp i)
  known := fun i a hknown => h'.known i a (h.known i a hknown)
  count := fun i => (h.count i).trans (h'.count i)

variable {s s' : Segment ι}

theorem sane_sent (hs : s.Sane ip mac) {out : List (List UInt8)}
    (hout : ∀ bytes ∈ out, Honest ip mac bytes) :
    Sane ip mac { s with sent := s.sent ++ out } ∧ s.Later { s with sent := s.sent ++ out } := by
  refine ⟨⟨hs.informed, fun bytes hmem => ?_⟩, fun bytes hmem => List.mem_append_left _ hmem,
    fun _ => rfl, fun _ _ h => h, fun _ => Nat.le_refl _⟩
  exact (List.mem_append.mp hmem).elim (hs.honest bytes) (hout bytes)

variable [DecidableEq ι]

theorem sane_handled (hs : s.Sane ip mac) {i : ι} {r : NetStack × List (List UInt8)}
    (hr : Handled ip mac i (s.hosts i) r) :
    Sane ip mac ⟨Function.update s.hosts i r.1, s.sent ++ r.2⟩ ∧
      s.Later ⟨Function.update s.hosts i r.1, s.sent ++ r.2⟩ := by
  have hhost : ∀ {P : ι → NetStack → Prop}, P i r.1 → (∀ k, P k (s.hosts k)) →
      ∀ k, P k (Function.update s.hosts i r.1 k) := by
    intro P hnew hold k
    by_cases hk : k = i
    · rw [hk, Function.update_self]
      exact hnew
    · rw [Function.update_of_ne hk]
      exact hold k
  refine ⟨⟨hhost hr.informed hs.informed, fun bytes hmem => ?_⟩,
    fun bytes hmem => List.mem_append_left _ hmem, ?_, ?_, ?_⟩
  · exact (List.mem_append.mp hmem).elim (hs.honest bytes) (hr.honest bytes)
  · exact hhost (P := fun k net => net.gatewayIp = (s.hosts k).gatewayIp) hr.gatewayIp fun _ => rfl
  · exact hhost (P := fun k net => ∀ a, (arpLookup (s.hosts k).toNetState a).isSome →
      (arpLookup net.toNetState a).isSome) hr.known fun _ _ h => h
  · exact hhost (P := fun k net => (s.hosts k).arpCacheCount ≤ net.arpCacheCount) hr.count
      fun _ => Nat.le_refl _

/-- A step does not fail, keeps the segment sane, and only adds to it. -/
theorem step_sane (hip : Function.Injective ip) (hs : s.Sane ip mac) (e : SegmentEvent ι) :
    ∃ s', step s e = .ok s' ∧ s'.Sane ip mac ∧ s.Later s' := by
  cases e with
  | request i target stack =>
      refine ⟨_, rfl, sane_sent hs fun bytes hmem => ?_⟩
      obtain rfl := List.mem_singleton.mp hmem
      exact honest_arpSendRequest (hs.informed i) stack target
  | ping i target stack => exact ⟨_, rfl, sane_sent hs (honest_ping (hs.informed i) stack target)⟩
  | deliver i bytes buffer stack =>
      by_cases hmem : bytes ∈ s.sent
      · obtain ⟨r, hr, hhandled⟩ :=
          netDispatch_handled hip (hs.informed i) (hs.honest bytes hmem) buffer stack
        refine ⟨_, ?_, sane_handled hs hhandled⟩
        rw [step, if_pos hmem, hr]
        rfl
      · exact ⟨s, if_neg hmem, hs, .refl s⟩

theorem run_sane (hip : Function.Injective ip) (events : List (SegmentEvent ι)) :
    ∀ {s : Segment ι}, s.Sane ip mac → ∃ s', run step s events = .ok s' ∧ s'.Sane ip mac ∧
      s.Later s' := by
  induction events with
  | nil => exact fun {s} hs => ⟨s, rfl, hs, .refl s⟩
  | cons e rest ih =>
      intro s hs
      obtain ⟨next, hstep, hnext, hlater⟩ := step_sane hip hs e
      obtain ⟨s', hrun, hs', hlater'⟩ := ih hnext
      refine ⟨s', ?_, hs', hlater.trans hlater'⟩
      rw [run, hstep]
      exact hrun

/-- The machines start with different addresses and with caches that hold nothing wrong.
Then whatever is asked and pinged, and whichever frames arrive where, when and how often,
no handler leaves its buffers, and every cache only ever gives the true hardware address of
a machine. -/
theorem safe (hosts : ι → NetStack) (hip : Function.Injective fun i => (hosts i).ourIp)
    (hkept : ∀ i, (hosts i).table.Kept)
    (hright : ∀ i j m, arpLookup (hosts i).toNetState (hosts j).ourIp = some m →
      m = (hosts j).ourMac) (events : List (SegmentEvent ι)) :
    ∃ s', run step ⟨hosts, []⟩ events = .ok s' ∧
      ∀ i j m, arpLookup (s'.hosts i).toNetState (hosts j).ourIp = some m →
        m = (hosts j).ourMac := by
  have hsane : Sane (fun i => (hosts i).ourIp) (fun i => (hosts i).ourMac) ⟨hosts, []⟩ :=
    ⟨fun i => ⟨rfl, rfl, hkept i, hright i⟩, by simp⟩
  obtain ⟨s', hrun, hs', _⟩ := run_sane hip events hsane
  exact ⟨s', hrun, fun i => (hs'.informed i).right⟩

/-- After `net_set_static_ip` a machine knows itself. -/
theorem lookup_netSetStaticIp (net : NetStack) (own gateway mask : CStr) (a : UInt32) (m : Mac) :
    arpLookup (netSetStaticIp net own gateway mask).toNetState a = some m →
      a = ipStrToAddr own ∧ m = net.ourMac := by
  intro h
  rw [arpLookup_eq, (kept_netSetStaticIp net own gateway mask).lookup_eq_some_iff] at h
  obtain ⟨k, hk, hkey, hvalue⟩ := h
  have hslot := (netSetStaticIp_slot net own gateway mask hk).2
  simp only [NetState.table, hslot] at hkey hvalue
  exact ⟨hkey.symm, hvalue.symm⟩

/-- Two machines of one network. -/
def pair (i : Bool) : NetStack :=
  netSetStaticIp (netInit NetStack.boot fun _ => if i then 1 else 2)
    (if i then ⟨text "192.168.7.15", by decide⟩ else ⟨text "192.168.7.16", by decide⟩)
    ⟨text "192.168.7.2", by decide⟩ ⟨text "255.255.0.0", by decide⟩

theorem pair_injective : Function.Injective fun i => (pair i).ourIp := by
  intro i j h
  cases i <;> cases j <;> first | rfl | exact absurd h (by decide)

theorem pair_kept (i : Bool) : (pair i).table.Kept := kept_netSetStaticIp _ _ _ _

theorem pair_right (i j : Bool) (m : Mac)
    (h : arpLookup (pair i).toNetState (pair j).ourIp = some m) : m = (pair j).ourMac := by
  obtain ⟨hip, hmac⟩ := lookup_netSetStaticIp _ _ _ _ _ _ h
  rw [pair_injective hip]
  exact hmac

/-- One pings the other, and both get all there is. -/
theorem safe_pair :
    ∃ s', run step ⟨pair, []⟩ [.ping true (pair false).ourIp fun _ => 0, .deliver false
        (arpSendRequest (pair true).toNetState (fun _ => 0) (pair false).ourIp)
        (fun _ => 0) fun _ => 0] = .ok s' ∧
      ∀ i j m, arpLookup (s'.hosts i).toNetState (pair j).ourIp = some m → m = (pair j).ourMac :=
  safe pair pair_injective pair_kept pair_right _

/-! ## Asking works -/

/-- A machine that hears a request for its address, from one that is not its gateway,
answers it. -/
theorem dispatch_request {net : NetStack} {packet : Mem} {src : Mac} {sender : UInt32}
    {len : Nat} (stack : Mem) (hlen : ethHeaderSize + arpHeaderSize ≤ len)
    (hheard : ArpHeard packet src 1 sender net.ourIp)
    (hgateway : net.gatewayIp ≠ sender) :
    netDispatch net stack packet len = .ok (arpStore net sender src,
      [bytesOf (arpBuffer stack src net.ourMac 2 net.ourIp src sender) 42]) := by
  have hreply := arpReply_eq (arpStore net sender src) stack packet
  obtain ⟨hmac, hip⟩ := arpStore_config net sender src
  rw [hmac, hip, hheard.senderMac, hheard.senderIp] at hreply
  have hhandled : arpHandlePacket net stack packet len = (arpStore net sender src,
      some (bytesOf (arpBuffer stack src net.ourMac 2 net.ourIp src sender) 42)) := by
    rw [arpHandlePacket, if_neg (Nat.not_lt.mpr hlen), hheard.senderIp, if_neg hgateway.symm,
      hheard.senderMac, ← hreply]
    exact congrArg (Prod.mk _) (if_pos ⟨hheard.opcode, hheard.targetIp⟩)
  rw [netDispatch, if_pos hheard.ethertype, hhandled]
  rfl

/-- A machine that hears an answer, not from its gateway, believes it. -/
theorem dispatch_answer {net : NetStack} {packet : Mem} {src : Mac} {sender target : UInt32}
    {len : Nat} (stack : Mem) (hlen : ethHeaderSize + arpHeaderSize ≤ len)
    (hheard : ArpHeard packet src 2 sender target)
    (hgateway : net.gatewayIp ≠ sender) :
    netDispatch net stack packet len = .ok (arpStore net sender src, []) := by
  have hhandled : arpHandlePacket net stack packet len = (arpStore net sender src, none) := by
    rw [arpHandlePacket, if_neg (Nat.not_lt.mpr hlen), hheard.senderIp, if_neg hgateway.symm,
      hheard.senderMac]
    exact congrArg (Prod.mk _) (if_neg fun h => absurd (hheard.opcode.symm.trans h.1) (by decide))
  rw [netDispatch, if_pos hheard.ethertype, hhandled]
  rfl

/-- The answer of a machine to a request of another. -/
def answerFrame (ip : ι → UInt32) (mac : ι → Mac) (stack : Mem) (i j : ι) : List UInt8 :=
  bytesOf (arpBuffer stack (mac i) (mac j) 2 (ip j) (mac i) (ip i)) 42

theorem step_request_heard (hs : s.Sane ip mac) {i j : ι} {request : List UInt8}
    (buffer stack : Mem) (hmem : request ∈ s.sent) (hlen : request.length = 42)
    (hheard : ArpHeard (buffer.blit 0 request) (mac i) 1 (ip i) (ip j))
    (hgateway : (s.hosts j).gatewayIp ≠ ip i) :
    ∃ s', step s (.deliver j request buffer stack) = .ok s' ∧
      answerFrame ip mac stack i j ∈ s'.sent := by
  have hj := hs.informed j
  rw [← hj.ourIp] at hheard
  have hdispatch := dispatch_request stack hlen.ge hheard hgateway
  refine ⟨_, by rw [step, if_pos hmem, hdispatch]; rfl, ?_⟩
  refine List.mem_append_right _ (List.mem_singleton.mpr ?_)
  rw [answerFrame, hj.ourMac, hj.ourIp]

theorem step_answer_heard (hs : s.Sane ip mac) {i j : ι} (buffer stack stack' : Mem)
    (hmem : answerFrame ip mac stack i j ∈ s.sent) (hgateway : (s.hosts i).gatewayIp ≠ ip j) :
    ∃ s', step s (.deliver i (answerFrame ip mac stack i j) buffer stack') = .ok s' ∧
      ((arpLookup (s'.hosts i).toNetState (ip j)).isSome ∨ (s'.hosts i).arpCacheCount = 16) := by
  have hheard := arpBuffer_heard stack (mac i) (mac j) (mac i) 2 (ip j) (ip i) (by decide)
  have hlen : (answerFrame ip mac stack i j).length = 42 := length_bytesOf _ _
  have hdispatch := dispatch_answer stack' hlen.ge (hheard.received buffer) hgateway
  refine ⟨_, by rw [step, if_pos hmem]; exact congrArg (Except.map _) hdispatch, ?_⟩
  simp only [Function.update_self]
  have hkept := (hs.informed i).kept
  rw [arpLookup_eq, table_arpStore, hkept.lookup_store_self]
  by_cases hfull : (s.hosts i).table.lookup (ip j) = none ∧ (s.hosts i).table.count = 16
  · right
    have hle := count_le_arpStore (s.hosts i) (ip j) (mac j)
    have hmax := (arpStore (s.hosts i) (ip j) (mac j)).countLe
    have hcount : (s.hosts i).arpCacheCount = 16 := hfull.2
    omega
  · left
    rw [if_neg hfull]
    rfl

/-- Machine `i` asks for the address of `j`.  Once the request has reached `j` and the
answer has come back, `i` knows the hardware address of `j` for good, or has a full cache,
whatever happens before, between and after; the exception is a machine that is the other's
gateway. -/
theorem resolves (hip : Function.Injective ip) (hs : s.Sane ip mac) {i j : ι}
    (hgatewayJ : (s.hosts j).gatewayIp ≠ ip i) (hgatewayI : (s.hosts i).gatewayIp ≠ ip j)
    (stack stackJ bufferJ stackI bufferI : Mem) (before between after : List (SegmentEvent ι)) :
    let request := arpSendRequest (s.hosts i).toNetState stack (ip j)
    ∃ s', run step s (.request i (ip j) stack :: before ++ .deliver j request bufferJ stackJ ::
        between ++ .deliver i (answerFrame ip mac stackJ i j) bufferI stackI :: after) = .ok s' ∧
      (arpLookup (s'.hosts i).toNetState (ip j) = some (mac j) ∨
        (s'.hosts i).arpCacheCount = 16) := by
  intro request
  have hi := hs.informed i
  obtain ⟨s₀, hstep₀, hs₀, hlater₀⟩ := step_sane hip hs (.request i (ip j) stack)
  have hrequest : request ∈ s₀.sent := by
    obtain rfl := Except.ok.inj hstep₀
    exact List.mem_append_right _ (List.mem_singleton.mpr rfl)
  obtain ⟨s₁, hrun₁, hs₁, hlater₁⟩ := run_sane hip before hs₀
  have hheard : ArpHeard (bufferJ.blit 0 request) (mac i) 1 (ip i) (ip j) := by
    rw [← hi.ourMac, ← hi.ourIp]
    exact arpSendRequest_heard _ _ _ _
  obtain ⟨s₂, hstep₂, hanswer⟩ := step_request_heard hs₁ bufferJ stackJ (hlater₁.sent _ hrequest)
    (length_bytesOf _ _) hheard (by rwa [hlater₁.gatewayIp, hlater₀.gatewayIp])
  obtain ⟨s₂', hstep₂', hs₂, hlater₂⟩ := step_sane hip hs₁ (.deliver j request bufferJ stackJ)
  obtain rfl := Except.ok.inj (hstep₂.symm.trans hstep₂')
  obtain ⟨s₃, hrun₃, hs₃, hlater₃⟩ := run_sane hip between hs₂
  obtain ⟨s₄, hstep₄, hknown⟩ := step_answer_heard hs₃ bufferI stackJ stackI
    (hlater₃.sent _ hanswer)
    (by rwa [hlater₃.gatewayIp, hlater₂.gatewayIp, hlater₁.gatewayIp, hlater₀.gatewayIp])
  obtain ⟨s₄', hstep₄', hs₄, _⟩ := step_sane hip hs₃
    (.deliver i (answerFrame ip mac stackJ i j) bufferI stackI)
  obtain rfl := Except.ok.inj (hstep₄.symm.trans hstep₄')
  obtain ⟨s₅, hrun₅, hs₅, hlater₅⟩ := run_sane hip after hs₄
  refine ⟨s₅, ?_, ?_⟩
  · have hasked : run step s (.request i (ip j) stack :: before) = .ok s₁ := by
      rw [run, hstep₀]
      exact hrun₁
    rw [List.append_assoc, run_append hasked, List.cons_append, run, hstep₂]
    exact (run_append hrun₃ _).trans (by rw [run, hstep₄]; exact hrun₅)
  · rcases hknown with hsome | hfull
    · left
      obtain ⟨m, hm⟩ := Option.isSome_iff_exists.mp (hlater₅.known i _ hsome)
      rw [hm, (hs₅.informed i).right j m hm]
    · right
      have hle := hlater₅.count i
      have hmax := (s₅.hosts i).countLe
      omega

theorem pair_sane :
    Sane (fun i => (pair i).ourIp) (fun i => (pair i).ourMac) ⟨pair, []⟩ :=
  ⟨fun i => ⟨rfl, rfl, pair_kept i, pair_right i⟩, by simp⟩

/-- One asks the other, with some pings in between. -/
theorem resolves_pair :
    let answer := answerFrame (fun i => (pair i).ourIp) (fun i => (pair i).ourMac) (fun _ => 0)
      true false
    let request := arpSendRequest (pair true).toNetState (fun _ => 0) (pair false).ourIp
    ∃ s', run step ⟨pair, []⟩ (.request true (pair false).ourIp (fun _ => 0) ::
        [.ping false 7 fun _ => 0] ++ .deliver false request (fun _ => 0) (fun _ => 0) ::
        [.ping true 9 fun _ => 0] ++ .deliver true answer (fun _ => 0) (fun _ => 0) :: []) =
          .ok s' ∧
      (arpLookup (s'.hosts true).toNetState (pair false).ourIp = some (pair false).ourMac ∨
        (s'.hosts true).arpCacheCount = 16) :=
  resolves pair_injective pair_sane (by decide) (by decide) _ _ _ _ _ _ _ _

end Segment
/-! ## The segment becomes quiet -/

/-- How many rounds of answers a frame can set off. -/
def rank (bytes : List UInt8) : Nat :=
  if bytes.length < 42 then 0
  else if (frameOf bytes).readLE 2 12 = 0x0806 then if arpOpcode (frameOf bytes) = 1 then 1 else 0
  else if (frameOf bytes).readLE 2 12 = 0x0800 ∧ ipProtocol (frameOf bytes) = 1 ∧
    icmpType (frameOf bytes) = 8 then 2
  else 0

theorem frameOf_eq_blit (bytes : List UInt8) : frameOf bytes = Mem.blit (fun _ => 0) 0 bytes := by
  funext i
  rw [Mem.blit]
  split
  · rw [Nat.sub_zero, frameOf]
  · rw [frameOf, List.getD_eq_default _ _ (by omega)]

theorem readLE_blit_frameOf (buffer : Mem) {bytes : List UInt8} {k a : Nat}
    (h : a + k ≤ bytes.length) : (buffer.blit 0 bytes).readLE k a = (frameOf bytes).readLE k a :=
  Mem.readLE_congr fun _ _ _ => blit_eq_frameOf buffer (by omega)

theorem rank_arpBuffer (stack : Mem) (dest src targetMac : Mac) {opcode : Nat}
    (sender target : UInt32) (hopcode : opcode < 65536) :
    rank (bytesOf (arpBuffer stack dest src opcode sender targetMac target) 42) =
      if opcode = 1 then 1 else 0 := by
  have hheard := arpBuffer_heard stack dest src targetMac opcode sender target hopcode
  have htype := hheard.ethertype
  have hop := hheard.opcode
  rw [← readLE_frameOf_bytesOf _ (n := 42) (by decide)] at htype
  rw [arpOpcode, ← readLE_frameOf_bytesOf _ (n := 42) (by decide)] at hop
  rw [rank, length_bytesOf, if_neg (by decide), if_pos htype, arpOpcode, hop]

/-- The copy is over before either buffer is. -/
theorem copyPayload_inside {frame m' : Mem} {frameLen n : Nat} : ∀ {i : Nat} {m : Mem},
    copyPayload frame frameLen n i m = .ok m' →
      n = 0 ∨ 42 + i + n ≤ frameLen ∧ 42 + i + n ≤ replySize := by
  induction n with
  | zero => exact fun _ => .inl rfl
  | succ n ih =>
      intro i m hcopy
      rw [copyPayload] at hcopy
      split at hcopy
      · cases hcopy
      · split at hcopy
        · cases hcopy
        · right
          rcases ih hcopy with hlast | hinside <;> omega

/-- Whatever `icmp_send_reply` sends sets off less than an echo request. -/
theorem rank_icmpSendReply {net : NetState} {stack packet : Mem} {destIp : UInt32}
    {frameLen len : Nat} {bytes : List UInt8} (hframe : 42 ≤ frameLen)
    (h : icmpSendReply net stack packet frameLen destIp len = .ok bytes) : rank bytes < 2 := by
  cases hlookup : arpLookup net destIp with
  | none =>
      rw [icmpSendReply, hlookup] at h
      rw [← Except.ok.inj h, arpSendRequest_eq, rank_arpBuffer _ _ _ _ _ _ (by decide)]
      decide
  | some m =>
      have hinside : 42 + len ≤ frameLen ∧ len ≤ 470 := by
        rw [icmpSendReply, hlookup] at h
        have hlimit : replySize = 512 := rfl
        cases hcopy : copyPayload packet frameLen len 0 (replyHeaders net stack m destIp len) with
        | error e =>
            simp only [hcopy] at h
            cases h
        | ok m' => rcases copyPayload_inside hcopy with hzero | hle <;> omega
      obtain ⟨sum, hsent⟩ := icmpSendReply_eq stack packet frameLen len hlookup hinside.1 hinside.2
      rw [← Except.ok.inj (hsent.symm.trans h), rank, length_bytesOf]
      split
      · decide
      · obtain ⟨htype, hno⟩ := replyBuffer_heard net stack packet m destIp len sum fun _ => 0
        rw [← frameOf_eq_blit] at htype hno
        rw [htype, if_neg (by decide), if_neg fun hecho => hno ⟨by omega, hecho.2⟩]
        decide

/-- The answer to a request sets off nothing. -/
theorem arpHandlePacket_sent {net : NetStack} {stack packet : Mem} {len : Nat}
    {sent : List UInt8} (h : (arpHandlePacket net stack packet len).2 = some sent) :
    42 ≤ len ∧ arpOpcode packet = 1 ∧ rank sent = 0 := by
  unfold arpHandlePacket at h
  split at h
  · exact absurd h.symm (Option.some_ne_none _)
  · rename_i hlen
    split at h
    · exact absurd h.symm (Option.some_ne_none _)
    · dsimp only at h
      split at h
      · rename_i hrequest
        refine ⟨Nat.not_lt.mp hlen, hrequest.1, ?_⟩
        rw [← Option.some.inj h, arpReply_eq, rank_arpBuffer _ _ _ _ _ _ (by decide)]
        rfl
      · exact absurd h.symm (Option.some_ne_none _)

/-- What makes a machine answer with an ICMP handler. -/
theorem echoRequest_of_ipEcho {net : NetState} {packet : Mem} {len : Nat} {call : UInt32 × Nat}
    (h : ipEcho net packet len = some call) : EchoRequest packet len := by
  by_contra hno
  have hdest : ipDest packet = net.ourIp := by
    by_contra hne
    simp [ipEcho, hne] at h
  rw [ipEcho_of_dest hdest, icmpEcho_of_not_request hno] at h
  exact absurd h.symm (Option.some_ne_none call)

/-- A machine sends at most one frame when it gets one, and that frame sets off less. -/
theorem rank_netDispatch {net net' : NetStack} {buffer stack : Mem} {bytes : List UInt8}
    {out : List (List UInt8)}
    (h : netDispatch net stack (buffer.blit 0 bytes) bytes.length = .ok (net', out)) :
    out.length ≤ 1 ∧ ∀ sent ∈ out, rank sent < rank bytes := by
  have hnothing : ([] : List (List UInt8)).length ≤ 1 ∧ ∀ sent ∈ [], rank sent < rank bytes := by
    simp
  have htype : 42 ≤ bytes.length →
      (buffer.blit 0 bytes).readLE 2 12 = (frameOf bytes).readLE 2 12 :=
    fun hlen => readLE_blit_frameOf buffer (by omega)
  unfold netDispatch at h
  split at h
  · rename_i harp
    have hout : out = (arpHandlePacket net stack (buffer.blit 0 bytes) bytes.length).2.toList :=
      (congrArg Prod.snd (Except.ok.inj h)).symm
    cases hsent : (arpHandlePacket net stack (buffer.blit 0 bytes) bytes.length).2 with
    | none =>
        rw [hout, hsent]
        exact hnothing
    | some answer =>
        obtain ⟨hlen, hop, hrank⟩ := arpHandlePacket_sent hsent
        have hop : arpOpcode (frameOf bytes) = 1 :=
          (readLE_blit_frameOf buffer (by omega)).symm.trans hop
        rw [hout, hsent]
        refine ⟨Nat.le_refl 1, fun sent hmem => ?_⟩
        obtain rfl := List.mem_singleton.mp hmem
        rw [hrank, rank, if_neg (by omega), if_pos ((htype hlen).symm.trans harp), if_pos hop]
        decide
  · split at h
    · rename_i hnot hip
      unfold ipHandlePacket at h
      cases hecho : ipEcho net.toNetState (buffer.blit 0 bytes) bytes.length with
      | none =>
          rw [hecho] at h
          obtain ⟨-, rfl⟩ := Prod.mk.inj (Except.ok.inj h)
          exact hnothing
      | some call =>
          obtain ⟨hlen, hproto, hicmp⟩ := echoRequest_of_ipEcho hecho
          rw [ipProtocol, blit_eq_frameOf buffer (by omega)] at hproto
          rw [icmpType, blit_eq_frameOf buffer (by omega)] at hicmp
          rw [htype hlen] at hnot hip
          have hrank : rank bytes = 2 := by
            rw [rank, if_neg (by omega), if_neg hnot, if_pos ⟨hip, hproto, hicmp⟩]
          rw [hecho, answer] at h
          cases hsend : icmpSendReply net.toNetState stack (buffer.blit 0 bytes) bytes.length
              call.1 call.2 with
          | error e =>
              rw [hsend] at h
              cases h
          | ok p =>
              rw [hsend] at h
              obtain ⟨-, rfl⟩ := Prod.mk.inj (Except.ok.inj h)
              refine ⟨Nat.le_refl 1, fun sent hmem => ?_⟩
              obtain rfl := List.mem_singleton.mp hmem
              rw [hrank]
              exact rank_icmpSendReply hlen hsend
    · obtain ⟨-, rfl⟩ := Prod.mk.inj (Except.ok.inj h)
      exact hnothing

/-- The machines, and for each frame on its way a machine that it will reach. -/
structure Broadcast (ι : Type) where
  hosts : ι → NetStack
  pending : List (ι × List UInt8)

/-- What ends a run: a fault, or a delivery of which there is none. -/
inductive Stop where
  | fault (f : Fault)
  | nothing (k : Nat)

namespace Broadcast

variable {ι : Type}

/-- Delivery `k` of those that are pending takes place, with the old contents of the buffer
and stack.  What the machine sends will reach each of `machines`. -/
def step [DecidableEq ι] (machines : List ι) (s : Broadcast ι) (e : Nat × Mem × Mem) :
    Except Stop (Broadcast ι) :=
  match s.pending[e.1]? with
  | none => .error (.nothing e.1)
  | some (i, bytes) =>
      match netDispatch (s.hosts i) e.2.2 (e.2.1.blit 0 bytes) bytes.length with
      | .error f => .error (.fault f)
      | .ok (net, out) =>
          .ok ⟨Function.update s.hosts i net,
            s.pending.eraseIdx e.1 ++ out.flatMap fun sent => machines.map fun j => (j, sent)⟩

/-- How many deliveries a frame of a rank leads to, itself included, among `n` machines. -/
def weight (n : Nat) : Nat → Nat
  | 0 => 1
  | r + 1 => 1 + n * weight n r

theorem weight_le_succ (n r : Nat) : weight n r ≤ weight n (r + 1) := by
  rw [weight]
  cases n with
  | zero => cases r <;> simp [weight]
  | succ n =>
      have hmul : weight (n + 1) r ≤ (n + 1) * weight (n + 1) r :=
        Nat.le_mul_of_pos_left _ (Nat.succ_pos n)
      omega

theorem weight_mono (n : Nat) {a b : Nat} (h : a ≤ b) : weight n a ≤ weight n b := by
  induction h with
  | refl => exact Nat.le_refl _
  | step _ ih => exact ih.trans (weight_le_succ n _)

/-- The deliveries that what is pending leads to. -/
def load (n : Nat) : List (ι × List UInt8) → Nat
  | [] => 0
  | p :: rest => weight n (rank p.2) + load n rest

theorem load_append (n : Nat) (p q : List (ι × List UInt8)) :
    load n (p ++ q) = load n p + load n q := by
  induction p with
  | nil => exact (Nat.zero_add _).symm
  | cons head rest ih => rw [List.cons_append, load, ih, load, Nat.add_assoc]

theorem load_eraseIdx (n : Nat) {pending : List (ι × List UInt8)} {p : ι × List UInt8} :
    ∀ {k : Nat}, pending[k]? = some p →
      load n pending = weight n (rank p.2) + load n (pending.eraseIdx k) := by
  induction pending with
  | nil => exact fun h => absurd h.symm (Option.some_ne_none p)
  | cons head rest ih =>
      intro k h
      cases k with
      | zero =>
          obtain rfl := Option.some.inj h
          rfl
      | succ k =>
          have hrest : load n rest = weight n (rank p.2) + load n (rest.eraseIdx k) := ih h
          rw [List.eraseIdx_cons_succ, load, load, hrest]
          omega

theorem load_broadcast (n : Nat) (machines : List ι) (sent : List UInt8) :
    load n (machines.map fun j => (j, sent)) = machines.length * weight n (rank sent) := by
  induction machines with
  | nil => exact (Nat.zero_mul _).symm
  | cons j rest ih => rw [List.map_cons, load, ih, List.length_cons, Nat.succ_mul, Nat.add_comm]

/-- The load of what a delivery adds is less than that of the frame delivered. -/
theorem load_sent (machines : List ι) {bytes : List UInt8} {out : List (List UInt8)}
    (hlen : out.length ≤ 1) (hrank : ∀ sent ∈ out, rank sent < rank bytes) :
    load machines.length (out.flatMap fun sent => machines.map fun j => (j, sent)) + 1 ≤
      weight machines.length (rank bytes) := by
  match out with
  | [] =>
      show 0 + 1 ≤ _
      cases rank bytes <;> rw [weight]
      omega
  | [sent] =>
      have hless : rank sent + 1 ≤ rank bytes := hrank sent List.mem_cons_self
      rw [List.flatMap_singleton]
      calc load machines.length (machines.map fun j => (j, sent)) + 1
          = weight machines.length (rank sent + 1) := by rw [load_broadcast, weight, Nat.add_comm]
        _ ≤ weight machines.length (rank bytes) := weight_mono _ hless
  | _ :: _ :: _ => exact absurd hlen (by simp)

variable [DecidableEq ι]

/-- A delivery makes the load less. -/
theorem load_step {machines : List ι} {s s' : Broadcast ι} {e : Nat × Mem × Mem}
    (h : step machines s e = .ok s') :
    load machines.length s'.pending + 1 ≤ load machines.length s.pending := by
  unfold step at h
  cases hget : s.pending[e.1]? with
  | none =>
      rw [hget] at h
      cases h
  | some p =>
      rw [hget] at h
      dsimp only at h
      cases hdispatch : netDispatch (s.hosts p.1) e.2.2 (e.2.1.blit 0 p.2) p.2.length with
      | error f =>
          rw [hdispatch] at h
          cases h
      | ok r =>
          rw [hdispatch] at h
          obtain rfl := Except.ok.inj h
          obtain ⟨hlen, hrank⟩ := rank_netDispatch hdispatch
          have hsent := load_sent machines hlen hrank
          have hsplit := load_eraseIdx machines.length hget
          rw [load_append]
          omega

/-- However the deliveries are ordered, there are at most as many as the frames that are on
their way now account for: one for an answer, `n + 1` for an ARP request and `n * (n + 1) + 1`
for an echo request, among `n` machines. -/
theorem deliveries_le (machines : List ι) (events : List (Nat × Mem × Mem)) :
    ∀ {s s' : Broadcast ι}, run (step machines) s events = .ok s' →
      load machines.length s'.pending + events.length ≤ load machines.length s.pending := by
  induction events with
  | nil =>
      intro s s' h
      rw [Except.ok.inj h]
      exact Nat.le_refl _
  | cons e rest ih =>
      intro s s' h
      obtain ⟨next, hstep, hrest⟩ := run_cons_ok h
      have hless := load_step hstep
      have hle := ih hrest
      rw [List.length_cons]
      omega

/-- One machine asks for the other, and the request arrives. -/
theorem deliveries_pair :
    let request := arpSendRequest (Segment.pair true).toNetState (fun _ => 0) 0xC0A80710
    ∃ s', run (step [true, false]) ⟨Segment.pair, [(false, request)]⟩
        [(0, (fun _ => 0), fun _ => 0)] = .ok s' ∧ load 2 s'.pending + 1 ≤ 3 := by
  intro request
  have hheard : ArpHeard (Mem.blit (fun _ => 0) 0 request) (Segment.pair true).ourMac 1
      (Segment.pair true).ourIp (Segment.pair false).ourIp := by
    exact arpSendRequest_heard _ _ _ _
  have hlen : request.length = 42 := length_bytesOf _ _
  have hdispatch := Segment.dispatch_request (fun _ => 0) hlen.ge hheard (by decide)
  have hstep : ∃ s', step [true, false] ⟨Segment.pair, [(false, request)]⟩
      (0, (fun _ => 0), fun _ => 0) = .ok s' := by
    rw [step]
    dsimp only [List.getElem?_cons_zero]
    rw [hdispatch]
    exact ⟨_, rfl⟩
  obtain ⟨s', hstep⟩ := hstep
  have hrun : run (step [true, false]) ⟨Segment.pair, [(false, request)]⟩
      [(0, (fun _ => 0), fun _ => 0)] = .ok s' := by
    rw [run, hstep]
    rfl
  have hrank : rank request = 1 := rank_arpBuffer _ _ _ _ _ _ (by decide)
  have hle := deliveries_le [true, false] _ hrun
  refine ⟨s', hrun, hle.trans ?_⟩
  show weight 2 (rank request) + 0 ≤ 3
  rw [hrank]
  decide

end Broadcast

end FalastinOS.Net
