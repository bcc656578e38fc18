/-
  Net/Icmp.lean --- the answer to a ping.

  `icmp_handle_packet` takes the payload length of an echo request from the
  `total_len` field of the received IP header, by two unsigned subtractions, and
  hands it to `icmp_send_reply`, which copies that many bytes from behind the
  received ICMP header into a buffer of 512 bytes.  Reading past the received
  frame and writing or reading past the reply buffer are faults here.

  Neither function looks at the length it was given: `pingBounded_iff` says for
  which frames the accesses stay inside.
-/
import FalastinOS.Net.Arp

set_option autoImplicit false

namespace FalastinOS.Net

open FalastinOS.Foundation

/-! ## `net_checksum` -/

/-- `for (i = 0; i < len / 2; i++) sum += data[i]` from word `i` on, `n` words
left, in a 32-bit accumulator. -/
def checksumLoop (m : Mem) (a : Nat) : Nat → Nat → Nat → Nat
  | 0, _, sum => sum
  | n + 1, i, sum => checksumLoop m a n (i + 1) ((sum + m.readLE 2 (a + 2 * i)) % 2 ^ 32)

/-- `while (sum >> 16) sum = (sum & 0xFFFF) + (sum >> 16)`. -/
def foldCarry (sum : Nat) : Nat :=
  if sum / 65536 = 0 then sum else foldCarry (sum % 65536 + sum / 65536)
termination_by sum
decreasing_by omega

/-- `net_checksum(data, len)` of the bytes from address `a` on. -/
def netChecksum (m : Mem) (a len : Nat) : Nat :=
  let sum := checksumLoop m a (len / 2) 0 0
  let sum := if len % 2 = 1 then (sum + m.readLE 2 (a + 2 * (len / 2)) % 256) % 2 ^ 32 else sum
  65535 - foldCarry sum % 65536

/-- How many bytes `net_checksum` reads: it reads whole words. -/
def checksumExtent (len : Nat) : Nat := len + len % 2

/-! ## `icmp_send_reply` -/

/-- An access outside the object it belongs to. -/
inductive Fault where
  /-- byte `i` of the received frame, which is not that long -/
  | pastFrame (i : Nat)
  /-- byte `i` of the reply buffer, which is not that long -/
  | pastReply (i : Nat)
  deriving DecidableEq, Repr

/-- `sizeof(packet)` in `icmp_send_reply`. -/
def replySize : Nat := 512

/-- `memcpy((uint8_t*)icmp + 8, data, len)` where `data` lies behind the headers
of a received frame of `frameLen` bytes: from index `i` on, `n` bytes left. -/
def copyPayload (frame : Mem) (frameLen : Nat) : Nat → Nat → Mem → Except Fault Mem
  | 0, _, m => .ok m
  | n + 1, i, m =>
      if frameLen ≤ 42 + i then .error (.pastFrame (42 + i))
      else if replySize ≤ 42 + i then .error (.pastReply (42 + i))
      else copyPayload frame frameLen n (i + 1) (m.writeByte (42 + i) (frame (42 + i)))

/-- The Ethernet, IP and ICMP headers `icmp_send_reply` stores for a payload of
`len` bytes, before the ICMP checksum; bytes 38 to 41 are not stored. -/
def replyHeaders (net : NetState) (stack : Mem) (destMac : Mac) (destIp : UInt32) (len : Nat) :
    Mem :=
  let totalLen := (ipHeaderSize + len) % 2 ^ 32
  let m := putEthHeader stack destMac net.ourMac 0x0800
  let m := m.writeByte 14 0x45
  let m := m.writeByte 15 0
  let m := m.writeLE 2 16 totalLen
  let m := m.writeLE 2 18 0x1234
  let m := m.writeLE 2 20 0
  let m := m.writeByte 22 64
  let m := m.writeByte 23 1
  let m := m.writeLE 4 26 net.ourIp.toNat
  let m := m.writeLE 4 30 destIp.toNat
  let m := m.writeLE 2 24 0
  let m := m.writeLE 2 24 (netChecksum m 14 ipHeaderSize)
  let m := m.writeByte 34 0
  let m := m.writeByte 35 0
  m.writeLE 2 36 0

/-- `icmp_send_reply(dest_ip, data, len)` with `data` 42 bytes into the received
frame: the packet handed to the driver. -/
def icmpSendReply (net : NetState) (stack : Mem) (frame : Mem) (frameLen : Nat) (destIp : UInt32)
    (len : Nat) : Except Fault (List UInt8) :=
  match arpLookup net destIp with
  | none => .ok (arpSendRequest net stack destIp)
  | some destMac =>
      match copyPayload frame frameLen len 0 (replyHeaders net stack destMac destIp len) with
      | .error e => .error e
      | .ok m =>
          let sumLen := (len + icmpHeaderSize) % 2 ^ 32
          if replySize < 34 + checksumExtent sumLen then .error (.pastReply replySize)
          else
            let m := m.writeLE 2 36 (netChecksum m 34 sumLen)
            .ok (bytesOf m ((ethHeaderSize + (ipHeaderSize + len) % 2 ^ 32) % 2 ^ 32))

/-! ## `icmp_handle_packet` and `ip_handle_packet` -/

/-- `ip->total_len` of a received frame. -/
def ipTotalLen (packet : Mem) : Nat := packet.readLE 2 16

/-- `ip->protocol`. -/
def ipProtocol (packet : Mem) : UInt8 := packet 23

/-- `ip->src_ip`. -/
def ipSrc (packet : Mem) : UInt32 := UInt32.ofNat (packet.readLE 4 26)

/-- `ip->dest_ip`. -/
def ipDest (packet : Mem) : UInt32 := UInt32.ofNat (packet.readLE 4 30)

/-- `icmp->type`. -/
def icmpType (packet : Mem) : UInt8 := packet 34

/-- `ip->total_len - sizeof(IpHeader) - sizeof(IcmpHeader)` in `uint32_t`. -/
def dataLen (packet : Mem) : Nat :=
  let icmpLen := (ipTotalLen packet + (2 ^ 32 - ipHeaderSize)) % 2 ^ 32
  (icmpLen + (2 ^ 32 - icmpHeaderSize)) % 2 ^ 32

/-- The call of `icmp_send_reply` that `icmp_handle_packet(packet, len)` makes,
if it takes the echo path: the address and the payload length. -/
def icmpEcho (packet : Mem) (len : Nat) : Option (UInt32 × Nat) :=
  if len < ethHeaderSize + ipHeaderSize + icmpHeaderSize then none
  else if ipProtocol packet = 1 ∧ icmpType packet = 8 then some (ipSrc packet, dataLen packet)
  else none

/-- The same for `ip_handle_packet(packet, len)`. -/
def ipEcho (net : NetState) (packet : Mem) (len : Nat) : Option (UInt32 × Nat) :=
  if len < ethHeaderSize + ipHeaderSize then none
  else if ipDest packet ≠ net.ourIp then none
  else if ipProtocol packet = 1 then icmpEcho packet len
  else none

/-- The packets a handler sends, given the call it makes. -/
def answer (net : NetState) (stack packet : Mem) (len : Nat) :
    Option (UInt32 × Nat) → Except Fault (List (List UInt8))
  | none => .ok []
  | some (destIp, n) => (icmpSendReply net stack packet len destIp n).map fun p => [p]

/-- `icmp_handle_packet(packet, len)`. -/
def icmpHandlePacket (net : NetState) (stack packet : Mem) (len : Nat) :
    Except Fault (List (List UInt8)) :=
  answer net stack packet len (icmpEcho packet len)

/-- `ip_handle_packet(packet, len)`. -/
def ipHandlePacket (net : NetState) (stack packet : Mem) (len : Nat) :
    Except Fault (List (List UInt8)) :=
  answer net stack packet len (ipEcho net packet len)

/-! ## Bounds -/

/-- The frame is an echo request long enough to be looked at. -/
def EchoRequest (packet : Mem) (len : Nat) : Prop :=
  42 ≤ len ∧ ipProtocol packet = 1 ∧ icmpType packet = 8

/-- The length in the IP header covers both headers, lies inside the frame, and
leaves a reply that fits its buffer. -/
def ConsistentLength (packet : Mem) (len : Nat) : Prop :=
  28 ≤ ipTotalLen packet ∧ ipTotalLen packet ≤ 498 ∧ 14 + ipTotalLen packet ≤ len

/-- The accesses of a handler that makes the given call stay inside the received
frame and the reply buffer. -/
structure PingBounded (net : NetState) (packet : Mem) (len : Nat) (call : Option (UInt32 × Nat)) :
    Prop where
  noUnderflow : ∀ c, call = some c → ipHeaderSize + icmpHeaderSize ≤ ipTotalLen packet
  insideFrame : ∀ c, call = some c → 42 + c.2 ≤ len
  insideReply : ∀ c, call = some c → 42 + c.2 ≤ replySize
  noFault : ∀ stack e, answer net stack packet len call ≠ .error e

/-- A copy that ends inside both buffers does not fault. -/
theorem copyPayload_ok (frame : Mem) (frameLen n : Nat) :
    ∀ (i : Nat) (m : Mem), 42 + i + n ≤ frameLen → 42 + i + n ≤ replySize →
      ∃ m', copyPayload frame frameLen n i m = .ok m' := by
  induction n with
  | zero => exact fun _ m _ _ => ⟨m, rfl⟩
  | succ n ih =>
      intro i m hframe hreply
      rw [copyPayload, if_neg (by omega), if_neg (by omega)]
      exact ih (i + 1) _ (by omega) (by omega)

/-- `icmp_send_reply` with a payload that fits both buffers does not fault.  For
an odd payload the checksum reads one byte more than it sums; the buffer's length
is even, so that byte is inside. -/
theorem icmpSendReply_ok (net : NetState) (frame : Mem) {frameLen len : Nat} (stack : Mem)
    (destIp : UInt32) (hframe : 42 + len ≤ frameLen) (hreply : 42 + len ≤ replySize) :
    ∃ p, icmpSendReply net stack frame frameLen destIp len = .ok p := by
  unfold icmpSendReply
  cases arpLookup net destIp with
  | none => exact ⟨_, rfl⟩
  | some destMac =>
      have hlimit : replySize = 512 := rfl
      have hhd : icmpHeaderSize = 8 := rfl
      obtain ⟨m, hm⟩ := copyPayload_ok frame frameLen len 0
        (replyHeaders net stack destMac destIp len) (by omega) (by omega)
      have hsum : ¬ replySize < 34 + checksumExtent ((len + icmpHeaderSize) % 2 ^ 32) := by
        unfold checksumExtent
        omega
      simp only [hm, if_neg hsum]
      exact ⟨_, rfl⟩

/-- The payload length when the subtractions do not wrap around. -/
theorem dataLen_of_le {packet : Mem} (h : 28 ≤ ipTotalLen packet) :
    dataLen packet = ipTotalLen packet - 28 := by
  have hsmall : ipTotalLen packet < 256 ^ 2 := Mem.readLE_lt packet 2 16
  have hip : ipHeaderSize = 20 := rfl
  have hicmp : icmpHeaderSize = 8 := rfl
  unfold dataLen
  dsimp only
  omega

/-- A call with the payload length of the header is bounded exactly if that
length is consistent. -/
theorem pingBounded_echo_iff (net : NetState) (packet : Mem) (len : Nat) (destIp : UInt32) :
    PingBounded net packet len (some (destIp, dataLen packet)) ↔ ConsistentLength packet len := by
  have hip : ipHeaderSize = 20 := rfl
  have hicmp : icmpHeaderSize = 8 := rfl
  have hlimit : replySize = 512 := rfl
  constructor
  · intro h
    have hlow := h.noUnderflow _ rfl
    have hframe := h.insideFrame _ rfl
    have hreply := h.insideReply _ rfl
    rw [dataLen_of_le (by omega)] at hframe hreply
    refine ⟨by omega, ?_, ?_⟩ <;> dsimp only at hframe hreply <;> omega
  · intro ⟨hlow, hreply, hframe⟩
    have hlen := dataLen_of_le hlow
    refine ⟨fun c _ => by omega, fun c hc => ?_, fun c hc => ?_, fun stack e => ?_⟩
    · obtain rfl := Option.some.inj hc
      dsimp only
      omega
    · obtain rfl := Option.some.inj hc
      dsimp only
      omega
    · obtain ⟨p, hp⟩ := icmpSendReply_ok net packet stack destIp
        (show 42 + dataLen packet ≤ len by omega) (by omega)
      simp [answer, hp, Except.map]

/-- A handler that makes no call accesses nothing. -/
theorem pingBounded_none (net : NetState) (packet : Mem) (len : Nat) :
    PingBounded net packet len none :=
  ⟨by simp, by simp, by simp, by simp [answer]⟩

theorem icmpEcho_of_request {packet : Mem} {len : Nat} (h : EchoRequest packet len) :
    icmpEcho packet len = some (ipSrc packet, dataLen packet) := by
  obtain ⟨hlen, hproto, htype⟩ := h
  rw [icmpEcho, if_neg (by simp only [ethHeaderSize, ipHeaderSize, icmpHeaderSize]; omega),
    if_pos ⟨hproto, htype⟩]

theorem icmpEcho_of_not_request {packet : Mem} {len : Nat} (h : ¬ EchoRequest packet len) :
    icmpEcho packet len = none := by
  unfold icmpEcho
  split
  · rfl
  · rename_i hlen
    simp only [ethHeaderSize, ipHeaderSize, icmpHeaderSize] at hlen
    exact if_neg fun hboth => h ⟨by omega, hboth⟩

theorem ipEcho_of_dest {net : NetState} {packet : Mem} {len : Nat} (h : ipDest packet = net.ourIp) :
    ipEcho net packet len = icmpEcho packet len := by
  unfold ipEcho
  by_cases hlen : len < ethHeaderSize + ipHeaderSize
  · rw [if_pos hlen, icmpEcho, if_pos (Nat.lt_of_lt_of_le hlen (Nat.le_add_right _ _))]
  · rw [if_neg hlen, if_neg (by simp [h])]
    split
    · rfl
    · rename_i hproto
      exact (icmpEcho_of_not_request fun hreq => hproto hreq.2.1).symm

/-- Answering a ping stays in bounds exactly if the length in the IP header of
every echo request that is answered is consistent with the frame and the
buffer. -/
theorem pingBounded_iff (net : NetState) (packet : Mem) (len : Nat) :
    (PingBounded net packet len (icmpEcho packet len) ↔
      (EchoRequest packet len → ConsistentLength packet len)) ∧
    (PingBounded net packet len (ipEcho net packet len) ↔
      (EchoRequest packet len → ipDest packet = net.ourIp → ConsistentLength packet len)) := by
  have hicmp : PingBounded net packet len (icmpEcho packet len) ↔
      (EchoRequest packet len → ConsistentLength packet len) := by
    by_cases hreq : EchoRequest packet len
    · rw [icmpEcho_of_request hreq, pingBounded_echo_iff]
      exact ⟨fun h _ => h, fun h => h hreq⟩
    · rw [icmpEcho_of_not_request hreq]
      exact iff_of_true (pingBounded_none net packet len) fun h => absurd h hreq
  refine ⟨hicmp, ?_⟩
  by_cases hdest : ipDest packet = net.ourIp
  · rw [ipEcho_of_dest hdest, hicmp]
    exact ⟨fun h hreq _ => h hreq, fun h hreq => h hreq hdest⟩
  · have hnone : ipEcho net packet len = none := by simp [ipEcho, hdest]
    rw [hnone]
    exact iff_of_true (pingBounded_none net packet len) fun _ h => absurd h hdest

/-- Two entries fit in the cache. -/
theorem bootEntries_le : 2 ≤ 16 := by decide

/-- The cache after `net_init`, for some hardware address: our own entry and the
gateway's. -/
def bootNet (mac : Mac) : NetState where
  ourMac := mac
  ourIp := 0x0A00020F
  arpCache := fun i =>
    if i = 0 then ⟨0x0A00020F, mac, 1⟩
    else if i = 1 then ⟨0x0A000202, fun k => [0x52, 0x54, 0x00, 0x12, 0x34, 0x56].getD k.val 0, 1⟩
    else ⟨0, fun _ => 0, 0⟩
  arpCacheCount := 2
  countLe := bootEntries_le

/-- An echo request of 42 bytes from the gateway's address whose IP header gives
a total length of 0. -/
def shortPing : Mem := fun i =>
  ([0, 0, 0, 0, 0, 0, 0, 0, 0, 0, 0, 0, 0, 8,
    0x45, 0, 0, 0, 0, 0, 0, 0, 64, 1, 0, 0, 0x02, 0x02, 0x00, 0x0A, 0x0F, 0x02, 0x00, 0x0A,
    8, 0, 0, 0, 0, 0, 0, 0] : List UInt8).getD i 0

/-- The payload length wraps around to almost 4 GiB, and the copy runs off the
frame at once. -/
theorem pingBounded_fails_for_short_total_len :
    ipEcho (bootNet fun _ => 0) shortPing 42 = some (0x0A000202, 4294967268) ∧
      ¬ PingBounded (bootNet fun _ => 0) shortPing 42 (ipEcho (bootNet fun _ => 0) shortPing 42) ∧
      ipHandlePacket (bootNet fun _ => 0) (fun _ => 0) shortPing 42 = .error (.pastFrame 42) := by
  have hcall : ipEcho (bootNet fun _ => 0) shortPing 42 = some (0x0A000202, 4294967268) := by
    decide
  refine ⟨hcall, fun h => ?_, ?_⟩
  · exact absurd (h.insideFrame _ hcall) (by decide)
  · rw [ipHandlePacket, hcall]
    rfl

end FalastinOS.Net
