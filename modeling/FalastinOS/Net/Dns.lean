/-
  Net/Dns.lean --- the resolver of `dns_simple.c`.

  `dns_resolve_simple` builds a query, wraps it in UDP, IP and Ethernet headers,
  sends the frame, and polls thirty times for an answer.  The header fields of the
  IP and UDP layers are stored byte by byte in network order; those of the DNS
  layer are stored through a packed structure, that is in the byte order of the
  machine, and the IP checksum is stored as zero.  `queryFrame_decodes` says what
  a receiver makes of the frame.

  `parse_dns_response` bounds the walk over the question name by the length of
  the message and nothing after it.  A read past the message is a fault here;
  `parse_inBounds_iff` says for which messages there is none.
-/
import FalastinOS.Foundation.CString
import FalastinOS.Foundation.Execution
import FalastinOS.Foundation.Wire
import FalastinOS.Net.Arp

set_option autoImplicit false

namespace FalastinOS.Net.Dns

open FalastinOS.Foundation FalastinOS.Foundation.Wire

/-- An access outside the object it belongs to. -/
inductive Fault where
  /-- the query is longer than `buffer` -/
  | pastBuffer
  /-- byte `i` of a received message, which is not that long -/
  | pastMessage (i : Nat)
  deriving DecidableEq, Repr

/-! ## `build_dns_query` -/

/-- `sizeof(DnsHeader)`. -/
def dnsHeaderSize : Nat := 12

/-- The character '.'. -/
def dot : UInt8 := 46

/-- A 16-bit store through a pointer: least significant byte first. -/
def native16 (v : Nat) : List UInt8 := [UInt8.ofNat v, UInt8.ofNat (v / 256)]

/-- The stores of `v >> 8` and `v & 0xFF` for a `uint16_t`. -/
def bytes16 (v : Nat) : List UInt8 := [UInt8.ofNat (v / 256), UInt8.ofNat v]

/-- The `while (*name)` loop of `build_dns_query`: the segment up to the next dot,
behind its length, and on behind the dot. -/
def nameLoop : List UInt8 → List UInt8
  | [] => []
  | c :: name =>
      let segment := (c :: name).takeWhile (· ≠ dot)
      let rest := (c :: name).dropWhile (· ≠ dot)
      UInt8.ofNat segment.length :: (segment ++ nameLoop (rest.drop 1))
termination_by name => name.length
decreasing_by
  have hsuffix := (List.dropWhile_sublist (l := c :: name) (· ≠ dot)).length_le
  simp only [List.length_drop, List.length_cons] at hsuffix ⊢
  omega

/-- `build_dns_query(name, buffer, &len)`: the first `len` bytes of the buffer. -/
def buildDnsQuery (name : CStr) : List UInt8 :=
  native16 0x1234 ++ native16 0x0100 ++ native16 1 ++ native16 0 ++ native16 0 ++ native16 0 ++
    (nameLoop name.bytes ++ 0 :: (native16 0x0001 ++ native16 0x0001))

/-! ## The frame -/

/-- `gateway_mac`. -/
def gatewayMac : List UInt8 := [0x52, 0x54, 0x00, 0x12, 0x34, 0x56]

/-- The IP header in front of a message of `len` bytes. -/
def ipHeader (len : Nat) : List UInt8 :=
  [0x45, 0x00] ++ bytes16 (20 + 8 + len) ++
    [0x12, 0x34, 0x40, 0x00, 64, 17, 0x00, 0x00, 10, 0, 2, 15, 8, 8, 8, 8]

/-- The UDP header in front of a message of `len` bytes. -/
def udpHeader (len : Nat) : List UInt8 :=
  [0x12, 0x34, 0x00, 0x35] ++ bytes16 (8 + len) ++ [0x00, 0x00]

/-- The packet around a query: the three headers and `memcpy` of the query. -/
def packetOf (ourMac : Mac) (query : List UInt8) : List UInt8 :=
  gatewayMac ++ (List.ofFn ourMac ++ ([0x08, 0x00] ++
    (ipHeader query.length ++ (udpHeader query.length ++ query))))

/-- The frame `dns_resolve_simple(hostname)` passes to `rtl8139_send_packet`. -/
def queryFrame (ourMac : Mac) (hostname : CStr) : Except Fault (List UInt8) :=
  if 512 < (buildDnsQuery hostname).length then .error .pastBuffer
  else .ok (packetOf ourMac (buildDnsQuery hostname))

/-! ## `parse_dns_response` -/

/-- Byte `i` of a received message. -/
def byteAt (message : List UInt8) (i : Nat) : Except Fault UInt8 :=
  match message[i]? with
  | some b => .ok b
  | none => .error (.pastMessage i)

/-- `(ptr[0] << 8) | ptr[1]`. -/
def word16 (message : List UInt8) (ptr : Nat) : Except Fault Nat := do
  let hi ← byteAt message ptr
  let lo ← byteAt message (ptr + 1)
  return word hi lo

/-- `(ptr[0] << 24) | (ptr[1] << 16) | (ptr[2] << 8) | ptr[3]`. -/
def addressOf (b0 b1 b2 b3 : UInt8) : UInt32 :=
  UInt32.ofNat (16777216 * b0.toNat + 65536 * b1.toNat + 256 * b2.toNat + b3.toNat)

/-- The address at `ptr`. -/
def word32 (message : List UInt8) (ptr : Nat) : Except Fault UInt32 := do
  let b0 ← byteAt message ptr
  let b1 ← byteAt message (ptr + 1)
  let b2 ← byteAt message (ptr + 2)
  let b3 ← byteAt message (ptr + 3)
  return addressOf b0 b1 b2 b3

/-- `while (ptr < buffer + len)`: over the labels of the first name, past its final
zero or to wherever the last length leads. -/
def skipName (message : List UInt8) (ptr : Nat) : Nat :=
  if h : ptr < message.length then
    if message[ptr] = 0 then ptr + 1 else skipName message (ptr + message[ptr].toNat + 1)
  else ptr
termination_by message.length - ptr

/-- `parse_dns_response(buffer, len)` on a message of `len` bytes. -/
def parseDnsResponse (message : List UInt8) : Except Fault UInt32 :=
  if message.length < dnsHeaderSize then .ok 0
  else do
    let lo ← byteAt message 6
    let hi ← byteAt message 7
    let ancount := lo.toNat + 256 * hi.toNat
    if ancount = 0 then return 0
    let ptr := skipName message dnsHeaderSize + 4
    if ancount ≥ 1 then
      let ptr := ptr + 2
      let type ← word16 message ptr
      let ptr := ptr + 2 + 2 + 4
      let dataLen ← word16 message ptr
      let ptr := ptr + 2
      if type = 0x0001 ∧ dataLen = 4 then
        let ip ← word32 message ptr
        return ip
    return 0

/-! ## `dns_resolve_simple` -/

/-- The polling loop from round `i` on, `n` rounds left.  `poll i` is the frame
received in round `i`, cut to the 1024 bytes of `recv_buffer`. -/
def receiveLoop (poll : Nat → Option (List UInt8)) : Nat → Nat → Except Fault UInt32
  | 0, _ => .ok 0
  | n + 1, i =>
      match poll i with
      | none => receiveLoop poll n (i + 1)
      | some frame =>
          if 42 < frame.length then
            match parseDnsResponse (frame.drop 42) with
            | .error e => .error e
            | .ok ip => if ip ≠ 0 then .ok ip else receiveLoop poll n (i + 1)
          else receiveLoop poll n (i + 1)

/-- `dns_resolve_simple(hostname)`: the frame sent and the address returned. -/
def dnsResolveSimple (ourMac : Mac) (hostname : CStr) (poll : Nat → Option (List UInt8)) :
    Except Fault (List UInt8 × UInt32) := do
  let frame ← queryFrame ourMac hostname
  let ip ← receiveLoop poll 30 0
  return (frame, ip)

/-! ## What a receiver decodes -/

/-- The labels of a hostname. -/
def labelsOf (hostname : CStr) : List (List UInt8) := hostname.bytes.splitOn dot

/-- A hostname the domain name system admits. -/
structure ValidHostname (hostname : CStr) : Prop where
  labels : ∀ label ∈ labelsOf hostname, ValidLabel label
  length : hostname.length ≤ 253

/-- A frame that is a query for the address of `labels`: Ethernet, IPv4 with a
verified header checksum, UDP with the right length, and one question. -/
structure IsQuery (frame : List UInt8) (labels : List (List UInt8)) : Prop where
  etherType : wordAt frame 12 = 0x0800
  version : frame.getD 14 0 = 0x45
  totalLength : wordAt frame 16 = frame.length - 14
  protocol : frame.getD 23 0 = 17
  checksum : ChecksumVerifies ((frame.drop 14).take 20)
  udpLength : wordAt frame 38 = frame.length - 34
  message : ∃ header rest, decodeQuestions (frame.drop 42) =
      some ((header, [⟨⟨labels, none⟩, 1, 1⟩]), rest) ∧
    header.id = 0x1234 ∧ header.recursionDesired = true ∧ header.qdcount = 1

/-- The loop encodes the labels of a name that has no empty one; the encoding takes
one byte more than the name. -/
theorem nameLoop_eq (name : List UInt8) (h : ∀ label ∈ name.splitOn dot, 1 ≤ label.length) :
    nameLoop name = encodeLabels (name.splitOn dot) ∧
      (nameLoop name).length = name.length + 1 := by
  induction hn : name.length using Nat.strong_induction_on generalizing name with
  | _ n ih =>
      cases name with
      | nil => exact absurd (h [] (by simp)) (by simp)
      | cons c name =>
          have hsplit := List.takeWhile_append_dropWhile (p := (· ≠ dot)) (l := c :: name)
          have hsegment : dot ∉ (c :: name).takeWhile (· ≠ dot) := by
            intro hmem
            have hne := List.mem_takeWhile_imp hmem
            exact absurd hne (by simp)
          rw [nameLoop]
          generalize (c :: name).takeWhile (· ≠ dot) = segment at hsplit hsegment ⊢
          cases hrest : (c :: name).dropWhile (· ≠ dot) with
          | nil =>
              -- no dot is left: the segment is the last label
              rw [hrest, List.append_nil] at hsplit
              rw [← hsplit, List.splitOn_eq_singleton hsegment, List.drop_nil, nameLoop]
              subst hsplit
              exact ⟨by simp [encodeLabels], by simp [← hn]⟩
          | cons d rest =>
              have hdot : d = dot := by
                have hhead := List.head?_dropWhile_not (· ≠ dot) (c :: name)
                rw [hrest] at hhead
                simpa using hhead
              subst hdot
              rw [hrest] at hsplit
              have hlabels : (c :: name).splitOn dot = segment :: rest.splitOn dot := by
                rw [← hsplit, List.splitOn_append_cons_self_of_not_mem hsegment]
              have hlen : (c :: name).length = segment.length + (rest.length + 1) := by
                rw [← hsplit, List.length_append, List.length_cons]
              rw [hlabels] at h ⊢
              obtain ⟨henc, hlength⟩ := ih rest.length (by omega) rest
                (fun label hl => h label (List.mem_cons_of_mem _ hl)) rfl
              rw [List.drop_one, List.tail_cons]
              refine ⟨by simp [encodeLabels, henc], ?_⟩
              rw [List.length_cons, List.length_append, hlength]
              omega

theorem length_buildDnsQuery {hostname : CStr} (h : ValidHostname hostname) :
    (buildDnsQuery hostname).length = hostname.length + 18 := by
  have hname := (nameLoop_eq hostname.bytes fun label hl => (h.labels label hl).1).2
  simp only [buildDnsQuery, native16, List.length_append, List.length_cons, List.length_nil,
    hname, CStr.length]
  omega

/-- The bytes of the query behind its header. -/
theorem buildDnsQuery_eq {hostname : CStr} (h : ValidHostname hostname) :
    buildDnsQuery hostname = [0x34, 0x12, 0x00, 0x01, 0x01, 0x00, 0, 0, 0, 0, 0, 0] ++
      (encodeLabels (labelsOf hostname) ++ 0 :: [0x01, 0x00, 0x01, 0x00]) := by
  rw [buildDnsQuery, (nameLoop_eq hostname.bytes fun label hl => (h.labels label hl).1).1]
  rfl

theorem word_bytes16 {v : Nat} (h : v < 65536) :
    word (UInt8.ofNat (v / 256)) (UInt8.ofNat v) = v := by
  rw [word, UInt8.toNat_ofNat', UInt8.toNat_ofNat']
  omega

/-- The checksum field of zero is never right. -/
theorem not_checksumVerifies_ipHeader {len : Nat} (h : len ≤ 512) :
    ¬ ChecksumVerifies (ipHeader len) := by
  have hwords : (words (ipHeader len)).sum = 62308 + (20 + 8 + len) := by
    have hlen := word_bytes16 (show 20 + 8 + len < 65536 by omega)
    simp only [ipHeader, bytes16, List.cons_append, List.nil_append, words, hlen]
    simp [word]
    omega
  exact not_checksumVerifies (by omega) (by omega)

section Packet

variable (ourMac : Mac) (query : List UInt8)

theorem packetOf_length : (packetOf ourMac query).length = 42 + query.length := by
  simp [packetOf, gatewayMac, ipHeader, udpHeader, bytes16]
  omega

theorem packetOf_message : (packetOf ourMac query).drop 42 = query := by
  simp [packetOf, gatewayMac, ipHeader, udpHeader, bytes16]

theorem packetOf_ipHeader : ((packetOf ourMac query).drop 14).take 20 = ipHeader query.length := by
  simp [packetOf, gatewayMac, ipHeader, udpHeader, bytes16]

theorem packetOf_etherType : wordAt (packetOf ourMac query) 12 = 0x0800 := by
  simp [packetOf, gatewayMac, wordAt, word]

/-- The fields of the IP and UDP headers of a message that fits. -/
theorem packetOf_fields (h : query.length ≤ 512) :
    (packetOf ourMac query).getD 14 0 = 0x45 ∧
      wordAt (packetOf ourMac query) 16 = (packetOf ourMac query).length - 14 ∧
      (packetOf ourMac query).getD 23 0 = 17 ∧
      wordAt (packetOf ourMac query) 38 = (packetOf ourMac query).length - 34 := by
  have htotal := word_bytes16 (show 20 + 8 + query.length < 65536 by omega)
  have hudp := word_bytes16 (show 8 + query.length < 65536 by omega)
  rw [packetOf_length]
  simp [packetOf, gatewayMac, ipHeader, udpHeader, bytes16, wordAt] at htotal hudp ⊢
  omega

end Packet

/-- What a receiver makes of the frame for a valid hostname.  The Ethernet layer,
the lengths and the labels are right; the checksum does not verify, and the words
of the DNS layer have their bytes swapped. -/
theorem queryFrame_decodes (ourMac : Mac) {hostname : CStr} (h : ValidHostname hostname) :
    ∃ frame tail, queryFrame ourMac hostname = .ok frame ∧
      wordAt frame 12 = 0x0800 ∧ frame.getD 14 0 = 0x45 ∧ wordAt frame 16 = frame.length - 14 ∧
      frame.getD 23 0 = 17 ∧ ¬ ChecksumVerifies ((frame.drop 14).take 20) ∧
      wordAt frame 38 = frame.length - 34 ∧
      decodeHeader (frame.drop 42) = some (⟨0x3412, 0x0001, 0x0100, 0, 0, 0⟩, tail) ∧
      decodeQuestion tail = some (⟨⟨labelsOf hostname, none⟩, 0x0100, 0x0100⟩, []) := by
  have hlen := length_buildDnsQuery h
  have hhost := h.length
  have hfits : ¬ 512 < (buildDnsQuery hostname).length := by omega
  obtain ⟨hversion, htotal, hprotocol, hudp⟩ :=
    packetOf_fields ourMac (buildDnsQuery hostname) (by omega)
  refine ⟨_, encodeLabels (labelsOf hostname) ++ 0 :: [0x01, 0x00, 0x01, 0x00], if_neg hfits,
    packetOf_etherType ourMac _, hversion, htotal, hprotocol, ?_, hudp, ?_, ?_⟩
  · rw [packetOf_ipHeader]
    exact not_checksumVerifies_ipHeader (by omega)
  · rw [packetOf_message, buildDnsQuery_eq h]
    rfl
  · rw [decodeQuestion, decodeName_encodeLabels h.labels]
    rfl

theorem not_isQuery {frame : List UInt8} {labels : List (List UInt8)}
    (h : ¬ ChecksumVerifies ((frame.drop 14).take 20)) : ¬ IsQuery frame labels :=
  fun hquery => h hquery.checksum

/-- No frame the resolver sends is the query it should be. -/
theorem queryFrame_never_isQuery (ourMac : Mac) {hostname : CStr} (h : ValidHostname hostname) :
    ∃ frame, queryFrame ourMac hostname = .ok frame ∧ ¬ IsQuery frame (labelsOf hostname) := by
  obtain ⟨frame, _, hframe, _, _, _, _, hchecksum, _⟩ := queryFrame_decodes ourMac h
  exact ⟨frame, hframe, not_isQuery hchecksum⟩

/-- The hostname "a.b". -/
def hostAB : CStr := ⟨text "a.b", by decide⟩

theorem validHostname_hostAB : ValidHostname hostAB := by
  refine ⟨fun label hl => ?_, by decide⟩
  have hlabels : labelsOf hostAB = [[97], [98]] := by decide
  rw [hlabels] at hl
  simp only [List.mem_cons, List.not_mem_nil, or_false] at hl
  rcases hl with rfl | rfl <;> exact ⟨by decide, by decide⟩

theorem queryFrame_never_isQuery_hostAB :
    ∃ frame, queryFrame (fun _ => 0x52) hostAB = .ok frame ∧ ¬ IsQuery frame (labelsOf hostAB) :=
  queryFrame_never_isQuery _ validHostname_hostAB

/-- The query for "a.b" reaches the receiver with a wrong checksum, the identifier
0x3412, no request for recursion, and 256 questions announced. -/
theorem queryFrame_hostAB_malformed :
    ValidHostname hostAB ∧ ∃ frame header tail, queryFrame (fun _ => 0x52) hostAB = .ok frame ∧
      ¬ IsQuery frame [[97], [98]] ∧ decodeHeader (frame.drop 42) = some (header, tail) ∧
      header.id = 0x3412 ∧ header.recursionDesired = false ∧ header.qdcount = 256 := by
  obtain ⟨frame, tail, hframe, _, _, _, _, hchecksum, _, hheader, _⟩ :=
    queryFrame_decodes (fun _ => 0x52) validHostname_hostAB
  exact ⟨validHostname_hostAB, frame, _, tail, hframe, not_isQuery hchecksum, hheader, rfl, rfl,
    rfl⟩

/-! ## Reads of the parser -/

theorem byteAt_inside {message : List UInt8} {i : Nat} (h : i < message.length) :
    byteAt message i = .ok (message.getD i 0) := by
  rw [byteAt, List.getElem?_eq_getElem h, List.getD_eq_getElem _ _ h]

theorem byteAt_outside {message : List UInt8} {i : Nat} (h : message.length ≤ i) :
    byteAt message i = .error (.pastMessage i) := by
  rw [byteAt, List.getElem?_eq_none h]

theorem word16_inside {message : List UInt8} {i : Nat} (h : i + 1 < message.length) :
    word16 message i = .ok (wordAt message i) := by
  rw [word16, byteAt_inside (Nat.lt_of_succ_lt h), byteAt_inside h]
  rfl

theorem word16_outside {message : List UInt8} {i : Nat} (h : message.length ≤ i + 1) :
    ∃ e, word16 message i = .error e := by
  by_cases hi : i < message.length
  · refine ⟨.pastMessage (i + 1), ?_⟩
    rw [word16, byteAt_inside hi, byteAt_outside h]
    rfl
  · refine ⟨.pastMessage i, ?_⟩
    rw [word16, byteAt_outside (Nat.le_of_not_lt hi)]
    rfl

/-- The four bytes at index `i`, as an address. -/
def addressAt (message : List UInt8) (i : Nat) : UInt32 :=
  addressOf (message.getD i 0) (message.getD (i + 1) 0) (message.getD (i + 2) 0)
    (message.getD (i + 3) 0)

theorem word32_ok_iff {message : List UInt8} {i : Nat} {ip : UInt32} :
    word32 message i = .ok ip ↔ i + 4 ≤ message.length ∧ ip = addressAt message i := by
  by_cases h : i + 4 ≤ message.length
  · rw [word32, byteAt_inside (by omega), byteAt_inside (by omega), byteAt_inside (by omega),
      byteAt_inside (by omega)]
    simp only [h, true_and]
    exact ⟨fun hok => (Except.ok.inj hok).symm, fun hip => by rw [hip]; rfl⟩
  · refine iff_of_false (fun hok => ?_) (fun hip => h hip.1)
    have hlast : byteAt message (i + 3) = .error (.pastMessage (i + 3)) :=
      byteAt_outside (by omega)
    simp only [word32, hlast, bind, Except.bind] at hok
    repeat' split at hok
    all_goals exact absurd hok (by simp)

/-- The count of answers is zero, whichever its byte order. -/
def NoAnswers (message : List UInt8) : Prop := message.getD 6 0 = 0 ∧ message.getD 7 0 = 0

instance (message : List UInt8) : Decidable (NoAnswers message) :=
  inferInstanceAs (Decidable (_ ∧ _))

/-- Where the walk over the first name ends. -/
def nameEnd (message : List UInt8) : Nat := skipName message dnsHeaderSize

/-- What the parser takes for the first answer is an address: type A with four
bytes of data. -/
def TakenForAddress (message : List UInt8) : Prop :=
  wordAt message (nameEnd message + 6) = 1 ∧ wordAt message (nameEnd message + 14) = 4

theorem addressOf_eq_zero {b0 b1 b2 b3 : UInt8} :
    addressOf b0 b1 b2 b3 = 0 ↔ b0 = 0 ∧ b1 = 0 ∧ b2 = 0 ∧ b3 = 0 := by
  have h0 := b0.toNat_lt
  have h1 := b1.toNat_lt
  have h2 := b2.toNat_lt
  have h3 := b3.toNat_lt
  simp only [addressOf, ← UInt32.toNat_inj, ← UInt8.toNat_inj, UInt32.toNat_ofNat',
    UInt32.toNat_zero, UInt8.toNat_zero]
  omega

theorem parseDnsResponse_short {message : List UInt8} (h : message.length < dnsHeaderSize) :
    parseDnsResponse message = .ok 0 := by
  rw [parseDnsResponse, if_pos h]

theorem parseDnsResponse_noAnswers {message : List UInt8} (h : dnsHeaderSize ≤ message.length)
    (hnone : NoAnswers message) : parseDnsResponse message = .ok 0 := by
  have hlong : 12 ≤ message.length := h
  rw [parseDnsResponse, if_neg (Nat.not_lt.mpr h), byteAt_inside (by omega),
    byteAt_inside (by omega), hnone.1, hnone.2]
  rfl

/-- The parser behind its two early returns. -/
theorem parseDnsResponse_answers {message : List UInt8} (h : dnsHeaderSize ≤ message.length)
    (hsome : ¬ NoAnswers message) :
    parseDnsResponse message = (do
      let type ← word16 message (nameEnd message + 6)
      let dataLen ← word16 message (nameEnd message + 14)
      if type = 0x0001 ∧ dataLen = 4 then word32 message (nameEnd message + 16)
      else return 0) := by
  have hlong : 12 ≤ message.length := h
  have hcount : (message.getD 6 0).toNat + 256 * (message.getD 7 0).toNat ≠ 0 := by
    intro hzero
    refine hsome ⟨UInt8.toNat_inj.mp ?_, UInt8.toNat_inj.mp ?_⟩ <;>
      simp only [UInt8.toNat_zero] <;> omega
  rw [parseDnsResponse, if_neg (Nat.not_lt.mpr h), byteAt_inside (show 6 < _ by omega),
    byteAt_inside (show 7 < _ by omega)]
  simp only [bind, Except.bind, hcount, if_false]
  rw [if_pos (Nat.one_le_iff_ne_zero.mpr hcount)]
  rfl

/-- Every byte the parser reads lies inside the message, and it returns 0 when the
first answer of the message does not. -/
def InBounds (message : List UInt8) : Prop :=
  ∃ ip, parseDnsResponse message = .ok ip ∧ (firstAnswer message = none → ip = 0)

/-- A message with answers: the parser reads the sixteen bytes behind the name, and
four more if they announce an address. -/
theorem parseDnsResponse_answers_iff {message : List UInt8}
    (h : dnsHeaderSize ≤ message.length) (hsome : ¬ NoAnswers message) (ip : UInt32) :
    parseDnsResponse message = .ok ip ↔
      nameEnd message + 16 ≤ message.length ∧
        (TakenForAddress message → nameEnd message + 20 ≤ message.length ∧
          ip = addressAt message (nameEnd message + 16)) ∧
        (¬ TakenForAddress message → ip = 0) := by
  rw [parseDnsResponse_answers h hsome, TakenForAddress]
  by_cases hfixed : nameEnd message + 16 ≤ message.length
  · rw [word16_inside (by omega), word16_inside (by omega)]
    simp only [bind, Except.bind, hfixed, true_and]
    by_cases htaken :
      wordAt message (nameEnd message + 6) = 1 ∧ wordAt message (nameEnd message + 14) = 4
    · rw [if_pos htaken, word32_ok_iff]
      simp only [htaken, and_self, true_implies, not_true_eq_false, false_implies, and_true]
    · rw [if_neg htaken]
      simp only [htaken, false_implies, not_false_eq_true, true_implies, true_and]
      exact ⟨fun hok => (Except.ok.inj hok).symm, fun hip => by rw [hip]; rfl⟩
  · refine iff_of_false (fun hok => ?_) (fun hip => hfixed hip.1)
    obtain ⟨e, hfault⟩ := word16_outside
      (show message.length ≤ nameEnd message + 14 + 1 by omega)
    cases htype : word16 message (nameEnd message + 6) with
    | error e =>
        rw [htype, error_bind] at hok
        exact nomatch hok
    | ok type =>
        rw [htype, hfault, ok_bind, error_bind] at hok
        exact nomatch hok

/-- The four bytes at index `i` are zero. -/
def ZeroAddress (message : List UInt8) (i : Nat) : Prop :=
  ∀ k, k < 4 → message.getD (i + k) 0 = 0

theorem addressAt_eq_zero (message : List UInt8) (i : Nat) :
    addressAt message i = 0 ↔ ZeroAddress message i := by
  rw [addressAt, addressOf_eq_zero]
  constructor
  · rintro ⟨h0, h1, h2, h3⟩ k hk
    match k, hk with
    | 0, _ => exact h0
    | 1, _ => exact h1
    | 2, _ => exact h2
    | 3, _ => exact h3
  · exact fun h => ⟨h 0 (by decide), h 1 (by decide), h 2 (by decide), h 3 (by decide)⟩

/-- The parser stays inside the message and takes nothing else for its first answer
exactly when: the message has no header, announces no answer, or holds the sixteen
bytes that follow the first name; and if these announce an address, it also holds
its four bytes, and they are zero unless the first answer lies inside. -/
theorem parse_inBounds_iff (message : List UInt8) :
    InBounds message ↔ message.length < dnsHeaderSize ∨ NoAnswers message ∨
      nameEnd message + 16 ≤ message.length ∧
        (TakenForAddress message → nameEnd message + 20 ≤ message.length ∧
          (firstAnswer message = none → ZeroAddress message (nameEnd message + 16))) := by
  by_cases hshort : message.length < dnsHeaderSize
  · exact iff_of_true ⟨0, parseDnsResponse_short hshort, fun _ => rfl⟩ (Or.inl hshort)
  have hlong := Nat.le_of_not_lt hshort
  by_cases hnone : NoAnswers message
  · exact iff_of_true ⟨0, parseDnsResponse_noAnswers hlong hnone, fun _ => rfl⟩
      (Or.inr (Or.inl hnone))
  simp only [InBounds, parseDnsResponse_answers_iff hlong hnone, hshort, hnone, false_or,
    ← addressAt_eq_zero]
  constructor
  · rintro ⟨ip, ⟨hfixed, htaken, _⟩, hzero⟩
    refine ⟨hfixed, fun haddress => ?_⟩
    obtain ⟨hdata, rfl⟩ := htaken haddress
    exact ⟨hdata, hzero⟩
  · rintro ⟨hfixed, htaken⟩
    by_cases haddress : TakenForAddress message
    · obtain ⟨hdata, hzero⟩ := htaken haddress
      exact ⟨_, ⟨hfixed, fun _ => ⟨hdata, rfl⟩, fun hno => absurd haddress hno⟩, hzero⟩
    · exact ⟨0, ⟨hfixed, fun hyes => absurd hyes haddress, fun _ => rfl⟩, fun _ => rfl⟩

/-- A response that is cut off behind its header, with one answer announced. -/
def cutResponse : List UInt8 := [0x12, 0x34, 0x81, 0x80, 0, 1, 0, 1, 0, 0, 0, 0]

theorem parse_cutResponse : ¬ InBounds cutResponse := by
  rintro ⟨ip, hparse, _⟩
  have hend : nameEnd cutResponse = 12 := by
    rw [nameEnd, skipName, dif_neg (by decide)]
    rfl
  have hfixed := ((parseDnsResponse_answers_iff (by decide) (by decide) ip).mp hparse).1
  rw [hend] at hfixed
  exact absurd hfixed (by decide)

theorem receiveLoop_completes {poll : Nat → Option (List UInt8)}
    (h : ∀ i frame, poll i = some frame → 42 < frame.length → InBounds (frame.drop 42)) (n : Nat) :
    ∀ i, ∃ ip, receiveLoop poll n i = .ok ip := by
  induction n with
  | zero => exact fun _ => ⟨0, rfl⟩
  | succ n ih =>
      intro i
      rw [receiveLoop]
      cases hpoll : poll i with
      | none => exact ih (i + 1)
      | some frame =>
          by_cases hlong : 42 < frame.length
          · obtain ⟨ip, hparse, _⟩ := h i frame hpoll hlong
            simp only [if_pos hlong, hparse]
            by_cases hip : ip = 0
            · rw [if_neg (not_not.mpr hip)]
              exact ih (i + 1)
            · exact ⟨ip, if_pos hip⟩
          · simp only [if_neg hlong]
            exact ih (i + 1)

/-- The resolver completes for every hostname the domain name system admits, as
long as it receives only messages the parser stays inside of. -/
theorem dnsResolveSimple_completes (ourMac : Mac) {hostname : CStr} (hhost : ValidHostname hostname)
    {poll : Nat → Option (List UInt8)}
    (h : ∀ i frame, poll i = some frame → 42 < frame.length → InBounds (frame.drop 42)) :
    ∃ sent ip, dnsResolveSimple ourMac hostname poll = .ok (sent, ip) := by
  obtain ⟨frame, _, hframe, _⟩ := queryFrame_decodes ourMac hhost
  obtain ⟨ip, hloop⟩ := receiveLoop_completes h 30 0
  refine ⟨frame, ip, ?_⟩
  rw [dnsResolveSimple, hframe, hloop]
  rfl

end FalastinOS.Net.Dns
