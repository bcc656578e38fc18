/-
  Net/Arp.lean --- the state of `net.c`, its packet layouts, and the ARP cache.

  The packet structures are packed and are overlaid on byte buffers, and their
  integer fields are read and written natively, which on this machine means
  little-endian.  A buffer on the stack starts with unknown bytes; they are a
  parameter of the functions that build a packet.
-/
import FalastinOS.Foundation.Memory
import Mathlib.Data.List.FinRange

set_option autoImplicit false

namespace FalastinOS.Net

open FalastinOS.Foundation

/-- A hardware address. -/
abbrev Mac : Type := Fin 6 → UInt8

/-- `ArpCacheEntry`. -/
structure ArpCacheEntry where
  ip : UInt32
  mac : Mac
  valid : Int32

/-- The ARP cache has a first entry. -/
scoped instance arpCacheNonempty : NeZero 16 := ⟨by decide⟩

/-- The configuration and the ARP cache of `net.c`.  The count never exceeds the
array. -/
structure NetState where
  ourMac : Mac
  ourIp : UInt32
  arpCache : Fin 16 → ArpCacheEntry
  arpCacheCount : Nat
  countLe : arpCacheCount ≤ 16

/-! ## Layouts

Offsets into a frame: the Ethernet header takes bytes 0 to 13, an IP header
bytes 14 to 33, an ICMP header bytes 34 to 41; an ARP header takes bytes 14 to
41. -/

/-- `sizeof(EthHeader)`. -/
def ethHeaderSize : Nat := 14

/-- `sizeof(IpHeader)`. -/
def ipHeaderSize : Nat := 20

/-- `sizeof(IcmpHeader)`. -/
def icmpHeaderSize : Nat := 8

/-- `sizeof(ArpHeader)`. -/
def arpHeaderSize : Nat := 28

/-- `memcpy(packet + a, mac, 6)`. -/
def putMac (m : Mem) (a : Nat) (mac : Mac) : Mem := fun x =>
  if h : a ≤ x ∧ x < a + 6 then mac ⟨x - a, by omega⟩ else m x

/-- The Ethernet header: destination, source and type. -/
def putEthHeader (m : Mem) (dest src : Mac) (ethertype : Nat) : Mem :=
  (putMac (putMac m 0 dest) 6 src).writeLE 2 12 ethertype

/-- The first `n` bytes of a buffer, as `rtl8139_send_packet` gets them. -/
def bytesOf (m : Mem) (n : Nat) : List UInt8 := (List.range n).map m

/-! ## `arp_lookup` and `arp_send_request` -/

/-- `arp_lookup(ip)`: the first valid entry below the count. -/
def arpLookup (net : NetState) (ip : UInt32) : Option Mac :=
  ((List.finRange 16).find? fun i =>
    decide (i.val < net.arpCacheCount) && decide ((net.arpCache i).valid ≠ 0)
      && decide ((net.arpCache i).ip = ip)).map fun i => (net.arpCache i).mac

/-- The packet `arp_send_request(target_ip)` hands to `rtl8139_send_packet`. -/
def arpSendRequest (net : NetState) (stack : Mem) (targetIp : UInt32) : List UInt8 :=
  let m := putEthHeader stack (fun _ => 0xFF) net.ourMac 0x0806
  let m := m.writeLE 2 14 1
  let m := m.writeLE 2 16 0x0800
  let m := m.writeByte 18 6
  let m := m.writeByte 19 4
  let m := m.writeLE 2 20 1
  let m := putMac m 22 net.ourMac
  let m := m.writeLE 4 28 net.ourIp.toNat
  let m := putMac m 32 fun _ => 0
  let m := m.writeLE 4 38 targetIp.toNat
  bytesOf m (ethHeaderSize + arpHeaderSize)

end FalastinOS.Net
