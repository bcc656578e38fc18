/-
  Net/ArpCache.lean --- who writes the ARP cache, and what a lookup finds.

  Five functions write the array `arp_cache`.  `net_init` and `net_set_static_ip` start
  it anew; the second resets only the count.  `arp_add_static`, `cmd_arpset` and
  `arp_handle_packet` each have their own copy of the same search and insertion, and
  the last ignores the gateway.

  `cache_sound` says that the array is a map in every state that these five can reach,
  and that a lookup gives what was stored last.  `resolvable_iff_gatewayKnown` says what
  ignoring the gateway costs: its own answer resolves it only if it is in the cache.
-/
import FalastinOS.Foundation.CString
import FalastinOS.Foundation.Execution
import FalastinOS.Foundation.KeyTable
import FalastinOS.Net.Arp

set_option autoImplicit false

namespace FalastinOS.Net

open FalastinOS.Foundation

/-! ## Addresses -/

/-- One turn of the loop of `ip_str_to_addr`, on `ip`, `octet` and `shift`.  A shift count
outside 0 to 31, which a fifth octet would need, is taken modulo 32 as the processor
does. -/
def ipStrStep (s : UInt32 × UInt32 × Int) (c : UInt8) : UInt32 × UInt32 × Int :=
  let (ip, octet, shift) := s
  if 48 ≤ c ∧ c ≤ 57 then (ip, octet * 10 + (c - 48).toUInt32, shift)
  else if c = 46 then (ip ||| octet <<< UInt32.ofInt shift, 0, shift - 8)
  else s

/-- `ip_str_to_addr(ip_str)`. -/
def ipStrToAddr (s : CStr) : UInt32 :=
  let (ip, octet, _) := s.bytes.foldl ipStrStep (0, 0, 24)
  ip ||| octet

/-- One hexadecimal digit as `cmd_arpset` reads it; any other character counts as 0. -/
def hexDigit (c : UInt8) : UInt8 :=
  if 48 ≤ c ∧ c ≤ 57 then c - 48
  else if 97 ≤ c ∧ c ≤ 102 then c - 97 + 10
  else if 65 ≤ c ∧ c ≤ 70 then c - 65 + 10
  else 0

/-- The loop of `cmd_arpset` over `argv[2]`, which does not look for its end. -/
def parseMac (text : Nat → UInt8) : Mac := fun i =>
  hexDigit (text (i.val * 3)) * 16 + hexDigit (text (i.val * 3 + 1))

/-! ## The variables of `net.c` -/

/-- The cache and the configuration. -/
structure NetStack extends NetState where
  gatewayIp : UInt32
  subnetMask : UInt32

/-- The variables before `net_init`. -/
def NetStack.boot : NetStack where
  ourMac := fun _ => 0
  ourIp := 0
  arpCache := fun _ => ⟨0, fun _ => 0, 0⟩
  arpCacheCount := 0
  countLe := by decide
  gatewayIp := 0
  subnetMask := 0

/-- The addresses `net_init` sets. -/
def defaultIp : UInt32 := ipStrToAddr ⟨text "10.0.2.15", by decide⟩

def defaultGateway : UInt32 := ipStrToAddr ⟨text "10.0.2.2", by decide⟩

def defaultMask : UInt32 := ipStrToAddr ⟨text "255.255.255.0", by decide⟩

/-- `gateway_mac` in `net_init`. -/
def gatewayMac : Mac := fun i => [0x52, 0x54, 0x00, 0x12, 0x34, 0x56].getD i.val 0

/-- `net_init()`, with the hardware address that `rtl8139_get_mac` gives. -/
def netInit (net : NetStack) (mac : Mac) : NetStack where
  ourMac := mac
  ourIp := defaultIp
  arpCache :=
    let cleared : Fin 16 → ArpCacheEntry := fun i => { net.arpCache i with valid := 0, ip := 0 }
    Function.update (Function.update cleared 0 ⟨defaultIp, mac, 1⟩) 1
      ⟨defaultGateway, gatewayMac, 1⟩
  arpCacheCount := 2
  countLe := by decide
  gatewayIp := defaultGateway
  subnetMask := defaultMask

/-- `net_set_static_ip(ip, gateway, mask)`. -/
def netSetStaticIp (net : NetStack) (ip gateway mask : CStr) : NetStack where
  ourMac := net.ourMac
  ourIp := ipStrToAddr ip
  arpCache := Function.update net.arpCache 0 ⟨ipStrToAddr ip, net.ourMac, 1⟩
  arpCacheCount := 1
  countLe := by decide
  gatewayIp := ipStrToAddr gateway
  subnetMask := ipStrToAddr mask

/-- `is_local_network(ip)`. -/
def isLocalNetwork (net : NetStack) (ip : UInt32) : Bool :=
  (ip &&& net.subnetMask) = (net.ourIp &&& net.subnetMask)

/-- `target_for_mac` in `ping(ip)`. -/
def nextHop (net : NetStack) (ip : UInt32) : UInt32 :=
  if isLocalNetwork net ip then ip else net.gatewayIp

/-- The search and insertion that three functions have a copy of: the first valid entry of
the address gets the new hardware address; if there is none, the next slot is taken while
there is one. -/
def arpStore (net : NetStack) (ip : UInt32) (mac : Mac) : NetStack :=
  match (List.finRange 16).find? fun i =>
      decide (i.val < net.arpCacheCount) && decide ((net.arpCache i).valid ≠ 0)
        && decide ((net.arpCache i).ip = ip) with
  | some i =>
      { net with arpCache := Function.update net.arpCache i { net.arpCache i with mac := mac } }
  | none =>
      if h : net.arpCacheCount < 16 then
        { net with
          arpCache := Function.update net.arpCache ⟨net.arpCacheCount, h⟩ ⟨ip, mac, 1⟩
          arpCacheCount := net.arpCacheCount + 1
          countLe := h }
      else net

/-- `arp_add_static(ip, mac)`. -/
def arpAddStatic (net : NetStack) (ip : UInt32) (mac : Mac) : NetStack := arpStore net ip mac

/-- `cmd_arpset(argc, argv)`, with the bytes from `argv[2]` on, and what it prints. -/
def cmdArpset (net : NetStack) (argc : Nat) (argv1 : CStr) (argv2 : Nat → UInt8) :
    NetStack × List UInt8 :=
  if argc < 3 then
    (net, text "Usage: arpset <ip> <mac>\nExample: arpset 192.168.1.1 00:11:22:33:44:55\n")
  else
    let ip := ipStrToAddr argv1
    (arpStore net ip (parseMac argv2),
      if (arpLookup net.toNetState ip).isSome then text "Updated ARP entry\n"
      else if net.arpCacheCount < 16 then text "Added ARP entry\n"
      else [])

/-! ## `arp_handle_packet` -/

/-- `arp->sender_ip`. -/
def senderIp (packet : Mem) : UInt32 := UInt32.ofNat (packet.readLE 4 28)

/-- `arp->target_ip`. -/
def targetIp (packet : Mem) : UInt32 := UInt32.ofNat (packet.readLE 4 38)

/-- `arp->opcode`. -/
def arpOpcode (packet : Mem) : Nat := packet.readLE 2 20

/-- `arp->sender_mac`. -/
def senderMac (packet : Mem) : Mac := fun i => packet (22 + i.val)

/-- The packet the reply path of `arp_handle_packet` hands to `rtl8139_send_packet`. -/
def arpReply (net : NetStack) (stack packet : Mem) : List UInt8 :=
  let m := putEthHeader stack (senderMac packet) net.ourMac 0x0806
  let m := m.writeLE 2 14 1
  let m := m.writeLE 2 16 0x0800
  let m := m.writeByte 18 6
  let m := m.writeByte 19 4
  let m := m.writeLE 2 20 2
  let m := putMac m 22 net.ourMac
  let m := m.writeLE 4 28 net.ourIp.toNat
  let m := putMac m 32 (senderMac packet)
  let m := m.writeLE 4 38 (senderIp packet).toNat
  bytesOf m (ethHeaderSize + arpHeaderSize)

/-- `arp_handle_packet(packet, len)`: the variables after it and the reply it sends. -/
def arpHandlePacket (net : NetStack) (stack packet : Mem) (len : Nat) :
    NetStack × Option (List UInt8) :=
  if len < ethHeaderSize + arpHeaderSize then (net, none)
  else if senderIp packet = net.gatewayIp then (net, none)
  else
    let net' := arpStore net (senderIp packet) (senderMac packet)
    (net', if arpOpcode packet = 1 ∧ targetIp packet = net.ourIp then
        some (arpReply net' stack packet)
      else none)

/-! ## The cache as a table of keys -/

/-- The cache without its other data. -/
def NetState.table (net : NetState) : KeyTable UInt32 Mac 16 where
  key := fun i => (net.arpCache i).ip
  value := fun i => (net.arpCache i).mac
  live := fun i => decide ((net.arpCache i).valid ≠ 0)
  count := net.arpCacheCount
  countLe := net.countLe

theorem arpLookup_eq (net : NetState) (ip : UInt32) : arpLookup net ip = net.table.lookup ip := rfl

theorem arpStore_eq (net : NetStack) (ip : UInt32) (mac : Mac) :
    arpStore net ip mac =
      match net.table.find ip with
      | some i =>
          { net with arpCache := Function.update net.arpCache i { net.arpCache i with mac := mac } }
      | none =>
          if h : net.arpCacheCount < 16 then
            { net with
              arpCache := Function.update net.arpCache ⟨net.arpCacheCount, h⟩ ⟨ip, mac, 1⟩
              arpCacheCount := net.arpCacheCount + 1
              countLe := h }
          else net := rfl

/-- What an update of one entry does to a field of all entries. -/
theorem field_update {α : Type} (cache : Fin 16 → ArpCacheEntry) (i : Fin 16) (e : ArpCacheEntry)
    (field : ArpCacheEntry → α) :
    (fun j => field (Function.update cache i e j)) =
      Function.update (fun j => field (cache j)) i (field e) := by
  funext j
  exact Function.apply_update (fun _ => field) cache i e j

/-- The copies of the insertion are the table's `store`. -/
theorem table_arpStore (net : NetStack) (ip : UInt32) (mac : Mac) :
    (arpStore net ip mac).table = net.table.store ip mac := by
  rw [arpStore_eq, KeyTable.store]
  cases net.table.find ip with
  | some i =>
      simp only [NetState.table, KeyTable.set, field_update _ _ _ ArpCacheEntry.ip,
        field_update _ _ _ ArpCacheEntry.mac, field_update _ _ _ fun e => decide (e.valid ≠ 0),
        Function.update_eq_self]
  | none =>
      by_cases hroom : net.arpCacheCount < 16
      · have hroom' : net.table.count < 16 := hroom
        simp only [dif_pos hroom, dif_pos hroom']
        simp only [NetState.table, KeyTable.push, field_update _ _ _ ArpCacheEntry.ip,
          field_update _ _ _ ArpCacheEntry.mac, field_update _ _ _ fun e => decide (e.valid ≠ 0)]
        rfl
      · have hroom' : ¬ net.table.count < 16 := hroom
        simp only [dif_neg hroom, dif_neg hroom']

theorem arpStore_gatewayIp (net : NetStack) (ip : UInt32) (mac : Mac) :
    (arpStore net ip mac).gatewayIp = net.gatewayIp := by
  rw [arpStore_eq]
  cases net.table.find ip with
  | some i => rfl
  | none => by_cases hroom : net.arpCacheCount < 16 <;> simp [hroom]

/-- The slots in use after `net_init`. -/
theorem netInit_slot (net : NetStack) (mac : Mac) {i : Fin 16}
    (hi : i.val < (netInit net mac).arpCacheCount) :
    (i = 0 ∧ (netInit net mac).arpCache i = ⟨defaultIp, mac, 1⟩) ∨
      (i = 1 ∧ (netInit net mac).arpCache i = ⟨defaultGateway, gatewayMac, 1⟩) := by
  have hlt : i.val < 2 := hi
  obtain h0 | h1 : i = 0 ∨ i = 1 := by
    simp only [Fin.ext_iff, Fin.val_zero, Fin.val_one]
    omega
  · exact .inl ⟨h0, by rw [h0]; rfl⟩
  · exact .inr ⟨h1, by rw [h1]; rfl⟩

theorem default_ne_gateway : defaultIp ≠ defaultGateway := by decide

theorem kept_netInit (net : NetStack) (mac : Mac) : (netInit net mac).table.Kept := by
  constructor
  · intro i hi
    obtain ⟨_, hentry⟩ | ⟨_, hentry⟩ := netInit_slot net mac hi <;>
      simp only [NetState.table, hentry] <;> decide
  · intro i j hi hj hkey
    obtain ⟨hi', hki⟩ | ⟨hi', hki⟩ := netInit_slot net mac hi <;>
      obtain ⟨hj', hkj⟩ | ⟨hj', hkj⟩ := netInit_slot net mac hj <;>
      simp only [NetState.table, hki, hkj] at hkey
    · exact hi'.trans hj'.symm
    · exact absurd hkey default_ne_gateway
    · exact absurd hkey.symm default_ne_gateway
    · exact hi'.trans hj'.symm

/-- The slot in use after `net_set_static_ip`. -/
theorem netSetStaticIp_slot (net : NetStack) (ip gateway mask : CStr) {i : Fin 16}
    (hi : i.val < (netSetStaticIp net ip gateway mask).arpCacheCount) :
    i = 0 ∧ (netSetStaticIp net ip gateway mask).arpCache i = ⟨ipStrToAddr ip, net.ourMac, 1⟩ := by
  have hlt : i.val < 1 := hi
  have h0 : i = 0 := Fin.ext (by simp only [Fin.val_zero]; omega)
  exact ⟨h0, by rw [h0]; rfl⟩

theorem kept_netSetStaticIp (net : NetStack) (ip gateway mask : CStr) :
    (netSetStaticIp net ip gateway mask).table.Kept := by
  constructor
  · intro i hi
    simp only [NetState.table, (netSetStaticIp_slot net ip gateway mask hi).2]
    decide
  · intro i j hi hj _
    exact (netSetStaticIp_slot net ip gateway mask hi).1.trans
      (netSetStaticIp_slot net ip gateway mask hj).1.symm

/-! ## Every sequence of operations -/

/-- The five writers of the cache. -/
inductive Op where
  | init (mac : Mac)
  | setStaticIp (ip gateway mask : CStr)
  | addStatic (ip : UInt32) (mac : Mac)
  | arpset (argc : Nat) (argv1 : CStr) (argv2 : Nat → UInt8)
  | packet (stack packet : Mem) (len : Nat)

/-- The variables after an operation. -/
def NetStack.after (net : NetStack) : Op → NetStack
  | .init mac => netInit net mac
  | .setStaticIp ip gateway mask => netSetStaticIp net ip gateway mask
  | .addStatic ip mac => arpAddStatic net ip mac
  | .arpset argc argv1 argv2 => (cmdArpset net argc argv1 argv2).1
  | .packet stack packet len => (arpHandlePacket net stack packet len).1

/-- The ledger after an operation: the first two start a new one. -/
def ledgerAfter (net : NetStack) (l : Ledger UInt32 Mac) : Op → Ledger UInt32 Mac
  | .init mac =>
      { last := Function.update (Function.update (fun _ => none) defaultIp (some mac))
          defaultGateway (some gatewayMac)
        refused := fun _ => false }
  | .setStaticIp ip _ _ =>
      { last := Function.update (fun _ => none) (ipStrToAddr ip) (some net.ourMac)
        refused := fun _ => false }
  | .addStatic ip mac => l.note net.table ip mac
  | .arpset argc argv1 argv2 =>
      if argc < 3 then l else l.note net.table (ipStrToAddr argv1) (parseMac argv2)
  | .packet _ packet len =>
      if len < ethHeaderSize + arpHeaderSize ∨ senderIp packet = net.gatewayIp then l
      else l.note net.table (senderIp packet) (senderMac packet)

/-- The variables of `net.c`, with the ledger beside them. -/
structure Recorded where
  net : NetStack
  ledger : Ledger UInt32 Mac

namespace Recorded

def boot : Recorded := ⟨NetStack.boot, Ledger.empty⟩

/-- One operation.  None can fail. -/
def step (s : Recorded) (op : Op) : Except Empty Recorded :=
  .ok ⟨s.net.after op, ledgerAfter s.net s.ledger op⟩

/-- The cache is a map from addresses to the hardware address last stored, and no packet
changes what it has for the gateway. -/
structure CacheSound (s : Recorded) : Prop where
  count : 0 ≤ s.net.arpCacheCount ∧ s.net.arpCacheCount ≤ 16
  valid : ∀ i : Fin 16, i.val < s.net.arpCacheCount → (s.net.arpCache i).valid ≠ 0
  distinct : ∀ i j : Fin 16, i.val < s.net.arpCacheCount → j.val < s.net.arpCacheCount →
    (s.net.arpCache i).ip = (s.net.arpCache j).ip → i = j
  lookup : ∀ ip, arpLookup s.net.toNetState ip =
    if s.ledger.refused ip then none else s.ledger.last ip
  gateway : ∀ stack packet len,
    (arpHandlePacket s.net stack packet len).1.gatewayIp = s.net.gatewayIp ∧
      arpLookup (arpHandlePacket s.net stack packet len).1.toNetState s.net.gatewayIp =
        arpLookup s.net.toNetState s.net.gatewayIp

/-- The invariant in the words of the table. -/
structure Inv (s : Recorded) : Prop where
  kept : s.net.table.Kept
  describes : s.ledger.Describes s.net.table

/-- After `net_init`, the two addresses it stored are found and no other. -/
theorem inv_init (s : Recorded) (mac : Mac) :
    Inv ⟨s.net.after (.init mac), ledgerAfter s.net s.ledger (.init mac)⟩ := by
  have hkept := kept_netInit s.net mac
  refine ⟨hkept, Ledger.describes_of_slots hkept (fun _ => rfl) fun ip v => ?_⟩
  simp only [NetStack.after, ledgerAfter]
  constructor
  · rintro ⟨i, hi, hkey, hvalue⟩
    obtain ⟨_, hentry⟩ | ⟨_, hentry⟩ := netInit_slot s.net mac hi <;>
      simp only [NetState.table, hentry] at hkey hvalue <;> rw [← hkey, ← hvalue]
    · rw [Function.update_of_ne default_ne_gateway, Function.update_self]
    · rw [Function.update_self]
  · intro hlast
    by_cases hg : ip = defaultGateway
    · rw [hg, Function.update_self] at hlast
      exact ⟨1, show 1 < 2 by decide, hg.symm, Option.some.inj hlast⟩
    · rw [Function.update_of_ne hg] at hlast
      by_cases hi : ip = defaultIp
      · rw [hi, Function.update_self] at hlast
        exact ⟨0, show 0 < 2 by decide, hi.symm, Option.some.inj hlast⟩
      · rw [Function.update_of_ne hi] at hlast
        exact nomatch hlast

/-- After `net_set_static_ip`, the address it stored is found and no other. -/
theorem inv_setStaticIp (s : Recorded) (ip gateway mask : CStr) :
    Inv ⟨s.net.after (.setStaticIp ip gateway mask),
      ledgerAfter s.net s.ledger (.setStaticIp ip gateway mask)⟩ := by
  have hkept := kept_netSetStaticIp s.net ip gateway mask
  refine ⟨hkept, Ledger.describes_of_slots hkept (fun _ => rfl) fun ip' v => ?_⟩
  simp only [NetStack.after, ledgerAfter]
  constructor
  · rintro ⟨i, hi, hkey, hvalue⟩
    simp only [NetState.table, (netSetStaticIp_slot s.net ip gateway mask hi).2] at hkey hvalue
    rw [← hkey, ← hvalue, Function.update_self]
  · intro hlast
    by_cases hi : ip' = ipStrToAddr ip
    · rw [hi, Function.update_self] at hlast
      exact ⟨0, show 0 < 1 by decide, hi.symm, Option.some.inj hlast⟩
    · rw [Function.update_of_ne hi] at hlast
      exact nomatch hlast

/-- A store keeps table and ledger together. -/
theorem Inv.store {s : Recorded} (h : s.Inv) (ip : UInt32) (mac : Mac) :
    Inv ⟨arpStore s.net ip mac, s.ledger.note s.net.table ip mac⟩ where
  kept := by
    show (arpStore s.net ip mac).table.Kept
    rw [table_arpStore]
    exact h.kept.store ip mac
  describes := by
    show Ledger.Describes _ (arpStore s.net ip mac).table
    rw [table_arpStore]
    exact h.describes.store h.kept ip mac

theorem inv_step {s s' : Recorded} {op : Op} (h : s.Inv) (hstep : s.step op = .ok s') : s'.Inv := by
  obtain rfl := Except.ok.inj hstep
  cases op with
  | init mac => exact inv_init s mac
  | setStaticIp ip gateway mask => exact inv_setStaticIp s ip gateway mask
  | addStatic ip mac => exact h.store ip mac
  | arpset argc argv1 argv2 =>
      simp only [NetStack.after, ledgerAfter, cmdArpset]
      by_cases hargc : argc < 3
      · simp only [if_pos hargc]
        exact h
      · simp only [if_neg hargc]
        exact h.store _ _
  | packet stack packet len =>
      simp only [NetStack.after, ledgerAfter, arpHandlePacket]
      by_cases hlen : len < ethHeaderSize + arpHeaderSize
      · simp only [if_pos hlen, if_pos (Or.inl hlen)]
        exact h
      · by_cases hgw : senderIp packet = s.net.gatewayIp
        · simp only [if_neg hlen, if_pos hgw, if_pos (Or.inr hgw)]
          exact h
        · simp only [if_neg hlen, if_neg hgw, if_neg (not_or.mpr ⟨hlen, hgw⟩)]
          exact h.store _ _

theorem inv_boot : boot.Inv where
  kept := ⟨fun i hi => absurd hi (Nat.not_lt_zero _), fun i j hi => absurd hi (Nat.not_lt_zero _)⟩
  describes := by
    refine ⟨fun ip => ?_, fun ip h => nomatch h⟩
    have hnone : boot.net.table.find ip = none :=
      List.find?_eq_none.mpr fun i _ => by simp [boot, NetStack.boot, NetState.table]
    rw [KeyTable.lookup, hnone]
    rfl

/-- A packet's sender is not the gateway when it is stored. -/
theorem gateway_packet {s : Recorded} (h : s.Inv) (stack packet : Mem) (len : Nat) :
    (arpHandlePacket s.net stack packet len).1.gatewayIp = s.net.gatewayIp ∧
      arpLookup (arpHandlePacket s.net stack packet len).1.toNetState s.net.gatewayIp =
        arpLookup s.net.toNetState s.net.gatewayIp := by
  unfold arpHandlePacket
  by_cases hlen : len < ethHeaderSize + arpHeaderSize
  · simp only [if_pos hlen, and_self]
  · by_cases hgw : senderIp packet = s.net.gatewayIp
    · simp only [if_neg hlen, if_pos hgw, and_self]
    · simp only [if_neg hlen, if_neg hgw]
      refine ⟨arpStore_gatewayIp _ _ _, ?_⟩
      rw [arpLookup_eq, table_arpStore, arpLookup_eq]
      exact h.kept.lookup_store_other _ (Ne.symm hgw)

theorem Inv.cacheSound {s : Recorded} (h : s.Inv) : s.CacheSound where
  count := ⟨Nat.zero_le _, s.net.countLe⟩
  valid := fun i hi => of_decide_eq_true (h.kept.live i hi)
  distinct := h.kept.distinct
  lookup := h.describes.lookup_eq
  gateway := gateway_packet h

/-- The cache is sound in every state that a sequence of operations passes. -/
theorem cache_sound (ops : List Op) : Along step CacheSound boot ops :=
  (along_of_invariant (fun _ _ _ => inv_step) inv_boot ops).mono fun _ => Inv.cacheSound

/-! ## Resolution -/

/-- Every address is resolved once a packet of its owner was handled; in particular the
next hop that `ping` chooses. -/
structure Resolvable (net : NetStack) : Prop where
  owner : ∀ stack packet len, ethHeaderSize + arpHeaderSize ≤ len →
    arpLookup (arpHandlePacket net stack packet len).1.toNetState (senderIp packet) ≠ none
  hop : ∀ ip stack packet len, ethHeaderSize + arpHeaderSize ≤ len →
    senderIp packet = nextHop net ip →
      arpLookup (arpHandlePacket net stack packet len).1.toNetState (nextHop net ip) ≠ none

/-- The cache has an entry for the gateway. -/
def GatewayKnown (net : NetStack) : Prop := arpLookup net.toNetState net.gatewayIp ≠ none

/-- A new static configuration has the kernel itself as its gateway; nothing else can lose
the entry for the gateway. -/
def KeepsGateway (_ : Recorded) : Op → Prop
  | .setStaticIp ip gateway _ => ipStrToAddr ip = ipStrToAddr gateway
  | _ => True

/-- A packet from the given address. -/
def packetFrom (ip : UInt32) : Mem := Mem.writeLE (fun _ => 0) 4 28 ip.toNat

theorem senderIp_packetFrom (ip : UInt32) : senderIp (packetFrom ip) = ip := by
  have hlt : ip.toNat < 256 ^ 4 := ip.toNat_lt
  rw [senderIp, packetFrom, Mem.readLE_writeLE_of_lt _ _ hlt, UInt32.ofNat_toNat]

/-- One packet resolves its sender, in a cache with room, exactly if the sender is not the
gateway or is known already. -/
theorem resolves_iff {s : Recorded} (h : s.Inv) (hroom : s.net.arpCacheCount < 16)
    (stack packet : Mem) {len : Nat} (hlen : ethHeaderSize + arpHeaderSize ≤ len) :
    arpLookup (arpHandlePacket s.net stack packet len).1.toNetState (senderIp packet) ≠ none ↔
      (senderIp packet = s.net.gatewayIp → GatewayKnown s.net) := by
  unfold arpHandlePacket
  rw [if_neg (Nat.not_lt.mpr hlen)]
  by_cases hgw : senderIp packet = s.net.gatewayIp
  · simp only [hgw, if_true, true_imp_iff]
    exact Iff.rfl
  · simp only [hgw, if_false, false_imp_iff, iff_true]
    have hcount : s.net.table.count ≠ 16 := Nat.ne_of_lt hroom
    rw [arpLookup_eq, table_arpStore, h.kept.lookup_store_self,
      if_neg (fun hfull => hcount hfull.2)]
    exact Option.some_ne_none _

theorem Inv.resolvable_iff {s : Recorded} (h : s.Inv) (hroom : s.net.arpCacheCount < 16) :
    Resolvable s.net ↔ GatewayKnown s.net := by
  constructor
  · intro hres
    have hpacket := (resolves_iff h hroom (fun _ => 0) (packetFrom s.net.gatewayIp)
      (Nat.le_refl _)).mp (hres.owner _ _ _ (Nat.le_refl _))
    exact hpacket (senderIp_packetFrom _)
  · intro hknown
    refine ⟨fun stack packet len hlen => ?_, fun ip stack packet len hlen hsender => ?_⟩
    · exact (resolves_iff h hroom stack packet hlen).mpr fun _ => hknown
    · rw [← hsender]
      exact (resolves_iff h hroom stack packet hlen).mpr fun _ => hknown

/-- A store forgets no address. -/
theorem Inv.known_store {s : Recorded} (h : s.Inv) (ip : UInt32) (mac : Mac) {ip' : UInt32}
    (hknown : arpLookup s.net.toNetState ip' ≠ none) :
    arpLookup (arpStore s.net ip mac).toNetState ip' ≠ none := by
  rw [arpLookup_eq] at hknown
  rw [arpLookup_eq, table_arpStore]
  by_cases hip : ip' = ip
  · subst hip
    rw [h.kept.lookup_store_self, if_neg fun hnone => hknown hnone.1]
    exact Option.some_ne_none _
  · rwa [h.kept.lookup_store_other _ hip]

/-- The gateway stays known. -/
theorem gatewayKnown_step {s s' : Recorded} {op : Op} (h : s.Inv) (hknown : GatewayKnown s.net)
    (hkeeps : KeepsGateway s op) (hstep : s.step op = .ok s') : GatewayKnown s'.net := by
  obtain rfl := Except.ok.inj hstep
  have hstore : ∀ ip mac, GatewayKnown (arpStore s.net ip mac) := fun ip mac => by
    rw [GatewayKnown, arpStore_gatewayIp]
    exact h.known_store ip mac hknown
  cases op with
  | init mac =>
      have hlookup := (inv_init s mac).describes.lookup_eq defaultGateway
      simp only [ledgerAfter, Bool.false_eq_true, if_false, Function.update_self] at hlookup
      exact fun hnone => Option.some_ne_none _ (hlookup.symm.trans hnone)
  | setStaticIp ip gateway mask =>
      have hlookup := (inv_setStaticIp s ip gateway mask).describes.lookup_eq (ipStrToAddr ip)
      simp only [ledgerAfter, Bool.false_eq_true, if_false, Function.update_self] at hlookup
      show arpLookup _ (ipStrToAddr gateway) ≠ none
      rw [← show ipStrToAddr ip = ipStrToAddr gateway from hkeeps]
      exact fun hnone => Option.some_ne_none _ (hlookup.symm.trans hnone)
  | addStatic ip mac => exact hstore ip mac
  | arpset argc argv1 argv2 =>
      simp only [NetStack.after, cmdArpset]
      by_cases hargc : argc < 3
      · rwa [if_pos hargc]
      · rw [if_neg hargc]
        exact hstore _ _
  | packet stack packet len =>
      simp only [NetStack.after]
      obtain ⟨hsame, hlookup⟩ := gateway_packet h stack packet len
      rw [GatewayKnown, hsame, hlookup]
      exact hknown

/-- In every reachable state with room in the cache, every address is resolved by its owner's
packet exactly if the gateway is known; and it stays known through every sequence of
operations in which no static configuration drops it. -/
theorem resolvable_iff_gatewayKnown (ops : List Op) (s : Recorded)
    (hrun : run step boot ops = .ok s) :
    (s.net.arpCacheCount < 16 → (Resolvable s.net ↔ GatewayKnown s.net)) ∧
      ∀ later, GatewayKnown s.net → Guarded step KeepsGateway s later →
        Along step (fun t => t.net.arpCacheCount < 16 → Resolvable t.net) s later := by
  have hinv : s.Inv := (along_of_invariant (fun _ _ _ => inv_step) inv_boot ops).last hrun
  refine ⟨hinv.resolvable_iff, fun later hknown hguard => ?_⟩
  have halong : Along step (fun t => t.Inv ∧ GatewayKnown t.net) s later := by
    refine along_of_guarded (fun t op t' ht hkeeps hstep => ?_) ⟨hinv, hknown⟩ hguard
    exact ⟨inv_step ht.1 hstep, gatewayKnown_step ht.1 ht.2 hkeeps hstep⟩
  exact halong.mono fun t ht hroom => (ht.1.resolvable_iff hroom).mpr ht.2

/-- The state after `net_init`: the gateway is known there. -/
def started : Recorded := ⟨NetStack.boot.after (.init fun _ => 0x52),
  ledgerAfter NetStack.boot Ledger.empty (.init fun _ => 0x52)⟩

theorem resolvable_iff_gatewayKnown_started :
    GatewayKnown started.net ∧ Resolvable started.net := by
  have hknown : GatewayKnown started.net := by unfold GatewayKnown; decide
  have hiff := (resolvable_iff_gatewayKnown [.init fun _ => 0x52] started rfl).1 (by decide)
  exact ⟨hknown, hiff.mpr hknown⟩

/-- `setip 10.0.2.15` after the start drops the gateway.  It is the next hop of a ping to
8.8.8.8, and its own packet does not resolve it. -/
theorem gateway_unresolved_after_setip :
    ∃ s, run step boot [.init fun _ => 0x52, .setStaticIp ⟨text "10.0.2.15", by decide⟩
        ⟨text "10.0.2.2", by decide⟩ ⟨text "255.255.255.0", by decide⟩] = .ok s ∧
      s.net.arpCacheCount < 16 ∧ nextHop s.net 0x08080808 = s.net.gatewayIp ∧
      senderIp (packetFrom s.net.gatewayIp) = s.net.gatewayIp ∧
      arpLookup (arpHandlePacket s.net (fun _ => 0) (packetFrom s.net.gatewayIp) 42).1.toNetState
        s.net.gatewayIp = none :=
  ⟨_, rfl, by decide, by decide, by decide, by decide⟩

end Recorded

end FalastinOS.Net
