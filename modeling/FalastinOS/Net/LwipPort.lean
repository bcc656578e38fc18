/-
  Net/LwipPort.lean --- the receive path of `lwip_port.c`.

  lwIP calls the input function of an interface through the pointer that
  `netif_add` stored in it.  The port passes its own `lwip_input_fn`, and
  `lwip_input_fn` calls the interface's input function.  A call through the
  pointer is evaluated with fuel, one unit for each call, and has no result when
  it runs out.

  `delivered_iff` says for which input functions a received frame reaches the
  stack; `received_frame_not_delivered` applies it to every interface the port
  sets up.
-/
import Mathlib.Data.UInt

set_option autoImplicit false

namespace FalastinOS.Net

/-! ## Interfaces -/

/-- The functions a `netif_input_fn` pointer may hold here. -/
inductive InputFn where
  /-- `lwip_input_fn` of the port -/
  | lwipInputFn
  /-- `netif_input` of lwIP, which picks one of the next two -/
  | netifInput
  /-- `ethernet_input` of lwIP -/
  | ethernetInput
  /-- `ip_input` of lwIP -/
  | ipInput
  deriving DecidableEq, Repr

/-- The members of `struct netif` that the receive path reads. -/
structure Netif where
  flags : UInt8
  input : InputFn

/-- `NETIF_FLAG_UP`. -/
def netifFlagUp : UInt8 := 0x01

/-- `NETIF_FLAG_BROADCAST`. -/
def netifFlagBroadcast : UInt8 := 0x02

/-- `NETIF_FLAG_LINK_UP`. -/
def netifFlagLinkUp : UInt8 := 0x04

/-- `NETIF_FLAG_ETHARP`. -/
def netifFlagEtharp : UInt8 := 0x08

/-- `NETIF_FLAG_ETHERNET`. -/
def netifFlagEthernet : UInt8 := 0x10

/-- `netif_add(netif, .., init, input)`: the flags are cleared, the input
function is stored, and the interface is handed to `init`. -/
def netifAdd (init : Netif → Netif) (input : InputFn) : Netif := init ⟨0, input⟩

/-- `netif_init_cb(netif)`. -/
def netifInitCb (n : Netif) : Netif :=
  { n with flags := netifFlagBroadcast ||| netifFlagEtharp ||| netifFlagLinkUp }

/-- `netif_set_up(netif)`. -/
def netifSetUp (n : Netif) : Netif := { n with flags := n.flags ||| netifFlagUp }

/-- The two static variables of the port. -/
structure Port where
  netif : Option Netif
  lwipReady : Bool

/-- Static storage before any code ran. -/
def bootPort : Port := ⟨none, false⟩

/-- `lwip_init_port()`, by whether its `malloc` succeeds. -/
def lwipInitPort (p : Port) (allocated : Bool) : Port :=
  if allocated then ⟨some (netifSetUp (netifAdd netifInitCb .lwipInputFn)), true⟩
  else { p with netif := none }

/-! ## Receiving -/

/-- How a call of an input function ends. -/
inductive InputEnd where
  /-- a protocol input function got the packet -/
  | handed (input : InputFn)
  /-- `ERR_IF` -/
  | errIf
  deriving DecidableEq, Repr

/-- A call of an input function on interface `inp`. -/
def callInput (ready : Bool) (inp : Netif) : Nat → InputFn → Option InputEnd
  | 0, _ => none
  | fuel + 1, .lwipInputFn => if ready then callInput ready inp fuel inp.input else some .errIf
  | fuel + 1, .netifInput =>
      if inp.flags &&& (netifFlagEtharp ||| netifFlagEthernet) ≠ 0
      then callInput ready inp fuel .ethernetInput else callInput ready inp fuel .ipInput
  | _ + 1, .ethernetInput => some (.handed .ethernetInput)
  | _ + 1, .ipInput => some (.handed .ipInput)

/-- What `rtl8139_receive_packet` gives `low_level_input`: the bytes of the frame
(none for a result that is not positive), and whether `pbuf_alloc` succeeds. -/
structure Arrival where
  frame : List UInt8
  pbuf : Bool

/-- `low_level_input(netif)`: the packet buffer's contents, or NULL. -/
def lowLevelInput (p : Port) (a : Arrival) : Option (List UInt8) :=
  if !p.lwipReady then none
  else if a.frame.length ≤ 0 then none
  else if !a.pbuf then none
  else some a.frame

/-- How `netif_poll` ends. -/
inductive PollEnd where
  /-- no packet -/
  | idle
  /-- the packet went to a protocol input function -/
  | handed (input : InputFn) (payload : List UInt8)
  /-- the packet was refused and its buffer freed -/
  | freed
  /-- the interface pointer was NULL when it was followed -/
  | nullNetif
  deriving DecidableEq, Repr

/-- `netif_poll(netif)`. -/
def netifPoll (fuel : Nat) (p : Port) (a : Arrival) : Option PollEnd :=
  match lowLevelInput p a with
  | none => some .idle
  | some payload =>
      match p.netif with
      | none => some .nullNetif
      | some inp =>
          match callInput p.lwipReady inp fuel .lwipInputFn with
          | none => none
          | some (.handed input) => some (.handed input payload)
          | some .errIf => some .freed

/-- The poll ends after finitely many calls, and a protocol input function got
the frame. -/
def Delivered (p : Port) (a : Arrival) : Prop :=
  ∃ fuel input, netifPoll fuel p a = some (.handed input a.frame)

/-! ## Results -/

/-- On an interface whose input function is the port's own, the call goes round
in circles. -/
theorem callInput_self {inp : Netif} (hinput : inp.input = .lwipInputFn) :
    ∀ fuel, callInput true inp fuel .lwipInputFn = none := by
  intro fuel
  induction fuel with
  | zero => rfl
  | succ fuel ih => simp only [callInput, if_true, hinput, ih]

/-- Every other input function hands the packet on. -/
theorem callInput_of_ne (ready : Bool) (inp : Netif) {f : InputFn} (hf : f ≠ .lwipInputFn) :
    ∃ input, callInput ready inp 2 f = some (.handed input) := by
  cases f with
  | lwipInputFn => exact absurd rfl hf
  | netifInput =>
      simp only [callInput]
      split
      · exact ⟨_, rfl⟩
      · exact ⟨_, rfl⟩
  | ethernetInput => exact ⟨_, rfl⟩
  | ipInput => exact ⟨_, rfl⟩

/-- What `low_level_input` returns. -/
theorem lowLevelInput_eq (p : Port) (a : Arrival) :
    lowLevelInput p a =
      if p.lwipReady = true ∧ a.frame ≠ [] ∧ a.pbuf = true then some a.frame else none := by
  unfold lowLevelInput
  cases p.lwipReady <;> cases a.pbuf <;> simp [List.length_eq_zero_iff]

/-- A frame is delivered exactly if the port is ready, there is a packet buffer
for the frame, and the input function of the interface is not the port's. -/
theorem delivered_iff (p : Port) (a : Arrival) :
    Delivered p a ↔ (p.lwipReady = true ∧ a.frame ≠ [] ∧ a.pbuf = true) ∧
      ∃ inp, p.netif = some inp ∧ inp.input ≠ .lwipInputFn := by
  unfold Delivered netifPoll
  rw [lowLevelInput_eq]
  by_cases harrives : p.lwipReady = true ∧ a.frame ≠ [] ∧ a.pbuf = true
  · rw [if_pos harrives]
    simp only [harrives.1, true_and, harrives.2.1, harrives.2.2, ne_eq, not_false_eq_true]
    cases hnetif : p.netif with
    | none => simp
    | some inp =>
        by_cases hself : inp.input = .lwipInputFn
        · simp [callInput_self hself, hself]
        · obtain ⟨input, hcall⟩ := callInput_of_ne true inp hself
          refine iff_of_true ⟨3, input, ?_⟩ ⟨inp, rfl, hself⟩
          simp only [callInput, if_true, hcall]
  · rw [if_neg harrives]
    simp [harrives]

/-- Whatever calls of `lwip_init_port` were made, an interface that is set up has
the port's own input function. -/
theorem input_of_lwipInitPort (outcomes : List Bool) {inp : Netif} :
    ∀ p : Port, (∀ n, p.netif = some n → n.input = .lwipInputFn) →
      (outcomes.foldl lwipInitPort p).netif = some inp → inp.input = .lwipInputFn := by
  induction outcomes with
  | nil => exact fun _ hp h => hp inp h
  | cons allocated rest ih =>
      intro p hp h
      refine ih (lwipInitPort p allocated) (fun n hn => ?_) h
      unfold lwipInitPort at hn
      split at hn
      · obtain rfl := Option.some.inj hn
        rfl
      · exact absurd hn (by simp)

/-- After `lwip_init_port`, no frame is delivered to the stack. -/
theorem received_frame_not_delivered (outcomes : List Bool) (a : Arrival) :
    ¬ Delivered (outcomes.foldl lwipInitPort bootPort) a := by
  intro hdelivered
  obtain ⟨_, inp, hnetif, hother⟩ := (delivered_iff _ a).mp hdelivered
  refine hother (input_of_lwipInitPort outcomes bootPort (fun n hn => ?_) hnetif)
  exact absurd hn (by simp [bootPort])

/-- One successful `lwip_init_port`, one frame of one byte: the poll never
returns. -/
theorem received_frame_loops :
    (∀ fuel, netifPoll fuel (lwipInitPort bootPort true) ⟨[0], true⟩ = none) ∧
      ¬ Delivered (lwipInitPort bootPort true) ⟨[0], true⟩ := by
  have hloop : ∀ fuel, netifPoll fuel (lwipInitPort bootPort true) ⟨[0], true⟩ = none := by
    intro fuel
    have hself : callInput true (netifSetUp (netifAdd netifInitCb .lwipInputFn)) fuel
        .lwipInputFn = none := callInput_self rfl fuel
    simp [netifPoll, lowLevelInput, lwipInitPort, hself]
  refine ⟨hloop, ?_⟩
  rintro ⟨fuel, input, hpoll⟩
  exact absurd ((hloop fuel).symm.trans hpoll) (by simp)

end FalastinOS.Net
