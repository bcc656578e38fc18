/-
  Drivers/AtaPorts.lean --- `ata.c` at its ports.

  `Drivers/Ata.lean` says what a transfer of a sector amounts to.  Here are the reads and
  writes of ports that `ata.c` really performs, as programs over a bus, and the drive on
  the other side of it: its task file, the block of 256 words it has for the host or
  expects from it, and a status register that may give any answers at all.

  `transfers_refine` connects the two.  Whatever the status register answers, a run of
  transfers at the ports gives the results and leaves the medium of a run of the abstract
  driver: the sector address survives the four registers it is split into, the words
  arrive in order, and a transfer that is given up leaves no trace.
-/
import FalastinOS.Drivers.Ata
import FalastinOS.Foundation.PortIo
import Mathlib.Data.List.GetD

set_option autoImplicit false

namespace FalastinOS.Drivers

open FalastinOS.Foundation

/-! ## The driver -/

section Driver

variable {σ : Type} (bus : Bus σ)

/-- `io_wait()`. -/
def ioWait : StateM σ Unit := do
  let _ ← bus.inb 0x80
  let _ ← bus.inb 0x80
  let _ ← bus.inb 0x80
  let _ ← bus.inb 0x80

/-- `ata_poll_bsy()`. -/
def ataPollBsy : StateM σ Int32 := do
  let answer ← pollFor (bus.inb 0x1F7)
    (fun status => if status &&& 0x80 = 0 then some (0 : Int32) else none) (ioWait bus) 1000000
  return answer.getD (-1)

/-- `ata_poll_drq()`. -/
def ataPollDrq : StateM σ Int32 := do
  let answer ← pollFor (bus.inb 0x1F7)
    (fun status =>
      if status &&& 0x01 ≠ 0 then some (-1 : Int32)
      else if status &&& 0x08 ≠ 0 then some 0
      else none)
    (ioWait bus) 1000000
  return answer.getD (-1)

/-- `ata_identify()`. -/
def ataIdentify : StateM σ Int32 := do
  bus.outb 0x1F6 0xA0
  ioWait bus
  bus.outb 0x1F2 0
  bus.outb 0x1F3 0
  bus.outb 0x1F4 0
  bus.outb 0x1F5 0
  bus.outb 0x1F7 0xEC
  ioWait bus
  let status ← bus.inb 0x1F7
  if status = 0 ∨ status = 0xFF then return -1
  if (← ataPollBsy bus) ≠ 0 then return -1
  let status ← bus.inb 0x1F7
  if status &&& 0x01 ≠ 0 then return -1
  if (← ataPollDrq bus) ≠ 0 then return -1
  forEach (fun _ _ => do
    let _ ← bus.inw 0x1F0) 0 256 ()
  return 0

/-- `ata_init()`: the value of `ata_present` after it. -/
def ataInit : StateM σ Bool := do
  return (← ataIdentify bus) = 0

/-- The registers both kinds of transfer set, and the command. -/
def sendCommand (lba : UInt32) (command : UInt8) : StateM σ Unit := do
  bus.outb 0x1F6 ((0xE0 : UInt8) ||| ((lba >>> 24) &&& 0x0F).toUInt8)
  ioWait bus
  bus.outb 0x1F2 1
  bus.outb 0x1F3 lba.toUInt8
  bus.outb 0x1F4 (lba >>> 8).toUInt8
  bus.outb 0x1F5 (lba >>> 16).toUInt8
  bus.outb 0x1F7 command

/-- `buf16[i]` of a buffer of bytes. -/
def wordOf (buffer : Sector) (i : Nat) : UInt16 :=
  if h : i < 256 then
    (buffer ⟨2 * i, by omega⟩).toUInt16 ||| (buffer ⟨2 * i + 1, by omega⟩).toUInt16 <<< 8
  else 0

/-- `buf16[i] = w`. -/
def putWord (buffer : Sector) (i : Nat) (w : UInt16) : Sector := fun k =>
  if k.val / 2 = i then (if k.val % 2 = 0 then w.toUInt8 else (w >>> 8).toUInt8) else buffer k

/-- `ata_read_sector(lba, buffer)`: what it returns and the buffer after it. -/
def ataReadSectorPorts (present : Bool) (lba : UInt32) (buffer : Sector) :
    StateM σ (Int32 × Sector) := do
  if !present then return (-1, buffer)
  if (← ataPollBsy bus) ≠ 0 then return (-1, buffer)
  sendCommand bus lba 0x20
  if (← ataPollDrq bus) ≠ 0 then return (-1, buffer)
  let filled ← forEach (fun i buffer => do
    let w ← bus.inw 0x1F0
    return putWord buffer i w) 0 256 buffer
  return (0, filled)

/-- `ata_write_sector(lba, buffer)`. -/
def ataWriteSectorPorts (present : Bool) (lba : UInt32) (buffer : Sector) : StateM σ Int32 := do
  if !present then return -1
  if (← ataPollBsy bus) ≠ 0 then return -1
  sendCommand bus lba 0x30
  if (← ataPollDrq bus) ≠ 0 then return -1
  forEach (fun i _ => bus.outw 0x1F0 (wordOf buffer i)) 0 256 ()
  bus.outb 0x1F7 0xE7
  let _ ← ataPollBsy bus
  return 0

end Driver

/-! ## The drive -/

/-- What the drive does on its data port. -/
inductive Phase where
  | idle
  /-- it has a block for the host and gives word `next` of it -/
  | dataIn (words : Nat → UInt16) (next : Nat)
  /-- it takes word `next` of a block for the medium -/
  | dataOut (lba : Nat) (words : Nat → UInt16) (next : Nat)

/-- A drive with a programmed-I/O interface. -/
structure Drive where
  sectors : Nat → Sector
  /-- the block it answers IDENTIFY with -/
  identity : Nat → UInt16
  /-- the answers of its status register, by reading -/
  status : Nat → UInt8
  statusReads : Nat
  count : UInt8
  lbaLow : UInt8
  lbaMid : UInt8
  lbaHigh : UInt8
  device : UInt8
  phase : Phase

namespace Drive

/-- The block number in the task file. -/
def lba (d : Drive) : Nat :=
  d.lbaLow.toNat + 2 ^ 8 * d.lbaMid.toNat + 2 ^ 16 * d.lbaHigh.toNat +
    2 ^ 24 * (d.device.toNat % 16)

/-- A block of words as bytes. -/
def sectorOf (words : Nat → UInt16) : Sector := fun k =>
  if k.val % 2 = 0 then (words (k.val / 2)).toUInt8 else (words (k.val / 2) >>> 8).toUInt8

/-- A write to the command register.  Transfers are of one sector, addressed by block
number, on drive 0; any other ends where it began. -/
def execute (d : Drive) (command : UInt8) : Drive :=
  { d with phase :=
      if command = 0xEC then .dataIn d.identity 0
      else if d.count ≠ 1 ∨ d.device &&& 0x50 ≠ 0x40 then .idle
      else if command = 0x20 then .dataIn (wordOf (d.sectors d.lba)) 0
      else if command = 0x30 then .dataOut d.lba (fun _ => 0) 0
      else .idle }

/-- A read of the data port. -/
def give (d : Drive) : UInt16 × Drive :=
  match d.phase with
  | .dataIn words next =>
      (words next, { d with phase := if next + 1 = 256 then .idle else .dataIn words (next + 1) })
  | _ => (0xFFFF, d)

/-- A write to the data port.  The last word of a block sends it to the medium. -/
def take (d : Drive) (w : UInt16) : Drive :=
  match d.phase with
  | .dataOut lba words next =>
      let words := Function.update words next w
      if next + 1 = 256 then
        { d with sectors := Function.update d.sectors lba (sectorOf words), phase := .idle }
      else { d with phase := .dataOut lba words (next + 1) }
  | _ => d

/-- The ports of the drive.  Nothing answers at the others. -/
def bus : Bus Drive where
  inb port := fun d =>
    if port = 0x1F7 then (d.status d.statusReads, { d with statusReads := d.statusReads + 1 })
    else (0xFF, d)
  outb port v := fun d => ((),
    if port = 0x1F2 then { d with count := v }
    else if port = 0x1F3 then { d with lbaLow := v }
    else if port = 0x1F4 then { d with lbaMid := v }
    else if port = 0x1F5 then { d with lbaHigh := v }
    else if port = 0x1F6 then { d with device := v }
    else if port = 0x1F7 then d.execute v
    else d)
  inw port := fun d => if port = 0x1F0 then d.give else (0xFFFF, d)
  outw port w := fun d => ((), if port = 0x1F0 then d.take w else d)
  inl _ := fun d => (0xFFFFFFFF, d)
  outl _ _ := fun d => ((), d)

/-! ## What one transfer does -/

/-- The drive answers every poll at once: it is not busy, has no error and wants data. -/
def Ready (d : Drive) : Prop := ∀ k, d.status k &&& 0x89 = 0x08

/-- Only the count of status readings can differ. -/
def Polled (d₀ d : Drive) : Prop := ∃ n, d = { d₀ with statusReads := n }

theorem Polled.refl (d : Drive) : Polled d d := ⟨d.statusReads, rfl⟩

variable {d₀ : Drive}

theorem ensures_status (d₀ : Drive) :
    Ensures (Polled d₀) (bus.inb 0x1F7) fun v d => Polled d₀ d ∧ ∃ k, v = d₀.status k := by
  rintro d ⟨n, rfl⟩
  exact ⟨⟨n + 1, rfl⟩, n, rfl⟩

theorem ensures_ioWait (P : Drive → Prop) : Ensures P (ioWait bus) fun _ => P := fun _ h => h

/-- A ready drive's status, bit by bit. -/
theorem Ready.bits (h : d₀.Ready) (k : Nat) :
    d₀.status k &&& 0x80 = 0 ∧ d₀.status k &&& 0x01 = 0 ∧ d₀.status k &&& 0x08 ≠ 0 := by
  have hbits : ∀ v : UInt8, v &&& 0x89 = 0x08 → v &&& 0x80 = 0 ∧ v &&& 0x01 = 0 ∧ v &&& 0x08 ≠ 0 :=
    forall_byte (by decide +kernel)
  exact hbits _ (h k)

/-- A poll of the status register ends with an answer to one of its readings, and leaves the
rest of the drive alone. -/
theorem ensures_poll (d₀ : Drive) (stop : UInt8 → Option Int32) (n : Nat) :
    Ensures (Polled d₀) (pollFor (bus.inb 0x1F7) stop (ioWait bus) n) fun r d =>
      Polled d₀ d ∧ ∀ b, r = some b → ∃ status, stop status = some b := by
  refine ensures_pollFor (Q := fun b _ => ∃ status, stop status = some b) ?_ (ensures_ioWait _) n
  exact (ensures_status d₀).mono (fun _ h => h) fun v d h => ⟨h.1, fun b hb => ⟨v, hb⟩⟩

/-- A poll that every answer of the drive ends with `b`. -/
theorem ensures_poll_of_status (d₀ : Drive) {stop : UInt8 → Option Int32} {b : Int32}
    (h : ∀ k, stop (d₀.status k) = some b) (n : Nat) :
    Ensures (Polled d₀) (pollFor (bus.inb 0x1F7) stop (ioWait bus) (n + 1)) fun r _ =>
      r = some b := by
  refine (ensures_pollFor_answered (Q := fun b' _ => b' = b) _ ?_ n).mono (fun _ h => h) ?_
  · refine (ensures_status d₀).mono (fun _ h => h) fun v d ⟨_, k, hk⟩ => ⟨b, ?_, rfl⟩
    rw [hk, h]
  · rintro r d ⟨b', rfl, rfl⟩
    rfl

/-- What a poll of the driver returns. -/
def PollResult (d₀ : Drive) (r : Int32) (d : Drive) : Prop :=
  Polled d₀ d ∧ (r = 0 ∨ r = -1) ∧ (d₀.Ready → r = 0)

theorem ensures_ataPollBsy (d₀ : Drive) :
    Ensures (Polled d₀) (ataPollBsy bus) (PollResult d₀) := by
  unfold ataPollBsy
  refine ensures_bind ((ensures_poll d₀ _ _).and (R := fun r _ => d₀.Ready → r = some 0) ?_) ?_
  · intro d hd hready
    exact ensures_poll_of_status d₀ (fun k => if_pos (hready.bits k).1) 999999 d hd
  · refine fun answer => ensures_pure fun d ⟨⟨hd, hanswer⟩, hready⟩ => ⟨hd, ?_, fun h => ?_⟩
    · cases answer with
      | none => exact .inr rfl
      | some r =>
          obtain ⟨status, hstatus⟩ := hanswer r rfl
          split at hstatus
          · exact .inl (Option.some.inj hstatus).symm
          · exact absurd hstatus.symm (Option.some_ne_none r)
    · rw [hready h]
      rfl

theorem ensures_ataPollDrq (d₀ : Drive) :
    Ensures (Polled d₀) (ataPollDrq bus) (PollResult d₀) := by
  unfold ataPollDrq
  refine ensures_bind ((ensures_poll d₀ _ _).and (R := fun r _ => d₀.Ready → r = some 0) ?_) ?_
  · intro d hd hready
    refine ensures_poll_of_status d₀ (fun k => ?_) 999999 d hd
    obtain ⟨-, herr, hdrq⟩ := hready.bits k
    rw [if_neg (not_not_intro herr), if_pos hdrq]
  · refine fun answer => ensures_pure fun d ⟨⟨hd, hanswer⟩, hready⟩ => ⟨hd, ?_, fun h => ?_⟩
    · cases answer with
      | none => exact .inr rfl
      | some r =>
          obtain ⟨status, hstatus⟩ := hanswer r rfl
          split at hstatus
          · exact .inr (Option.some.inj hstatus).symm
          · split at hstatus
            · exact .inl (Option.some.inj hstatus).symm
            · exact absurd hstatus.symm (Option.some_ne_none r)
    · rw [hready h]
      rfl

attribute [irreducible] ataPollBsy ataPollDrq

/-! ### The task file -/

/-- The low four bits of the device register. -/
theorem toNat_nibble (lba : UInt32) :
    ((lba >>> 24) &&& 0x0F).toUInt8.toNat = lba.toNat / 2 ^ 24 % 16 := by
  have hmask : ((lba >>> 24) &&& 0x0F).toNat = lba.toNat / 2 ^ 24 % 2 ^ 4 := by
    rw [UInt32.toNat_and, UInt32.toNat_shiftRight, ← Nat.and_two_pow_sub_one_eq_mod,
      ← Nat.shiftRight_eq_div_pow]
    rfl
  rw [UInt32.toNat_toUInt8, hmask]
  exact Nat.mod_eq_of_lt (by omega)

/-- The device register selects addressing by block number on drive 0, and carries the
nibble. -/
theorem device_register (lba : UInt32) :
    ((0xE0 : UInt8) ||| ((lba >>> 24) &&& 0x0F).toUInt8).toNat % 16 = lba.toNat / 2 ^ 24 % 16 ∧
      ((0xE0 : UInt8) ||| ((lba >>> 24) &&& 0x0F).toUInt8) &&& 0x50 = 0x40 := by
  have hbits : ∀ v : UInt8, v.toNat < 16 →
      ((0xE0 : UInt8) ||| v).toNat % 16 = v.toNat ∧ ((0xE0 : UInt8) ||| v) &&& 0x50 = 0x40 :=
    forall_byte (by decide +kernel)
  have hnibble := toNat_nibble lba
  obtain ⟨hlow, hhigh⟩ := hbits _ (show ((lba >>> 24) &&& 0x0F).toUInt8.toNat < 16 by omega)
  exact ⟨hlow.trans hnibble, hhigh⟩

/-- The drive with a command in its task file: one sector, at the given block number. -/
def addressed (d : Drive) (lba : UInt32) : Drive :=
  { d with
    count := 1
    lbaLow := lba.toUInt8
    lbaMid := (lba >>> 8).toUInt8
    lbaHigh := (lba >>> 16).toUInt8
    device := (0xE0 : UInt8) ||| ((lba >>> 24) &&& 0x0F).toUInt8 }

/-- The task file carries the low 28 bits of the block number. -/
theorem lba_addressed (d : Drive) (lba : UInt32) :
    (d.addressed lba).lba = Ata.lba28 lba.toNat := by
  have hmid : (lba >>> 8).toUInt8.toNat = lba.toNat / 2 ^ 8 % 2 ^ 8 := by
    rw [UInt32.toNat_toUInt8, UInt32.toNat_shiftRight, Nat.shiftRight_eq_div_pow]
    rfl
  have hhigh : (lba >>> 16).toUInt8.toNat = lba.toNat / 2 ^ 16 % 2 ^ 8 := by
    rw [UInt32.toNat_toUInt8, UInt32.toNat_shiftRight, Nat.shiftRight_eq_div_pow]
    rfl
  simp only [Drive.lba, addressed]
  rw [(device_register lba).1, hmid, hhigh, UInt32.toNat_toUInt8, Ata.lba28]
  omega

theorem execute_read (d : Drive) (lba : UInt32) :
    (d.addressed lba).execute 0x20 =
      { d.addressed lba with
        phase := .dataIn (wordOf (d.sectors (Ata.lba28 lba.toNat))) 0 } := by
  have hdevice : ¬ ((d.addressed lba).count ≠ 1 ∨ (d.addressed lba).device &&& 0x50 ≠ 0x40) := by
    rintro (h | h)
    · exact h rfl
    · exact h (device_register lba).2
  rw [execute, if_neg (by decide), if_neg hdevice, if_pos rfl, lba_addressed]
  rfl

theorem execute_write (d : Drive) (lba : UInt32) :
    (d.addressed lba).execute 0x30 =
      { d.addressed lba with phase := .dataOut (Ata.lba28 lba.toNat) (fun _ => 0) 0 } := by
  have hdevice : ¬ ((d.addressed lba).count ≠ 1 ∨ (d.addressed lba).device &&& 0x50 ≠ 0x40) := by
    rintro (h | h)
    · exact h rfl
    · exact h (device_register lba).2
  rw [execute, if_neg (by decide), if_neg hdevice, if_neg (by decide), if_pos rfl, lba_addressed]

/-! ### The data port -/

/-- Two bytes as one word. -/
theorem toNat_joined (low high : UInt8) :
    (low.toUInt16 ||| high.toUInt16 <<< 8).toNat = 2 ^ 8 * high.toNat + low.toNat := by
  have hlow := low.toNat_lt
  have hhigh := high.toNat_lt
  have hshift : (high.toUInt16 <<< 8).toNat = 2 ^ 8 * high.toNat := by
    rw [UInt16.toNat_shiftLeft, UInt8.toNat_toUInt16, Nat.shiftLeft_eq, Nat.mul_comm]
    exact Nat.mod_eq_of_lt (show 2 ^ 8 * high.toNat < 2 ^ 16 by omega)
  rw [UInt16.toNat_or, hshift, UInt8.toNat_toUInt16, Nat.or_comm,
    ← Nat.two_pow_add_eq_or_of_lt hlow]

theorem joined_low (low high : UInt8) :
    (low.toUInt16 ||| high.toUInt16 <<< 8).toUInt8 = low := by
  have hlow := low.toNat_lt
  rw [← UInt8.toNat_inj, UInt16.toNat_toUInt8, toNat_joined]
  omega

theorem joined_high (low high : UInt8) :
    ((low.toUInt16 ||| high.toUInt16 <<< 8) >>> 8).toUInt8 = high := by
  have hlow := low.toNat_lt
  have hhigh := high.toNat_lt
  have hshift : ((low.toUInt16 ||| high.toUInt16 <<< 8) >>> 8).toNat = high.toNat := by
    rw [UInt16.toNat_shiftRight, toNat_joined, Nat.shiftRight_eq_div_pow]
    show (2 ^ 8 * high.toNat + low.toNat) / 2 ^ 8 = high.toNat
    omega
  rw [← UInt8.toNat_inj, UInt16.toNat_toUInt8, hshift]
  exact Nat.mod_eq_of_lt hhigh

/-- The words of a buffer hold its bytes. -/
theorem wordOf_byte (s : Sector) (k : Fin 512) :
    (if k.val % 2 = 0 then (wordOf s (k.val / 2)).toUInt8
      else (wordOf s (k.val / 2) >>> 8).toUInt8) = s k := by
  have hk : k.val < 512 := k.isLt
  rw [wordOf, dif_pos (by omega)]
  split
  next heven =>
      rw [joined_low]
      exact congrArg s (Fin.ext (show 2 * (k.val / 2) = k.val by omega))
  next hodd =>
      rw [joined_high]
      exact congrArg s (Fin.ext (show 2 * (k.val / 2) + 1 = k.val by omega))

/-- A block whose words are those of a buffer is the buffer. -/
theorem sectorOf_eq {words : Nat → UInt16} {s : Sector} (h : ∀ i, i < 256 → words i = wordOf s i) :
    sectorOf words = s := by
  funext k
  have hk : k.val < 512 := k.isLt
  rw [sectorOf, h _ (by omega)]
  exact wordOf_byte s k

/-- The block that was asked for is read while `i` words are in the buffer. -/
structure Reading (d₀ : Drive) (s : Sector) (i : Nat) (buffer : Sector) (d : Drive) : Prop where
  sectors : d.sectors = d₀.sectors
  status : d.status = d₀.status
  phase : i < 256 → d.phase = .dataIn (wordOf s) i
  filled : ∀ k : Fin 512, k.val / 2 < i → buffer k = s k

theorem reading_step {s buffer : Sector} {i : Nat} {d : Drive} (hi : i < 256)
    (h : Reading d₀ s i buffer d) : Reading d₀ s (i + 1) (putWord buffer i d.give.1) d.give.2 := by
  have hgive : d.give = (wordOf s i,
      { d with phase := if i + 1 = 256 then .idle else .dataIn (wordOf s) (i + 1) }) := by
    simp only [give, h.phase hi]
  rw [hgive]
  refine ⟨h.sectors, h.status, fun hnext => if_neg (by omega), fun k hk => ?_⟩
  rw [putWord]
  split
  next hhere =>
      rw [← hhere]
      exact wordOf_byte s k
  next hother => exact h.filled k (by omega)

theorem ensures_readData (d₀ : Drive) (s buffer : Sector) :
    Ensures (Reading d₀ s 0 buffer)
      (forEach (fun i buffer => do
        let w ← bus.inw 0x1F0
        return putWord buffer i w) 0 256 buffer) (Reading d₀ s 256) := by
  refine ensures_forEach (I := Reading d₀ s) (fun i buffer hi d h => ?_) 256 0 buffer rfl
  exact reading_step hi h

/-- The block is written while the drive has `i` words of it. -/
structure Writing (d₀ : Drive) (lba : Nat) (s : Sector) (i : Nat) (d : Drive) : Prop where
  status : d.status = d₀.status
  phase : i < 256 → d.sectors = d₀.sectors ∧
    ∃ words, d.phase = .dataOut lba words i ∧ ∀ j, j < i → words j = wordOf s j
  stored : i = 256 → d.sectors = Function.update d₀.sectors lba s

theorem writing_step {lba : Nat} {s : Sector} {i : Nat} {d : Drive} (hi : i < 256)
    (h : Writing d₀ lba s i d) : Writing d₀ lba s (i + 1) (d.take (wordOf s i)) := by
  obtain ⟨hsectors, words, hphase, hwords⟩ := h.phase hi
  have hfilled : ∀ j, j < i + 1 → Function.update words i (wordOf s i) j = wordOf s j := by
    intro j hj
    by_cases hji : j = i
    · rw [hji, Function.update_self]
    · rw [Function.update_of_ne hji]
      exact hwords j (by omega)
  by_cases hlast : i + 1 = 256
  · have htake : d.take (wordOf s i) = { d with
        sectors := Function.update d.sectors lba (sectorOf (Function.update words i (wordOf s i)))
        phase := .idle } := by
      simp only [take, hphase, if_pos hlast]
    rw [htake, hsectors, sectorOf_eq fun j hj => hfilled j (by omega)]
    exact ⟨h.status, fun hnext => absurd hnext (by omega), fun _ => rfl⟩
  · have htake : d.take (wordOf s i) =
        { d with phase := .dataOut lba (Function.update words i (wordOf s i)) (i + 1) } := by
      simp only [take, hphase, if_neg hlast]
    rw [htake]
    exact ⟨h.status, fun _ => ⟨hsectors, _, rfl, hfilled⟩, fun hlast' => absurd hlast' hlast⟩

theorem ensures_writeData (d₀ : Drive) (lba : Nat) (s : Sector) :
    Ensures (Writing d₀ lba s 0)
      (forEach (fun i _ => bus.outw 0x1F0 (wordOf s i)) 0 256 ())
      fun _ => Writing d₀ lba s 256 := by
  refine ensures_forEach (I := fun i _ => Writing d₀ lba s i) (fun i _ hi d h => ?_) 256 0 () rfl
  exact writing_step hi h

/-! ## Transfers -/

/-- The drive when the first poll of a transfer is over and a command is given. -/
def Commanded (d₀ : Drive) (lba : UInt32) (command : UInt8) (d : Drive) : Prop :=
  ∃ n, Polled (({ d₀ with statusReads := n }.addressed lba).execute command) d

/-- The polls that a transfer begins with: it gives up at the first that fails. -/
theorem ensures_transfer {α : Type} (d₀ : Drive) (lba : UInt32) (command : UInt8)
    {giveUp : α} {block : StateM Drive α} {Q : α → Drive → Prop}
    (hgiveUp : ∀ d : Drive, d.sectors = d₀.sectors → d.status = d₀.status → ¬ d₀.Ready →
      Q giveUp d)
    (hblock : Ensures (Commanded d₀ lba command) block Q) :
    Ensures (Polled d₀) (do
      if (← ataPollBsy bus) ≠ 0 then return giveUp
      sendCommand bus lba command
      if (← ataPollDrq bus) ≠ 0 then return giveUp
      block) Q := by
  refine ensures_bind (ensures_ataPollBsy d₀) fun bsy => ensures_ite (fun hbsy => ?_) fun hbsy => ?_
  · rintro d ⟨⟨n, rfl⟩, -, hready⟩
    exact hgiveUp _ rfl rfl fun h => hbsy (hready h)
  have hsend : Ensures (PollResult d₀ bsy) (sendCommand bus lba command) fun _ =>
      Commanded d₀ lba command := by
    rintro d ⟨⟨n, rfl⟩, -⟩
    exact ⟨n, Polled.refl _⟩
  refine ensures_bind hsend fun _ => ensures_exists fun n => ?_
  refine ensures_bind (ensures_ataPollDrq _) fun drq => ensures_ite (fun hdrq => ?_) fun hdrq => ?_
  · rintro d ⟨⟨m, rfl⟩, -, hready⟩
    exact hgiveUp _ rfl rfl fun h => hdrq (hready h)
  · exact hblock.mono (fun d hd => ⟨n, hd.1⟩) fun _ _ h => h

/-- Reading a sector: the whole block, or nothing. -/
theorem ensures_ataReadSectorPorts (d₀ : Drive) (lba : UInt32) (buffer : Sector) :
    Ensures (Polled d₀) (ataReadSectorPorts bus true lba buffer) fun r d =>
      d.sectors = d₀.sectors ∧ d.status = d₀.status ∧
        (r = (0, d₀.sectors (Ata.lba28 lba.toNat)) ∨ r = (-1, buffer) ∧ ¬ d₀.Ready) := by
  unfold ataReadSectorPorts
  refine ensures_ite (fun h => absurd h (by decide)) fun _ => ?_
  refine ensures_transfer d₀ lba 0x20 ?_ ?_
  · exact fun d hsectors hstatus hready => ⟨hsectors, hstatus, .inr ⟨rfl, hready⟩⟩
  · have hstart : ∀ d, Commanded d₀ lba 0x20 d →
        Reading d₀ (d₀.sectors (Ata.lba28 lba.toNat)) 0 buffer d := by
      rintro d ⟨n, m, rfl⟩
      rw [execute_read]
      exact ⟨rfl, rfl, fun _ => rfl, fun k hk => absurd hk (Nat.not_lt_zero _)⟩
    refine ensures_bind ((ensures_readData d₀ _ buffer).mono hstart fun _ _ h => h) fun filled =>
      ensures_pure fun d h => ⟨h.sectors, h.status, .inl ?_⟩
    have hfilled : filled = d₀.sectors (Ata.lba28 lba.toNat) :=
      funext fun k => h.filled k (by omega)
    rw [hfilled]

/-- Writing a sector: the whole block, or nothing. -/
theorem ensures_ataWriteSectorPorts (d₀ : Drive) (lba : UInt32) (buffer : Sector) :
    Ensures (Polled d₀) (ataWriteSectorPorts bus true lba buffer) fun r d =>
      d.status = d₀.status ∧
        (r = 0 ∧ d.sectors = Function.update d₀.sectors (Ata.lba28 lba.toNat) buffer ∨
          r = -1 ∧ d.sectors = d₀.sectors ∧ ¬ d₀.Ready) := by
  unfold ataWriteSectorPorts
  refine ensures_ite (fun h => absurd h (by decide)) fun _ => ?_
  refine ensures_transfer d₀ lba 0x30 ?_ ?_
  · exact fun d hsectors hstatus hready => ⟨hstatus, .inr ⟨rfl, hsectors, hready⟩⟩
  · have hstart : ∀ d, Commanded d₀ lba 0x30 d →
        Writing d₀ (Ata.lba28 lba.toNat) buffer 0 d := by
      rintro d ⟨n, m, rfl⟩
      rw [execute_write]
      exact ⟨rfl, fun _ => ⟨rfl, _, rfl, fun j hj => absurd hj (Nat.not_lt_zero j)⟩,
        fun h => absurd h (by decide)⟩
    refine ensures_bind ((ensures_writeData d₀ _ buffer).mono hstart fun _ _ h => h) fun _ => ?_
    have hflush : Ensures (Writing d₀ (Ata.lba28 lba.toNat) buffer 256) (bus.outb 0x1F7 0xE7)
        fun _ d => ∃ d₁ : Drive, Polled d₁ d ∧ d₁.status = d₀.status ∧
          d₁.sectors = Function.update d₀.sectors (Ata.lba28 lba.toNat) buffer :=
      fun d h => ⟨d.execute 0xE7, Polled.refl _, h.status, h.stored rfl⟩
    refine ensures_bind hflush fun _ => ensures_exists fun d₁ => ensures_fact fun hkept => ?_
    refine ensures_bind (ensures_ataPollBsy d₁) fun _ => ensures_pure ?_
    rintro d ⟨⟨n, rfl⟩, -⟩
    exact ⟨hkept.1, .inl ⟨rfl, hkept.2⟩⟩

/-! ### Detection -/

/-- The medium and the answers of the status register are the same. -/
def Same (d₀ d : Drive) : Prop := d.sectors = d₀.sectors ∧ d.status = d₀.status

theorem ensures_same_bsy (d₀ : Drive) :
    Ensures (Same d₀) (ataPollBsy bus) fun r d => Same d₀ d ∧ (d₀.Ready → r = 0) := by
  rintro d ⟨hsectors, hstatus⟩
  obtain ⟨⟨n, hn⟩, -, hready⟩ := ensures_ataPollBsy d d (Polled.refl d)
  refine ⟨?_, fun h => hready fun k => hstatus ▸ h k⟩
  rw [hn]
  exact ⟨hsectors, hstatus⟩

theorem ensures_same_drq (d₀ : Drive) :
    Ensures (Same d₀) (ataPollDrq bus) fun r d => Same d₀ d ∧ (d₀.Ready → r = 0) := by
  rintro d ⟨hsectors, hstatus⟩
  obtain ⟨⟨n, hn⟩, -, hready⟩ := ensures_ataPollDrq d d (Polled.refl d)
  refine ⟨?_, fun h => hready fun k => hstatus ▸ h k⟩
  rw [hn]
  exact ⟨hsectors, hstatus⟩

theorem ensures_same_outb (d₀ : Drive) (port : UInt16) (v : UInt8) :
    Ensures (Same d₀) (bus.outb port v) fun _ => Same d₀ := by
  intro d h
  show Same d₀ (if port = 0x1F2 then _ else _)
  repeat' split
  all_goals exact h

theorem ensures_same_status (d₀ : Drive) :
    Ensures (Same d₀) (bus.inb 0x1F7) fun v d => Same d₀ d ∧ ∃ k, v = d₀.status k :=
  fun d h => ⟨h, d.statusReads, congrFun h.2 _⟩

theorem ensures_same_inw (d₀ : Drive) :
    Ensures (Same d₀) (bus.inw 0x1F0) fun _ => Same d₀ := by
  intro d h
  show Same d₀ d.give.2
  unfold give
  split <;> exact h

/-- A ready drive's status is not one by which detection gives up. -/
theorem Ready.detected (h : d₀.Ready) (k : Nat) : ¬ (d₀.status k = 0 ∨ d₀.status k = 0xFF) := by
  have hvalue := h k
  rintro (h0 | hff)
  · rw [h0] at hvalue
    exact absurd hvalue (by decide)
  · rw [hff] at hvalue
    exact absurd hvalue (by decide)

/-- Detecting the drive leaves the medium as it is and finds a ready drive. -/
theorem ensures_ataIdentify (d₀ : Drive) :
    Ensures (Same d₀) (ataIdentify bus) fun r d => Same d₀ d ∧ (d₀.Ready → r = 0) := by
  have hgiveUp : ∀ {φ : Prop}, (φ → ¬ d₀.Ready) → Ensures (fun d => Same d₀ d ∧ φ)
      (pure (-1 : Int32)) fun r d => Same d₀ d ∧ (d₀.Ready → r = 0) :=
    fun hφ d h => ⟨h.1, fun hready => absurd hready (hφ h.2)⟩
  unfold ataIdentify
  refine ensures_bind (ensures_same_outb d₀ _ _) fun _ => ?_
  refine ensures_bind (ensures_ioWait _) fun _ => ?_
  refine ensures_bind (ensures_same_outb d₀ _ _) fun _ => ?_
  refine ensures_bind (ensures_same_outb d₀ _ _) fun _ => ?_
  refine ensures_bind (ensures_same_outb d₀ _ _) fun _ => ?_
  refine ensures_bind (ensures_same_outb d₀ _ _) fun _ => ?_
  refine ensures_bind (ensures_same_outb d₀ _ _) fun _ => ?_
  refine ensures_bind (ensures_ioWait _) fun _ => ?_
  refine ensures_bind (ensures_same_status d₀) fun status =>
    ensures_ite (fun hgone => ?_) fun _ => ?_
  · exact hgiveUp fun ⟨k, hk⟩ hready => hready.detected k (hk ▸ hgone)
  refine ensures_fact fun _ => ensures_bind (ensures_same_bsy d₀) fun bsy =>
    ensures_ite (fun hbsy => ?_) fun _ => ?_
  · exact hgiveUp fun hzero hready => hbsy (hzero hready)
  refine ensures_fact fun _ => ensures_bind (ensures_same_status d₀) fun status =>
    ensures_ite (fun herror => ?_) fun _ => ?_
  · exact hgiveUp fun ⟨k, hk⟩ hready => herror (hk ▸ (hready.bits k).2.1)
  refine ensures_fact fun _ => ensures_bind (ensures_same_drq d₀) fun drq =>
    ensures_ite (fun hdrq => ?_) fun _ => ?_
  · exact hgiveUp fun hzero hready => hdrq (hzero hready)
  have hblock : Ensures (Same d₀) (forEach (fun _ _ => do
      let _ ← bus.inw 0x1F0) 0 256 ()) fun _ => Same d₀ := by
    refine ensures_forEach (I := fun _ _ => Same d₀) (fun _ _ _ => ?_) 256 0 () rfl
    exact ensures_bind (ensures_same_inw d₀) fun _ => ensures_pure fun _ h => h
  exact ensures_fact fun _ => ensures_bind hblock fun _ => ensures_pure fun _ h => ⟨h, fun _ => rfl⟩

theorem ensures_ataInit (d₀ : Drive) : Ensures (Same d₀) (ataInit bus) fun present d =>
    Same d₀ d ∧ (d₀.Ready → present = true) :=
  ensures_bind (ensures_ataIdentify d₀) fun _ => ensures_pure fun _ h =>
    ⟨h.1, fun hready => decide_eq_true (h.2 hready)⟩

end Drive

/-! ## Runs of transfers -/

/-- A call of one of the two functions. -/
inductive Transfer where
  | read (lba : UInt32) (buffer : Sector)
  | write (lba : UInt32) (buffer : Sector)

/-- A transfer at the ports: what it returns and the buffer after it. -/
def Transfer.ports {σ : Type} (bus : Bus σ) (present : Bool) : Transfer → StateM σ (Int32 × Sector)
  | .read lba buffer => ataReadSectorPorts bus present lba buffer
  | .write lba buffer => do return (← ataWriteSectorPorts bus present lba buffer, buffer)

/-- The same transfer as `Drivers/Ata.lean` has it. -/
def Transfer.exec (d : Ata) : Transfer → (Int32 × Sector) × Ata
  | .read lba buffer =>
      let r := ataReadSector d lba.toNat buffer
      ((r.ret, r.buffer), r.ata)
  | .write lba buffer =>
      let r := ataWriteSector d lba.toNat buffer
      ((r.ret, buffer), r.ata)

/-- Transfers one after another. -/
def transferPorts {σ : Type} (bus : Bus σ) (present : Bool) :
    List Transfer → StateM σ (List (Int32 × Sector))
  | [] => return []
  | t :: rest => do
      let reply ← t.ports bus present
      return reply :: (← transferPorts bus present rest)

/-- The same run as `Drivers/Ata.lean` has it. -/
def transferExec : Ata → List Transfer → List (Int32 × Sector) × Ata
  | d, [] => ([], d)
  | d, t :: rest =>
      let (reply, d) := t.exec d
      let (replies, d) := transferExec d rest
      (reply :: replies, d)

/-- `ata_init` and a run of transfers. -/
def bootAndTransfer {σ : Type} (bus : Bus σ) (ts : List Transfer) :
    StateM σ (List (Int32 × Sector)) := do
  let present ← ataInit bus
  transferPorts bus present ts

/-- A drive of `Drivers/Ata.lean` on which the listed transfers are given up. -/
def abstractDrive (present : Bool) (sectors : Nat → Sector) (givenUp : List Bool) : Ata where
  present := present
  sectors := sectors
  bsyTimeout := fun k => givenUp.getD k false
  drqError := fun _ => false
  transfers := 0

theorem working_abstractDrive {sectors : Nat → Sector} {givenUp : List Bool}
    (h : ∀ b ∈ givenUp, b = false) : (abstractDrive true sectors givenUp).Working := by
  refine ⟨rfl, fun k => ?_, fun _ => rfl⟩
  show givenUp.getD k false = false
  by_cases hk : k < givenUp.length
  · rw [List.getD_eq_getElem _ _ hk]
    exact h _ (List.getElem_mem hk)
  · exact List.getD_eq_default _ _ (Nat.not_lt.mp hk)

/-- The abstract drive gives up its next transfers as listed. -/
structure GivesUp (a : Ata) (givenUp : List Bool) : Prop where
  bsy : ∀ k, a.bsyTimeout (a.transfers + k) = givenUp.getD k false
  drq : ∀ k, a.drqError k = false

theorem GivesUp.tail {a : Ata} {b : Bool} {rest : List Bool} (h : GivesUp a (b :: rest))
    {a' : Ata} (hbsy : a'.bsyTimeout = a.bsyTimeout) (hdrq : a'.drqError = a.drqError)
    (htransfers : a'.transfers = a.transfers + 1) : GivesUp a' rest := by
  refine ⟨fun k => ?_, fun k => hdrq ▸ h.drq k⟩
  have hnext := h.bsy (k + 1)
  rw [hbsy, htransfers, show a.transfers + 1 + k = a.transfers + (k + 1) by omega, hnext]
  rfl

/-- A transfer on a present drive is given up as a whole or done as a whole. -/
theorem exec_cases {a : Ata} {b : Bool} {rest : List Bool} (hpresent : a.present = true)
    (h : GivesUp a (b :: rest)) (t : Transfer) :
    t.exec a = if b then
        match t with
        | .read _ buffer => ((-1, buffer), a.next)
        | .write _ buffer => ((-1, buffer), a.next)
      else
        match t with
        | .read lba _ => ((0, a.sectors (Ata.lba28 lba.toNat)), a.next)
        | .write lba buffer => ((0, buffer), a.store (Ata.lba28 lba.toNat) buffer) := by
  have hbsy : a.bsyTimeout a.transfers = b := h.bsy 0
  have hdrq := h.drq a.transfers
  cases b <;> cases t <;> simp [Transfer.exec, ataReadSector, ataWriteSector, hpresent, hbsy, hdrq]

/-- The two levels of a drive between transfers. -/
structure Refines (present : Bool) (d : Drive) (a : Ata) : Prop where
  present : a.present = present
  sectors : a.sectors = d.sectors

/-- One transfer on a drive that is present. -/
theorem transfer_refines (d : Drive) (t : Transfer) :
    ∃ b : Bool, (d.Ready → b = false) ∧
      ((t.ports Drive.bus true).run d).2.status = d.status ∧
      ∀ (a : Ata) (rest : List Bool), Refines true d a → GivesUp a (b :: rest) →
        ((t.ports Drive.bus true).run d).1 = (t.exec a).1 ∧
          Refines true ((t.ports Drive.bus true).run d).2 (t.exec a).2 ∧
          GivesUp (t.exec a).2 rest := by
  cases t with
  | read lba buffer =>
      obtain ⟨hsectors, hstatus, hdone | ⟨hfailed, hready⟩⟩ :=
        Drive.ensures_ataReadSectorPorts d lba buffer d (Drive.Polled.refl d)
      · refine ⟨false, fun _ => rfl, hstatus, fun a rest h hgives => ?_⟩
        rw [exec_cases h.present hgives]
        refine ⟨hdone.trans (by rw [← h.sectors]; rfl), ⟨h.present, ?_⟩, hgives.tail rfl rfl rfl⟩
        exact h.sectors.trans hsectors.symm
      · refine ⟨true, fun h => absurd h hready, hstatus, fun a rest h hgives => ?_⟩
        rw [exec_cases h.present hgives]
        exact ⟨hfailed, ⟨h.present, h.sectors.trans hsectors.symm⟩, hgives.tail rfl rfl rfl⟩
  | write lba buffer =>
      obtain ⟨hstatus, ⟨hdone, hsectors⟩ | ⟨hfailed, hsectors, hready⟩⟩ :=
        Drive.ensures_ataWriteSectorPorts d lba buffer d (Drive.Polled.refl d)
      · refine ⟨false, fun _ => rfl, hstatus, fun a rest h hgives => ?_⟩
        rw [exec_cases h.present hgives]
        refine ⟨Prod.ext hdone rfl, ⟨h.present, ?_⟩, hgives.tail rfl rfl rfl⟩
        exact (congrArg (Function.update · _ buffer) h.sectors).trans hsectors.symm
      · refine ⟨true, fun h => absurd h hready, hstatus, fun a rest h hgives => ?_⟩
        rw [exec_cases h.present hgives]
        refine ⟨Prod.ext hfailed rfl, ⟨h.present, ?_⟩, hgives.tail rfl rfl rfl⟩
        exact h.sectors.trans hsectors.symm

/-- A run of transfers on a drive that is present. -/
theorem transfers_refine_present (ts : List Transfer) :
    ∀ d : Drive, ∃ givenUp : List Bool, (d.Ready → ∀ b ∈ givenUp, b = false) ∧
      ∀ a : Ata, Refines true d a → GivesUp a givenUp →
        ((transferPorts Drive.bus true ts).run d).1 = (transferExec a ts).1 ∧
          Refines true ((transferPorts Drive.bus true ts).run d).2 (transferExec a ts).2 := by
  induction ts with
  | nil =>
      intro d
      exact ⟨[], fun _ b hb => absurd hb List.not_mem_nil, fun a h _ => ⟨rfl, h⟩⟩
  | cons t rest ih =>
      intro d
      obtain ⟨b, hb, hstatus, hstep⟩ := transfer_refines d t
      obtain ⟨givenUp, hgivenUp, hrun⟩ := ih ((t.ports Drive.bus true).run d).2
      refine ⟨b :: givenUp, fun hready => ?_, fun a h hgives => ?_⟩
      · rw [List.forall_mem_cons]
        exact ⟨hb hready, hgivenUp fun k => hstatus ▸ hready k⟩
      · obtain ⟨hreply, hnext, hgives'⟩ := hstep a givenUp h hgives
        obtain ⟨hreplies, hlast⟩ := hrun _ hnext hgives'
        exact ⟨congrArg₂ List.cons hreply hreplies, hlast⟩

/-- Without a drive nothing happens at either level. -/
theorem transfers_refine_absent (ts : List Transfer) (d : Drive) :
    ∀ a : Ata, Refines false d a →
      ((transferPorts Drive.bus false ts).run d).1 = (transferExec a ts).1 ∧
        Refines false ((transferPorts Drive.bus false ts).run d).2 (transferExec a ts).2 := by
  induction ts with
  | nil => exact fun a h => ⟨rfl, h⟩
  | cons t rest ih =>
      intro a h
      have hexec : t.exec a = (((t.ports Drive.bus false).run d).1, a) := by
        cases t <;> simp only [Transfer.exec, ataReadSector, ataWriteSector, h.present] <;> rfl
      have hsame : ((t.ports Drive.bus false).run d).2 = d := by
        cases t <;> rfl
      have hports : (transferPorts Drive.bus false (t :: rest)).run d =
          (((t.ports Drive.bus false).run d).1 ::
              ((transferPorts Drive.bus false rest).run ((t.ports Drive.bus false).run d).2).1,
            ((transferPorts Drive.bus false rest).run ((t.ports Drive.bus false).run d).2).2) := rfl
      obtain ⟨hreplies, hlast⟩ := ih a h
      rw [hsame] at hports
      rw [hports, transferExec, hexec]
      exact ⟨congrArg _ hreplies, hlast⟩

/-- The driver at its ports refines the driver of `Drivers/Ata.lean`: whatever a drive's
status register answers, detecting it and a run of transfers give the results and leave the
medium of a run of the abstract driver, on a drive that fails no transfer if the real one is
ready at every reading. -/
theorem transfers_refine (drive : Drive) (ts : List Transfer) :
    ∃ a : Ata, a.sectors = drive.sectors ∧ (drive.Ready → a.Working) ∧
      ((bootAndTransfer Drive.bus ts).run drive).1 = (transferExec a ts).1 ∧
      ((bootAndTransfer Drive.bus ts).run drive).2.sectors = (transferExec a ts).2.sectors := by
  obtain ⟨⟨hsectors, hstatus⟩, hpresent⟩ := Drive.ensures_ataInit drive drive ⟨rfl, rfl⟩
  have hboot : (bootAndTransfer Drive.bus ts).run drive =
      (transferPorts Drive.bus ((ataInit Drive.bus).run drive).1 ts).run
        ((ataInit Drive.bus).run drive).2 := rfl
  rw [hboot]
  cases hfound : ((ataInit Drive.bus).run drive).1 with
  | false =>
      have hready : ¬ drive.Ready := fun h => absurd (hfound.symm.trans (hpresent h)) (by decide)
      obtain ⟨hreplies, hlast⟩ := transfers_refine_absent ts ((ataInit Drive.bus).run drive).2
        (abstractDrive false drive.sectors []) ⟨rfl, hsectors.symm⟩
      exact ⟨_, rfl, fun h => absurd h hready, hreplies, hlast.sectors.symm⟩
  | true =>
      obtain ⟨givenUp, hgivenUp, hrun⟩ := transfers_refine_present ts
        ((ataInit Drive.bus).run drive).2
      obtain ⟨hreplies, hlast⟩ := hrun (abstractDrive true drive.sectors givenUp)
        ⟨rfl, hsectors.symm⟩ ⟨fun k => congrArg (givenUp.getD · false) (Nat.zero_add k),
          fun _ => rfl⟩
      exact ⟨_, rfl, fun h => working_abstractDrive (hgivenUp fun k => hstatus ▸ h k), hreplies,
        hlast.sectors.symm⟩

end FalastinOS.Drivers
