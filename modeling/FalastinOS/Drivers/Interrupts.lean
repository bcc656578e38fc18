/-
  Drivers/Interrupts.lean --- `interrupts.c`, `pic.c` and the handlers of `irq.asm`.

  Two interrupt controllers sit between the devices and the processor, the second one
  behind line 2 of the first.  `pic_remap` moves their vectors, `pic_unmask_irq` opens a
  line, and `set_gate` puts a handler behind a vector.  A controller that has handed over
  an interrupt hands over none of the same or a lower priority until it is told the end
  of it, which the handlers do on their way out.

  `init_idt` installs three handlers, so it depends on the lines that are opened whether
  all goes well: `served_iff` says that a run of interrupts goes without a fault exactly
  if every line that comes through is 0, 1 or 12, and that then each of them is served
  once, in order, and the controllers are ready for the next.
-/
import FalastinOS.Foundation.Execution
import FalastinOS.Foundation.PortIo

set_option autoImplicit false

namespace FalastinOS.Drivers

open FalastinOS.Foundation

/-! ## `pic.c` -/

section Pic

variable {σ : Type} (bus : Bus σ)

/-- `pic_remap()`. -/
def picRemap : StateM σ Unit := do
  let a1 ← bus.inb 0x21
  let a2 ← bus.inb 0xA1
  bus.outb 0x20 0x11
  bus.outb 0xA0 0x11
  bus.outb 0x21 0x20
  bus.outb 0xA1 0x28
  bus.outb 0x21 0x04
  bus.outb 0xA1 0x02
  bus.outb 0x21 0x01
  bus.outb 0xA1 0x01
  bus.outb 0x21 a1
  bus.outb 0xA1 a2

/-- `pic_mask_all()`. -/
def picMaskAll : StateM σ Unit := do
  bus.outb 0x21 0xFF
  bus.outb 0xA1 0xFF

/-- `pic_unmask_irq(irq)`, for a line of the two controllers. -/
def picUnmaskIrq (irq : Fin 16) : StateM σ Unit := do
  if irq.val < 8 then
    let value ← bus.inb 0x21
    bus.outb 0x21 (value &&& ~~~((1 : UInt8) <<< UInt8.ofNat irq.val))
  else
    let value ← bus.inb 0xA1
    bus.outb 0xA1 (value &&& ~~~((1 : UInt8) <<< UInt8.ofNat (irq.val - 8)))

/-- `pic_send_eoi(irq)`. -/
def picSendEoi (irq : Fin 16) : StateM σ Unit := do
  if 8 ≤ irq.val then bus.outb 0xA0 0x20
  bus.outb 0x20 0x20

end Pic

/-! ## `interrupts.c` -/

/-- `struct idt_entry`. -/
structure IdtEntry where
  baseLow : UInt16
  selector : UInt16
  zero : UInt8
  flags : UInt8
  baseHigh : UInt16

/-- `idt[IDT_SIZE]`, by the vectors of the processor. -/
abbrev Idt : Type := UInt8 → IdtEntry

/-- `set_gate(num, handler, selector, flags)`. -/
def setGate (idt : Idt) (num : UInt8) (handler : UInt32) (selector : UInt16) (flags : UInt8) :
    Idt :=
  Function.update idt num
    { baseLow := (handler &&& 0xFFFF).toUInt16
      baseHigh := ((handler >>> 16) &&& 0xFFFF).toUInt16
      selector := selector
      zero := 0
      flags := flags }

/-- The handlers of `irq.asm`. -/
inductive Handler where
  | irq0
  | irq1
  | irq12
  deriving DecidableEq, Repr

/-- `init_idt()`, where the linker has put the handlers at the given addresses: the table
after it. -/
def initIdt {σ : Type} (bus : Bus σ) (address : Handler → UInt32) (idt : Idt) : StateM σ Idt := do
  let idt := (List.range 256).foldl (fun idt i => setGate idt (UInt8.ofNat i) 0 0 0) idt
  picRemap bus
  picMaskAll bus
  let idt := setGate idt 0x21 (address .irq1) 0x08 0x8E
  let idt := setGate idt 0x2C (address .irq12) 0x08 0x8E
  return setGate idt 0x20 (address .irq0) 0x08 0x8E

/-- What the handlers tell the controllers before they return. -/
def Handler.finish {σ : Type} (bus : Bus σ) : Handler → StateM σ Unit
  | .irq0 => bus.outb 0x20 0x20
  | .irq1 => bus.outb 0x20 0x20
  | .irq12 => do
      bus.outb 0xA0 0x20
      bus.outb 0x20 0x20

/-! ## The controllers -/

/-- The word of initialisation a controller expects on its data port. -/
inductive Expected where
  | vector
  | cascade
  | mode
  | none

/-- A controller. -/
structure Pic where
  /-- the lines that are masked -/
  imr : UInt8
  /-- the lines in service -/
  isr : UInt8
  vector : UInt8
  cascade : UInt8
  mode : UInt8
  expected : Expected

namespace Pic

/-- A write to the command port: initialisation in cascade mode with four words, or the end
of the interrupt of the highest priority in service. -/
def command (p : Pic) (v : UInt8) : Pic :=
  if v &&& 0x10 ≠ 0 then { p with imr := 0, isr := 0, expected := .vector }
  else if v = 0x20 then { p with isr := p.isr &&& (p.isr - 1) }
  else p

/-- A write to the data port. -/
def data (p : Pic) (v : UInt8) : Pic :=
  match p.expected with
  | .vector => { p with vector := v, expected := .cascade }
  | .cascade => { p with cascade := v, expected := .mode }
  | .mode => { p with mode := v, expected := .none }
  | .none => { p with imr := v }

/-- Is the line open, and nothing of its priority or a higher one in service? -/
def accepts (p : Pic) (line : Nat) : Bool :=
  p.imr.toNat.testBit line = false ∧ ∀ k, k < line + 1 → p.isr.toNat.testBit k = false

/-- The controller hands over the interrupt of a line. -/
def serve (p : Pic) (line : Nat) : Pic :=
  { p with isr := p.isr ||| (1 : UInt8) <<< UInt8.ofNat line }

/-- The vector of a line. -/
def vectorOf (p : Pic) (line : Nat) : UInt8 := (p.vector &&& 0xF8) ||| UInt8.ofNat line

end Pic

/-- The two controllers. -/
structure Board where
  master : Pic
  slave : Pic

namespace Board

/-- Their ports. -/
def bus : Bus Board where
  inb port := fun b =>
    if port = 0x21 then (b.master.imr, b)
    else if port = 0xA1 then (b.slave.imr, b)
    else (0xFF, b)
  outb port v := fun b => ((),
    if port = 0x20 then { b with master := b.master.command v }
    else if port = 0x21 then { b with master := b.master.data v }
    else if port = 0xA0 then { b with slave := b.slave.command v }
    else if port = 0xA1 then { b with slave := b.slave.data v }
    else b)
  inw _ := fun b => (0xFFFF, b)
  outw _ _ := fun b => ((), b)
  inl _ := fun b => (0xFFFFFFFF, b)
  outl _ _ := fun b => ((), b)

/-- A device raises its line.  Lines 8 to 15 are those of the second controller and have to
come through line 2 of the first. -/
def raise (b : Board) (line : Fin 16) : Option (UInt8 × Board) :=
  if line.val < 8 then
    if b.master.accepts line.val then
      some (b.master.vectorOf line.val, { b with master := b.master.serve line.val })
    else none
  else if b.slave.accepts (line.val - 8) ∧ b.master.accepts 2 then
    some (b.slave.vectorOf (line.val - 8),
      ⟨b.master.serve 2, b.slave.serve (line.val - 8)⟩)
  else none

/-- Nothing is in service. -/
def Idle (b : Board) : Prop := b.master.isr = 0 ∧ b.slave.isr = 0

end Board

/-! ## The processor -/

/-- A line that belongs to a device: line 2 is the second controller's. -/
structure Line where
  number : Fin 16
  notCascade : number.val ≠ 2

/-- Why an interrupt stops the machine. -/
inductive GateFault where
  /-- the gate behind the vector is not present -/
  | absent (vector : UInt8)
  /-- the gate leads to an address where no handler is -/
  | wild (address : UInt32)
  deriving DecidableEq, Repr

/-- The machine with interrupts enabled, and the handlers that ran. -/
structure Interrupts where
  board : Board
  idt : Idt
  served : List Handler

/-- The address a gate leads to. -/
def IdtEntry.offset (e : IdtEntry) : UInt32 := e.baseHigh.toUInt32 <<< 16 ||| e.baseLow.toUInt32

namespace Interrupts

/-- A device raises its line.  If the interrupt comes through, the processor follows the gate
and runs the handler with interrupts disabled. -/
def step (address : Handler → UInt32) (s : Interrupts) (line : Line) :
    Except GateFault Interrupts :=
  match s.board.raise line.number with
  | none => .ok s
  | some (vector, board) =>
      let gate := s.idt vector
      if gate.flags &&& 0x80 = 0 then .error (.absent vector)
      else
        match [Handler.irq0, .irq1, .irq12].find? fun h => address h = gate.offset with
        | none => .error (.wild gate.offset)
        | some h =>
            .ok { s with
              board := ((h.finish Board.bus).run board).2
              served := s.served ++ [h] }

/-- The machine after `init_idt` and a call of `pic_unmask_irq` for each of the lines. -/
def boot (address : Handler → UInt32) (b : Board) (idt : Idt) (irqs : List (Fin 16)) :
    Interrupts :=
  let (idt, b) := (initIdt Board.bus address idt).run b
  ⟨irqs.foldl (fun b irq => ((picUnmaskIrq Board.bus irq).run b).2) b, idt, []⟩

/-- Does the interrupt of a line come through when the lines of `irqs` are open? -/
def Delivered (irqs : List (Fin 16)) (line : Fin 16) : Prop :=
  line ∈ irqs ∧ (line.val < 8 ∨ 2 ∈ irqs)

instance (irqs : List (Fin 16)) (line : Fin 16) : Decidable (Delivered irqs line) :=
  inferInstanceAs (Decidable (_ ∧ _))

/-- The handler that `init_idt` installs for a line. -/
def handlerOf (line : Fin 16) : Option Handler :=
  if line.val = 0 then some .irq0
  else if line.val = 1 then some .irq1
  else if line.val = 12 then some .irq12
  else none

/-! ## The gates -/

theorem setGate_self (idt : Idt) (num : UInt8) (handler : UInt32) (selector : UInt16)
    (flags : UInt8) : (setGate idt num handler selector flags num).offset = handler ∧
      (setGate idt num handler selector flags num).flags = flags := by
  have hlow : (handler &&& 0xFFFF).toNat = handler.toNat % 2 ^ 16 := by
    rw [UInt32.toNat_and, ← Nat.and_two_pow_sub_one_eq_mod]
    rfl
  have hhigh : ((handler >>> 16) &&& 0xFFFF).toNat = handler.toNat / 2 ^ 16 % 2 ^ 16 := by
    rw [UInt32.toNat_and, UInt32.toNat_shiftRight, ← Nat.and_two_pow_sub_one_eq_mod,
      ← Nat.shiftRight_eq_div_pow]
    rfl
  have hlt := handler.toNat_lt
  rw [setGate, Function.update_self]
  refine ⟨?_, rfl⟩
  rw [← UInt32.toNat_inj, IdtEntry.offset, UInt32.toNat_or, UInt32.toNat_shiftLeft]
  have hshift : (handler.toNat / 2 ^ 16) <<< (16 % 32) % 2 ^ 32 =
      2 ^ 16 * (handler.toNat / 2 ^ 16) := by
    rw [Nat.shiftLeft_eq, show 16 % 32 = 16 from rfl]
    omega
  simp only [UInt16.toNat_toUInt32, UInt32.toNat_toUInt16, hlow, hhigh, Nat.mod_mod]
  rw [Nat.mod_eq_of_lt (show handler.toNat / 2 ^ 16 < 2 ^ 16 by omega)]
  refine (congrArg (· ||| handler.toNat % 2 ^ 16) hshift).trans ?_
  rw [← Nat.two_pow_add_eq_or_of_lt (Nat.mod_lt _ (by decide)), Nat.div_add_mod]

theorem setGate_of_ne (idt : Idt) {num i : UInt8} (h : i ≠ num) (handler : UInt32)
    (selector : UInt16) (flags : UInt8) : setGate idt num handler selector flags i = idt i :=
  Function.update_of_ne h _ _

/-- The table leads each line that has a handler to it, and no other line anywhere. -/
def Gated (address : Handler → UInt32) (idt : Idt) : Prop :=
  ∀ line : Fin 16, match handlerOf line with
    | some h => (idt (UInt8.ofNat (32 + line.val))).flags = 0x8E ∧
        (idt (UInt8.ofNat (32 + line.val))).offset = address h
    | none => (idt (UInt8.ofNat (32 + line.val))).flags = 0

/-- The vectors of the lines. -/
theorem vector_inj {line : Fin 16} {n : Nat} (hn : n < 16) :
    UInt8.ofNat (32 + line.val) = UInt8.ofNat (32 + n) ↔ line.val = n := by
  rw [← UInt8.toNat_inj, UInt8.toNat_ofNat', UInt8.toNat_ofNat']
  omega

theorem cleared_gate (idt : Idt) (v : UInt8) :
    (((List.range 256).foldl (fun idt i => setGate idt (UInt8.ofNat i) 0 0 0) idt) v).flags =
      0 := by
  have hkeep : ∀ (l : List Nat) (idt : Idt), (idt v).flags = 0 →
      ((l.foldl (fun idt i => setGate idt (UInt8.ofNat i) 0 0 0) idt) v).flags = 0 := by
    intro l
    induction l with
    | nil => exact fun idt h => h
    | cons j rest ih =>
        intro idt h
        refine ih _ ?_
        by_cases hvj : v = UInt8.ofNat j
        · rw [hvj]
          exact (setGate_self idt _ 0 0 0).2
        · exact (congrArg IdtEntry.flags (setGate_of_ne idt hvj 0 0 0)).trans h
  obtain ⟨before, after, hsplit⟩ := List.append_of_mem (List.mem_range.mpr v.toNat_lt)
  rw [show (256 : Nat) = UInt8.size from rfl, hsplit, List.foldl_append, List.foldl_cons,
    UInt8.ofNat_toNat]
  exact hkeep after _ (setGate_self _ v 0 0 0).2

theorem gated_initIdt (address : Handler → UInt32) (b : Board) (idt : Idt) :
    Gated address ((initIdt Board.bus address idt).run b).1 := by
  intro line
  have hcleared := cleared_gate idt (UInt8.ofNat (32 + line.val))
  generalize hclear : (List.range 256).foldl (fun idt i => setGate idt (UInt8.ofNat i) 0 0 0) idt =
    clear at hcleared
  have hrun : ((initIdt Board.bus address idt).run b).1 =
      setGate (setGate (setGate clear 0x21 (address .irq1) 0x08 0x8E) 0x2C (address .irq12)
        0x08 0x8E) 0x20 (address .irq0) 0x08 0x8E := by
    rw [← hclear]
    rfl
  have hvector0 : UInt8.ofNat (32 + line.val) = 0x20 ↔ line.val = 0 :=
    vector_inj (n := 0) (by decide)
  have hvector1 : UInt8.ofNat (32 + line.val) = 0x21 ↔ line.val = 1 :=
    vector_inj (n := 1) (by decide)
  have hvector12 : UInt8.ofNat (32 + line.val) = 0x2C ↔ line.val = 12 :=
    vector_inj (n := 12) (by decide)
  rw [hrun]
  unfold handlerOf
  split_ifs with h0 h1 h12
  all_goals simp only
  · rw [hvector0.mpr h0]
    exact (setGate_self _ _ _ _ _).symm
  · rw [hvector1.mpr h1, setGate_of_ne _ (by decide), setGate_of_ne _ (by decide)]
    exact (setGate_self _ _ _ _ _).symm
  · rw [hvector12.mpr h12, setGate_of_ne _ (by decide)]
    exact (setGate_self _ _ _ _ _).symm
  · rw [setGate_of_ne _ (mt hvector0.mp h0), setGate_of_ne _ (mt hvector12.mp h12),
      setGate_of_ne _ (mt hvector1.mp h1)]
    exact hcleared

/-! ## The controllers after the set-up -/

/-- Both controllers are initialised, with nothing in service, and the lines of `irqs` are the
open ones. -/
structure Ready (irqs : List (Fin 16)) (b : Board) : Prop where
  idle : b.Idle
  masterVector : b.master.vector = 0x20
  slaveVector : b.slave.vector = 0x28
  masterExpects : b.master.expected = .none
  slaveExpects : b.slave.expected = .none
  masterMask : ∀ line : Fin 16, line.val < 8 →
    (b.master.imr.toNat.testBit line.val = false ↔ line ∈ irqs)
  slaveMask : ∀ line : Fin 16, 8 ≤ line.val →
    (b.slave.imr.toNat.testBit (line.val - 8) = false ↔ line ∈ irqs)

theorem ready_initIdt (address : Handler → UInt32) (b : Board) (idt : Idt) :
    Ready [] ((initIdt Board.bus address idt).run b).2 where
  idle := ⟨rfl, rfl⟩
  masterVector := rfl
  slaveVector := rfl
  masterExpects := rfl
  slaveExpects := rfl
  masterMask := by
    show ∀ line : Fin 16, line.val < 8 →
      ((0xFF : UInt8).toNat.testBit line.val = false ↔ line ∈ [])
    decide
  slaveMask := by
    show ∀ line : Fin 16, 8 ≤ line.val →
      ((0xFF : UInt8).toNat.testBit (line.val - 8) = false ↔ line ∈ [])
    decide

/-- Clearing one bit of a mask. -/
theorem testBit_unmask (v : UInt8) (i k : Fin 8) :
    (v &&& ~~~((1 : UInt8) <<< UInt8.ofNat i.val)).toNat.testBit k.val = false ↔
      v.toNat.testBit k.val = false ∨ k = i := by
  revert i k
  exact forall_byte (P := fun v => ∀ i k : Fin 8,
    (v &&& ~~~((1 : UInt8) <<< UInt8.ofNat i.val)).toNat.testBit k.val = false ↔
      v.toNat.testBit k.val = false ∨ k = i) (by decide +kernel) v

theorem data_of_none {p : Pic} (h : p.expected = .none) (v : UInt8) :
    p.data v = { p with imr := v } := by
  cases p
  subst h
  rfl

theorem Ready.unmask {irqs : List (Fin 16)} {b : Board} (h : Ready irqs b) (irq : Fin 16) :
    Ready (irqs ++ [irq]) ((picUnmaskIrq Board.bus irq).run b).2 := by
  by_cases hmaster : irq.val < 8
  · have hrun : ((picUnmaskIrq Board.bus irq).run b).2 = { b with master := { b.master with
        imr := b.master.imr &&& ~~~((1 : UInt8) <<< UInt8.ofNat irq.val) } } := by
      rw [picUnmaskIrq, if_pos hmaster]
      exact congrArg (fun p => { b with master := p }) (data_of_none h.masterExpects _)
    rw [hrun]
    refine { h with masterMask := fun line hline => ?_, slaveMask := fun line hline => ?_ }
    · rw [testBit_unmask _ ⟨irq.val, hmaster⟩ ⟨line.val, hline⟩, h.masterMask line hline,
        List.mem_append, List.mem_singleton, Fin.mk.injEq, Fin.ext_iff]
    · rw [h.slaveMask line hline, List.mem_append, List.mem_singleton,
        or_iff_left (mt (congrArg Fin.val) (by omega))]
  · have hrun : ((picUnmaskIrq Board.bus irq).run b).2 = { b with slave := { b.slave with
        imr := b.slave.imr &&& ~~~((1 : UInt8) <<< UInt8.ofNat (irq.val - 8)) } } := by
      rw [picUnmaskIrq, if_neg hmaster]
      exact congrArg (fun p => { b with slave := p }) (data_of_none h.slaveExpects _)
    rw [hrun]
    refine { h with masterMask := fun line hline => ?_, slaveMask := fun line hline => ?_ }
    · rw [h.masterMask line hline, List.mem_append, List.mem_singleton,
        or_iff_left (mt (congrArg Fin.val) (by omega))]
    · rw [testBit_unmask _ ⟨irq.val - 8, by omega⟩ ⟨line.val - 8, by omega⟩,
        h.slaveMask line hline, List.mem_append, List.mem_singleton, Fin.mk.injEq, Fin.ext_iff]
      exact or_congr_right (by omega)

theorem ready_boot (address : Handler → UInt32) (b : Board) (idt : Idt) (irqs : List (Fin 16)) :
    Ready irqs (boot address b idt irqs).board := by
  have hfold : ∀ (rest done : List (Fin 16)) (b : Board), Ready done b → Ready (done ++ rest)
      (rest.foldl (fun b irq => ((picUnmaskIrq Board.bus irq).run b).2) b) := by
    intro rest
    induction rest with
    | nil =>
        intro done b h
        rw [List.append_nil]
        exact h
    | cons irq rest ih =>
        intro done b h
        rw [List.append_cons]
        exact ih (done ++ [irq]) _ (h.unmask irq)
  exact hfold irqs [] _ (ready_initIdt address b idt)

/-! ## One interrupt -/

section Step

variable {address : Handler → UInt32} {irqs : List (Fin 16)} {s : Interrupts}

theorem accepts_iff {p : Pic} (hidle : p.isr = 0) (line : Nat) :
    p.accepts line = true ↔ p.imr.toNat.testBit line = false := by
  rw [Pic.accepts, decide_eq_true_eq, hidle]
  exact ⟨fun h => h.1, fun h => ⟨h, fun k _ => Nat.zero_testBit k⟩⟩

/-- The vectors of the two controllers follow one another. -/
theorem vectorOf_eq (k : Fin 8) : (((0x20 : UInt8) &&& 0xF8) ||| UInt8.ofNat k.val).toNat =
      32 + k.val ∧ (((0x28 : UInt8) &&& 0xF8) ||| UInt8.ofNat k.val).toNat = 32 + (8 + k.val) := by
  revert k
  decide

/-- What a device's interrupt does to the controllers. -/
def servedBoard (b : Board) (line : Fin 16) : Board :=
  if line.val < 8 then { b with master := b.master.serve line.val }
  else ⟨b.master.serve 2, b.slave.serve (line.val - 8)⟩

/-- An interrupt that comes through leads to the vector of its line; another one leads
nowhere. -/
theorem raise_eq {b : Board} (h : Ready irqs b) (line : Fin 16) :
    if Delivered irqs line then ∃ vector : UInt8, vector.toNat = 32 + line.val ∧
      b.raise line = some (vector, servedBoard b line)
    else b.raise line = none := by
  unfold Delivered Board.raise servedBoard
  by_cases hmaster : line.val < 8
  · have haccepts : b.master.accepts line.val = true ↔ line ∈ irqs := by
      rw [accepts_iff h.idle.1, h.masterMask line hmaster]
    simp only [hmaster, if_true, true_or, and_true, haccepts]
    split
    · refine ⟨_, ?_, rfl⟩
      rw [Pic.vectorOf, h.masterVector]
      exact (vectorOf_eq ⟨line.val, hmaster⟩).1
    · rfl
  · have hslave : b.slave.accepts (line.val - 8) = true ↔ line ∈ irqs := by
      rw [accepts_iff h.idle.2, h.slaveMask line (by omega)]
    have hcascade : b.master.accepts 2 = true ↔ 2 ∈ irqs := by
      rw [accepts_iff h.idle.1]
      exact h.masterMask 2 (by decide)
    simp only [hmaster, if_false, false_or, hslave, hcascade]
    split
    · refine ⟨_, ?_, rfl⟩
      rw [Pic.vectorOf, h.slaveVector]
      refine (vectorOf_eq ⟨line.val - 8, by omega⟩).2.trans ?_
      simp only
      omega
    · rfl

/-- The end of an interrupt takes back that it is in service. -/
theorem command_serve {p : Pic} (h : p.isr = 0) (k : Fin 8) : (p.serve k.val).command 0x20 = p := by
  have hbit : ∀ k : Fin 8, ((0 : UInt8) ||| (1 : UInt8) <<< UInt8.ofNat k.val) &&&
      (((0 : UInt8) ||| (1 : UInt8) <<< UInt8.ofNat k.val) - 1) = 0 := by
    decide
  cases p
  subst h
  rw [Pic.command, if_neg (by decide), if_pos rfl]
  exact congrArg (fun isr => Pic.mk _ isr _ _ _ _) (hbit k)

/-- A handler leaves the controllers as they were before its interrupt. -/
theorem finish_servedBoard {b : Board} (h : b.Idle) {line : Fin 16} {handler : Handler}
    (hline : handlerOf line = some handler) :
    ((handler.finish Board.bus).run (servedBoard b line)).2 = b := by
  unfold handlerOf at hline
  split_ifs at hline with h0 h1 h12
  · obtain rfl := Option.some.inj hline
    rw [servedBoard, if_pos (by omega), h0]
    exact congrArg (fun p => { b with master := p }) (command_serve h.1 0)
  · obtain rfl := Option.some.inj hline
    rw [servedBoard, if_pos (by omega), h1]
    exact congrArg (fun p => { b with master := p }) (command_serve h.1 1)
  · obtain rfl := Option.some.inj hline
    rw [servedBoard, if_neg (by omega), h12]
    exact congrArg₂ Board.mk (command_serve h.1 2) (command_serve h.2 4)

/-- The handler that runs when a line is raised. -/
def servedBy (irqs : List (Fin 16)) (line : Line) : Option Handler :=
  if Delivered irqs line.number then handlerOf line.number else none

/-- One interrupt: it is lost on the way, its handler runs, or there is none. -/
theorem step_eq (hinj : Function.Injective address) (hgated : Gated address s.idt)
    (h : Ready irqs s.board) (line : Line) :
    s.step address line =
      if Delivered irqs line.number then
        match handlerOf line.number with
        | some handler => .ok { s with served := s.served ++ [handler] }
        | none => .error (.absent (UInt8.ofNat (32 + line.number.val)))
      else .ok s := by
  have hraise := raise_eq h line.number
  by_cases hdelivered : Delivered irqs line.number
  · rw [if_pos hdelivered] at hraise ⊢
    obtain ⟨vector, hvector, hsome⟩ := hraise
    have hgate := hgated line.number
    have hindex : vector = UInt8.ofNat (32 + line.number.val) := by
      rw [← hvector, UInt8.ofNat_toNat]
    simp only [step, hsome, hindex]
    cases hhandler : handlerOf line.number with
    | none =>
        rw [hhandler] at hgate
        simp only [hgate]
        rw [if_pos (by decide)]
    | some handler =>
        rw [hhandler] at hgate
        obtain ⟨hflags, hoffset⟩ := hgate
        have hsame : ∀ h, decide (address h = address handler) = decide (h = handler) :=
          fun h => decide_eq_decide.mpr hinj.eq_iff
        have hfind : [Handler.irq0, .irq1, .irq12].find? (fun h => address h = address handler) =
            some handler := by
          simp only [hsame]
          cases handler <;> rfl
        simp only [hflags, hoffset, hfind, finish_servedBoard h.idle hhandler]
        exact if_neg (by decide)
  · rw [if_neg hdelivered] at hraise ⊢
    simp only [step, hraise]

/-- The interrupt of a line has a handler if it comes through. -/
def Handled (irqs : List (Fin 16)) (line : Line) : Prop :=
  Delivered irqs line.number → (handlerOf line.number).isSome

theorem step_of_handled (hinj : Function.Injective address) (hgated : Gated address s.idt)
    (h : Ready irqs s.board) {line : Line} (hline : Handled irqs line) :
    s.step address line = .ok { s with served := s.served ++ (servedBy irqs line).toList } := by
  rw [step_eq hinj hgated h, servedBy]
  split
  next hdelivered =>
      obtain ⟨handler, hhandler⟩ := Option.isSome_iff_exists.mp (hline hdelivered)
      rw [hhandler]
      rfl
  next => rw [Option.toList_none, List.append_nil]

theorem step_of_unhandled (hinj : Function.Injective address) (hgated : Gated address s.idt)
    (h : Ready irqs s.board) {line : Line} (hline : ¬ Handled irqs line) :
    ∃ e, s.step address line = .error e := by
  obtain ⟨hdelivered, hnone⟩ := Classical.not_imp.mp hline
  rw [step_eq hinj hgated h, if_pos hdelivered, Option.not_isSome_iff_eq_none.mp hnone]
  exact ⟨_, rfl⟩

/-! ## Runs -/

/-- A run of interrupts ends exactly if they all have handlers, and then these ran in order
and the controllers are as they were. -/
theorem run_eq_ok_iff (hinj : Function.Injective address) (lines : List Line) :
    ∀ s : Interrupts, Gated address s.idt → Ready irqs s.board →
      ((∃ s', run (step address) s lines = .ok s') ↔ ∀ line ∈ lines, Handled irqs line) ∧
      ∀ s', run (step address) s lines = .ok s' →
        s' = { s with served := s.served ++ lines.filterMap (servedBy irqs) } := by
  induction lines with
  | nil =>
      intro s _ _
      refine ⟨⟨fun _ line hline => absurd hline List.not_mem_nil, fun _ => ⟨s, rfl⟩⟩, ?_⟩
      intro s' hrun
      rw [List.filterMap_nil, List.append_nil]
      exact (Except.ok.inj hrun).symm
  | cons line rest ih =>
      intro s hgated h
      rw [List.forall_mem_cons]
      by_cases hline : Handled irqs line
      · have hstep := step_of_handled hinj hgated h hline
        obtain ⟨hends, hend⟩ := ih { s with served := s.served ++ (servedBy irqs line).toList }
          hgated h
        rw [run, hstep]
        refine ⟨hends.trans ⟨fun hrest => ⟨hline, hrest⟩, fun hall => hall.2⟩, fun s' hrun => ?_⟩
        rw [hend s' hrun, List.append_assoc]
        congr 2
        cases hserved : servedBy irqs line with
        | none => rw [List.filterMap_cons_none hserved]; rfl
        | some handler => rw [List.filterMap_cons_some hserved]; rfl
      · obtain ⟨e, hstep⟩ := step_of_unhandled hinj hgated h hline
        rw [run, hstep]
        refine ⟨⟨?_, fun hall => absurd hall.1 hline⟩, ?_⟩
        · rintro ⟨s', hrun⟩
          cases hrun
        · intro s' hrun
          cases hrun

end Step

/-- After `init_idt`, with any lines opened by `pic_unmask_irq`, a run of device interrupts goes
without a fault exactly if each one that comes through is of line 0, 1 or 12.  Then each of
these was served once, by its own handler and in order, and the controllers and the table
are as the set-up left them, with nothing in service. -/
theorem served_iff {address : Handler → UInt32} (hinj : Function.Injective address) (b : Board)
    (idt : Idt) (irqs : List (Fin 16)) (lines : List Line) :
    ((∃ s, run (step address) (boot address b idt irqs) lines = .ok s) ↔
      ∀ line ∈ lines, Delivered irqs line.number → (handlerOf line.number).isSome) ∧
    ∀ s, run (step address) (boot address b idt irqs) lines = .ok s →
      s.served = lines.filterMap (servedBy irqs) ∧ s.board = (boot address b idt irqs).board ∧
        s.idt = (boot address b idt irqs).idt ∧ s.board.Idle := by
  have hgated : Gated address (boot address b idt irqs).idt := gated_initIdt address b idt
  have hready := ready_boot address b idt irqs
  obtain ⟨hends, hend⟩ := run_eq_ok_iff hinj lines (boot address b idt irqs) hgated hready
  refine ⟨hends, fun s hrun => ?_⟩
  rw [hend s hrun]
  exact ⟨List.nil_append _, rfl, rfl, hready.idle⟩

/-- The lines that `kmain` opens. -/
def kmainIrqs : List (Fin 16) := [0, 1, 2, 12]

/-- Each line that `kmain` opens for a device has a handler. -/
theorem handled_kmain (line : Line) : Handled kmainIrqs line := by
  have hall : ∀ n : Fin 16, n.val ≠ 2 → Delivered kmainIrqs n → (handlerOf n).isSome := by
    decide
  exact hall line.number line.notCascade

/-- As `kmain` sets it up, no run of device interrupts leads to a fault. -/
theorem kmain_served {address : Handler → UInt32} (hinj : Function.Injective address) (b : Board)
    (idt : Idt) (lines : List Line) :
    ∃ s, run (step address) (boot address b idt kmainIrqs) lines = .ok s :=
  (run_eq_ok_iff hinj lines (boot address b idt kmainIrqs) (gated_initIdt address b idt)
    (ready_boot address b idt kmainIrqs)).1.mpr fun line _ => handled_kmain line

/-- Three addresses the handlers could have. -/
def someAddress : Handler → UInt32
  | .irq0 => 0x00101000
  | .irq1 => 0x00101020
  | .irq12 => 0x00101040

theorem someAddress_injective : Function.Injective someAddress := by
  intro h h' heq
  cases h <;> cases h' <;> first | rfl | exact absurd heq (by decide)

/-- Controllers as they can be when the machine starts, in the middle of an initialisation. -/
def coldBoard : Board := ⟨⟨0x5A, 0x81, 0x08, 0, 0, .cascade⟩, ⟨0, 0xFF, 0x70, 0, 0, .none⟩⟩

/-- The timer, the keyboard and the mouse are served; the network card's line is closed. -/
theorem served_kmain :
    ∃ s, run (step someAddress) (boot someAddress coldBoard (fun _ => ⟨0, 0, 0, 0, 0⟩) kmainIrqs)
        [⟨0, by decide⟩, ⟨12, by decide⟩, ⟨11, by decide⟩, ⟨1, by decide⟩] = .ok s ∧
      s.served = [.irq0, .irq12, .irq1] ∧ s.board.Idle := by
  have h := served_iff someAddress_injective coldBoard (fun _ => ⟨0, 0, 0, 0, 0⟩) kmainIrqs
    [⟨0, by decide⟩, ⟨12, by decide⟩, ⟨11, by decide⟩, ⟨1, by decide⟩]
  obtain ⟨s, hrun⟩ := h.1.mpr (by decide)
  obtain ⟨hserved, -, -, hidle⟩ := h.2 s hrun
  exact ⟨s, hrun, hserved.trans (by decide), hidle⟩

end Interrupts

end FalastinOS.Drivers
