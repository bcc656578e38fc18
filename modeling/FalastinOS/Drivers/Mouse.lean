/-
  Drivers/Mouse.lean --- the PS/2 mouse: `mouse.c`, and `doom_get_mouse` of `doom_compat.c`.

  The interrupt handler gets one byte at a time and keeps a packet of three under way.  At
  the level of whole streams it is a decoder: the pointer after any bytes is the one that
  the packets of the stream, as `deframe` takes it apart, have moved
  (`Mouse.pointer_irqs`).  So a handler that has lost its place finds it again
  (`Mouse.resync_moves`).  The pointer never leaves the screen once it was moved, and the
  differences that `doom_get_mouse` reports add up to the way the pointer has gone,
  whatever interrupts come between two calls (`Mouse.polls_telescope`).
-/
import FalastinOS.Foundation.Framing
import Mathlib.Data.Int.Init

set_option autoImplicit false

namespace FalastinOS.Drivers

open FalastinOS.Foundation

/-- What the rest of the kernel sees of the mouse: `mx`, `my` and `mbuttons`. -/
structure Pointer where
  mx : Int
  my : Int
  mbuttons : UInt8
  deriving DecidableEq

/-- The variables of `mouse.c`.  Of `mouse_byte` the first `mouse_byte_idx` entries are
those of the packet under way. -/
structure Mouse extends Pointer where
  mouseByte : Fin 3 → UInt8
  mouseByteIdx : Fin 3

/-- The variables as they are compiled in. -/
def Mouse.compiled : Mouse where
  mx := 512
  my := 384
  mbuttons := 0
  mouseByte := fun _ => 0
  mouseByteIdx := 0

/-- The two tests that keep a coordinate on a screen side of `size`. -/
def clampTo (size v : Int) : Int :=
  let v := if v < 0 then 0 else v
  if v ≥ size then size - 1 else v

/-- What a whole packet does, on a screen of `w` by `h`. -/
def Pointer.packet (w h : Int) (p : Pointer) (b0 b1 b2 : UInt8) : Pointer where
  mx := clampTo w (p.mx - b1.toInt8.toInt)
  my := clampTo h (p.my + b2.toInt8.toInt)
  mbuttons := b0 &&& 0x07

/-- The test on the first byte of a packet. -/
def firstByte (data : UInt8) : Bool := data &&& 0x08 != 0

/-- `irq12_c()`, for the byte that `inb(MOUSE_PORT)` gives. -/
def irq12C (w h : Int) (s : Mouse) (data : UInt8) : Mouse :=
  if s.mouseByteIdx = 0 ∧ firstByte data = false then s
  else
    let mouseByte := Function.update s.mouseByte s.mouseByteIdx data
    match s.mouseByteIdx with
    | 0 => { s with mouseByte := mouseByte, mouseByteIdx := 1 }
    | 1 => { s with mouseByte := mouseByte, mouseByteIdx := 2 }
    | 2 =>
        { s.toPointer.packet w h (mouseByte 0) (mouseByte 1) (mouseByte 2) with
          mouseByte := mouseByte, mouseByteIdx := 0 }

/-- One interrupt for each byte of the mouse. -/
def irqs (w h : Int) (s : Mouse) (stream : List UInt8) : Mouse := stream.foldl (irq12C w h) s

/-! ## The handler as a decoder -/

/-- What a frame of a stream does. -/
def Pointer.move (w h : Int) (p : Pointer) : List UInt8 → Pointer
  | [b0, b1, b2] => p.packet w h b0 b1 b2
  | _ => p

namespace Mouse

variable {w h : Int}

/-- The bytes of the packet under way. -/
def held (s : Mouse) : List UInt8 := (List.ofFn s.mouseByte).take s.mouseByteIdx

theorem held_length (s : Mouse) : s.held.length = s.mouseByteIdx := by
  rw [held, List.length_take, List.length_ofFn]
  omega

theorem held_eq_nil_iff (s : Mouse) : s.held = [] ↔ s.mouseByteIdx = 0 := by
  rw [← List.length_eq_zero_iff, held_length, Fin.ext_iff]
  rfl

/-- A byte that may not begin a packet, between packets. -/
theorem irq12C_dropped {s : Mouse} {data : UInt8} (hs : s.held = [])
    (hdata : firstByte data = false) : irq12C w h s data = s := by
  rw [irq12C, if_pos ⟨s.held_eq_nil_iff.mp hs, hdata⟩]

/-- Any other byte is held until there are three. -/
theorem irq12C_taken {s : Mouse} {data : UInt8} (hdata : s.held ≠ [] ∨ firstByte data = true) :
    if s.held.length + 1 = 3 then
      (irq12C w h s data).toPointer = s.toPointer.move w h (s.held ++ [data]) ∧
        (irq12C w h s data).held = []
    else
      (irq12C w h s data).toPointer = s.toPointer ∧
        (irq12C w h s data).held = s.held ++ [data] := by
  have htaken : ¬ (s.mouseByteIdx = 0 ∧ firstByte data = false) := by
    rintro ⟨hidx, hdrop⟩
    rcases hdata with hheld | hfirst
    · exact hheld (s.held_eq_nil_iff.mpr hidx)
    · exact absurd (hfirst.symm.trans hdrop) (by decide)
  rw [irq12C, if_neg htaken, held_length]
  obtain ⟨p, bytes, idx⟩ := s
  match idx with
  | 0 => exact ⟨rfl, rfl⟩
  | 1 => exact ⟨rfl, rfl⟩
  | 2 => exact ⟨rfl, rfl⟩

/-- After any stream the pointer is the one that its packets have moved, and the rest of
the stream is held. -/
theorem irqs_eq_deframe (stream : List UInt8) : ∀ s : Mouse,
    (irqs w h s stream).toPointer =
        (deframe firstByte 3 s.held stream).1.foldl (Pointer.move w h) s.toPointer ∧
      (irqs w h s stream).held = (deframe firstByte 3 s.held stream).2 := by
  induction stream with
  | nil => exact fun s => ⟨rfl, rfl⟩
  | cons data rest ih =>
      intro s
      obtain ⟨hpointer, hheld⟩ := ih (irq12C w h s data)
      rw [irqs, List.foldl_cons, ← irqs, hpointer, hheld]
      by_cases hdrop : s.held = [] ∧ firstByte data = false
      · rw [irq12C_dropped hdrop.1 hdrop.2, hdrop.1, deframe_drop hdrop.2]
        exact ⟨rfl, rfl⟩
      · have hdata : s.held ≠ [] ∨ firstByte data = true := by
          rw [not_and_or, Bool.not_eq_false] at hdrop
          exact hdrop
        have htaken := irq12C_taken (w := w) (h := h) hdata
        by_cases hlast : s.held.length + 1 = 3
        · rw [if_pos hlast] at htaken
          rw [htaken.1, htaken.2, deframe_complete hdata hlast]
          exact ⟨rfl, rfl⟩
        · rw [if_neg hlast] at htaken
          rw [htaken.1, htaken.2, deframe_take hdata hlast]
          exact ⟨rfl, rfl⟩

/-- Noise without a first byte moves the pointer at most once, by the packet that was
under way. -/
theorem noise_moves {noise : List UInt8} (s : Mouse)
    (hnoise : ∀ data ∈ noise, firstByte data = false) :
    (irqs w h s noise).toPointer = s.toPointer ∨
      ∃ packet, (irqs w h s noise).toPointer = s.toPointer.move w h packet := by
  rw [(irqs_eq_deframe noise s).1]
  have hframes : (deframe firstByte 3 s.held noise).1.length ≤ 1 := deframe_noise_length_le hnoise _
  match hframe : (deframe firstByte 3 s.held noise).1 with
  | [] => exact .inl rfl
  | [packet] => exact .inr ⟨packet, rfl⟩
  | _ :: _ :: _ =>
      rw [hframe] at hframes
      exact absurd hframes (by simp)

/-- The packets of a mouse that may be silent for a while before each. -/
def wire (packets : List (List UInt8 × UInt8 × UInt8 × UInt8)) : List UInt8 :=
  packets.flatMap fun (gap, b0, b1, b2) => gap ++ [b0, b1, b2]

/-- The packets of such a stream are taken out of it, from between two packets. -/
theorem deframe_wire {packets : List (List UInt8 × UInt8 × UInt8 × UInt8)}
    (hpackets : ∀ p ∈ packets, (∀ data ∈ p.1, firstByte data = false) ∧ firstByte p.2.1 = true) :
    deframe firstByte 3 [] (wire packets) =
      (packets.map fun (_, b0, b1, b2) => [b0, b1, b2], []) := by
  have hparts : deframe firstByte 3 []
      ((packets.map fun (gap, b0, b1, b2) => (gap, b0, [b1, b2])).flatMap
        (fun p => p.1 ++ p.2.1 :: p.2.2) ++ []) = _ :=
    deframe_flatMap (by decide) (by
      intro p hp
      obtain ⟨packet, hmem, rfl⟩ := List.mem_map.mp hp
      exact ⟨(hpackets packet hmem).1, (hpackets packet hmem).2, rfl⟩) []
  rw [List.append_nil, List.flatMap_map, List.map_map, deframe_nil, List.append_nil] at hparts
  exact hparts

/-- Whatever the handler holds, two bytes that may not begin a packet bring it back into
step: it decodes every packet after them as it was sent. -/
theorem resync_moves (s : Mouse) {noise : List UInt8}
    {packets : List (List UInt8 × UInt8 × UInt8 × UInt8)}
    (hnoise : ∀ data ∈ noise, firstByte data = false) (hlen : 2 ≤ noise.length)
    (hpackets : ∀ p ∈ packets, (∀ data ∈ p.1, firstByte data = false) ∧ firstByte p.2.1 = true) :
    ∃ p : Pointer, (p = s.toPointer ∨ ∃ packet, p = s.toPointer.move w h packet) ∧
      (irqs w h s (noise ++ wire packets)).toPointer =
        packets.foldl (fun p (_, b0, b1, b2) => p.packet w h b0 b1 b2) p ∧
      (irqs w h s (noise ++ wire packets)).mouseByteIdx = 0 := by
  have hshort : s.held.length < 3 := by
    rw [held_length]
    exact s.mouseByteIdx.isLt
  have hdone : s.held = [] ∨ 3 ≤ s.held.length + noise.length := by
    cases hheld : s.held with
    | nil => exact .inl rfl
    | cons data rest =>
        right
        rw [List.length_cons]
        omega
  have hsync : (irqs w h s noise).held = [] :=
    (irqs_eq_deframe noise s).2.trans (deframe_resync hnoise hshort hdone)
  have hsplit : irqs w h s (noise ++ wire packets) = irqs w h (irqs w h s noise) (wire packets) :=
    List.foldl_append
  obtain ⟨hpointer, hheld⟩ := irqs_eq_deframe (w := w) (h := h) (wire packets) (irqs w h s noise)
  rw [hsync, deframe_wire hpackets] at hpointer hheld
  refine ⟨(irqs w h s noise).toPointer, noise_moves s hnoise, ?_, ?_⟩
  · rw [hsplit, hpointer, List.foldl_map]
    rfl
  · rw [hsplit, ← held_eq_nil_iff, hheld]

/-- A packet that lost two of its bytes, two bytes of noise, and a packet after a gap. -/
theorem resync_after_loss :
    ∃ p : Pointer, (p = compiled.toPointer ∨ ∃ packet, p = compiled.toPointer.move 640 480 packet) ∧
      (irqs 640 480 (irqs 640 480 compiled [8]) ([1, 2] ++ wire [([4], 9, 5, 253)])).toPointer =
        p.packet 640 480 9 5 253 ∧
      (irqs 640 480 (irqs 640 480 compiled [8])
        ([1, 2] ++ wire [([4], 9, 5, 253)])).mouseByteIdx = 0 :=
  resync_moves (irqs 640 480 compiled [8]) (List.forall_mem_cons.mpr ⟨rfl, by simp; rfl⟩) (by simp)
    (List.forall_mem_singleton.mpr ⟨List.forall_mem_singleton.mpr rfl, rfl⟩)

/-! ## The screen -/

theorem clampTo_mem {size : Int} (hsize : 0 < size) (v : Int) :
    0 ≤ clampTo size v ∧ clampTo size v < size := by
  rw [clampTo]
  split <;> split <;> omega

/-- The pointer is on the screen, or where it was compiled to be. -/
def Placed (w h : Int) (p : Pointer) : Prop :=
  (0 ≤ p.mx ∧ p.mx < w ∧ 0 ≤ p.my ∧ p.my < h) ∨ p = compiled.toPointer

theorem placed_packet (hw : 0 < w) (hh : 0 < h) (p : Pointer) (b0 b1 b2 : UInt8) :
    Placed w h (p.packet w h b0 b1 b2) :=
  .inl ⟨(clampTo_mem hw _).1, (clampTo_mem hw _).2, (clampTo_mem hh _).1, (clampTo_mem hh _).2⟩

theorem placed_irq12C (hw : 0 < w) (hh : 0 < h) {s : Mouse} (hs : Placed w h s.toPointer)
    (data : UInt8) : Placed w h (irq12C w h s data).toPointer := by
  rw [irq12C]
  split
  · exact hs
  · match s.mouseByteIdx with
    | 0 => exact hs
    | 1 => exact hs
    | 2 => exact placed_packet hw hh _ _ _ _

theorem Placed.nonneg {p : Pointer} (hp : Placed w h p) : 0 ≤ p.mx ∧ 0 ≤ p.my := by
  rcases hp with hscreen | hcompiled
  · exact ⟨hscreen.1, hscreen.2.2.1⟩
  · rw [hcompiled]
    decide

end Mouse

/-! ## `doom_get_mouse` -/

/-- The static variables of `doom_get_mouse`. -/
structure DoomMouse where
  oldX : Int
  oldY : Int

/-- The variables as they are compiled in. -/
def DoomMouse.compiled : DoomMouse := ⟨-1, -1⟩

/-- `doom_get_mouse(dx, dy, buttons)`: what it stores through its arguments, and its
variables after it. -/
def doomGetMouse (p : Pointer) (d : DoomMouse) : (Int × Int × UInt8) × DoomMouse :=
  let old : DoomMouse := if d.oldX = -1 then ⟨p.mx, p.my⟩ else d
  ((p.mx - old.oldX, p.my - old.oldY, p.mbuttons), ⟨p.mx, p.my⟩)

/-- What happens while the game runs. -/
inductive MouseEvent where
  | irq (data : UInt8)
  | poll

/-- The mouse, the variables of `doom_get_mouse`, and what it has reported. -/
structure Polled where
  mouse : Mouse
  doom : DoomMouse
  reports : List (Int × Int × UInt8)

namespace Polled

variable {w h : Int}

def step (w h : Int) (s : Polled) : MouseEvent → Polled
  | .irq data => { s with mouse := irq12C w h s.mouse data }
  | .poll =>
      let (report, doom) := doomGetMouse s.mouse.toPointer s.doom
      { s with doom := doom, reports := s.reports ++ [report] }

def steps (w h : Int) (s : Polled) (events : List MouseEvent) : Polled :=
  events.foldl (step w h) s

/-- The bytes among the events. -/
def bytes : List MouseEvent → List UInt8 :=
  List.filterMap fun
    | .irq data => some data
    | .poll => none

/-- Polls do not disturb the mouse. -/
theorem mouse_steps (events : List MouseEvent) : ∀ s : Polled,
    (steps w h s events).mouse = irqs w h s.mouse (bytes events) := by
  induction events with
  | nil => exact fun s => rfl
  | cons e rest ih =>
      intro s
      cases e with
      | irq data => exact ih (step w h s (.irq data))
      | poll => exact ih (step w h s .poll)

/-- What the game adds up from differences it is given. -/
def total : List Int → Int
  | [] => 0
  | d :: rest => d + total rest

theorem total_append (ds : List Int) (d : Int) : total (ds ++ [d]) = total ds + d := by
  induction ds with
  | nil => exact Int.add_comm d 0
  | cons head rest ih => rw [List.cons_append, total, ih, total, Int.add_assoc]

/-- The differences reported since the pointer was at `(x, y)` lead to where it was at the
last poll. -/
structure Tracks (w h x y : Int) (s : Polled) : Prop where
  placed : Mouse.Placed w h s.mouse.toPointer
  known : s.doom.oldX ≠ -1
  sum_x : total (s.reports.map (·.1)) = s.doom.oldX - x
  sum_y : total (s.reports.map (·.2.1)) = s.doom.oldY - y

theorem Tracks.step {x y : Int} {s : Polled} (hw : 0 < w) (hh : 0 < h) (hs : Tracks w h x y s)
    (e : MouseEvent) : Tracks w h x y (step w h s e) := by
  cases e with
  | irq data =>
      exact ⟨Mouse.placed_irq12C hw hh hs.placed data, hs.known, hs.sum_x, hs.sum_y⟩
  | poll =>
      have hpoll : Polled.step w h s .poll =
          ⟨s.mouse, ⟨s.mouse.mx, s.mouse.my⟩, s.reports ++
            [(s.mouse.mx - s.doom.oldX, s.mouse.my - s.doom.oldY, s.mouse.mbuttons)]⟩ := by
        rw [Polled.step, doomGetMouse, if_neg hs.known]
      have hnonneg : 0 ≤ s.mouse.mx := hs.placed.nonneg.1
      rw [hpoll]
      refine ⟨hs.placed, ?_, ?_, ?_⟩
      · show s.mouse.mx ≠ -1
        omega
      · rw [List.map_append, List.map_singleton, total_append, hs.sum_x]
        show s.doom.oldX - x + (s.mouse.mx - s.doom.oldX) = s.mouse.mx - x
        omega
      · rw [List.map_append, List.map_singleton, total_append, hs.sum_y]
        show s.doom.oldY - y + (s.mouse.my - s.doom.oldY) = s.mouse.my - y
        omega

theorem Tracks.steps {x y : Int} (hw : 0 < w) (hh : 0 < h) (events : List MouseEvent) :
    ∀ {s : Polled}, Tracks w h x y s → Tracks w h x y (steps w h s events) := by
  induction events with
  | nil => exact fun hs => hs
  | cons e rest ih => exact fun hs => ih (hs.step hw hh e)

/-- The first poll reports no movement and starts the track. -/
theorem tracks_first {m : Mouse} (hm : Mouse.Placed w h m.toPointer) :
    Tracks w h m.mx m.my (step w h ⟨m, .compiled, []⟩ .poll) := by
  have hpoll : Polled.step w h ⟨m, .compiled, []⟩ .poll =
      ⟨m, ⟨m.mx, m.my⟩, [(0, 0, m.mbuttons)]⟩ := by
    rw [Polled.step, doomGetMouse, DoomMouse.compiled, if_pos rfl]
    simp
  have hnonneg : 0 ≤ m.mx := hm.nonneg.1
  rw [hpoll]
  refine ⟨hm, ?_, ?_, ?_⟩
  · show m.mx ≠ -1
    omega
  · show (0 : Int) + 0 = m.mx - m.mx
    omega
  · show (0 : Int) + 0 = m.my - m.my
    omega

theorem placed_irqs (hw : 0 < w) (hh : 0 < h) (stream : List UInt8) : ∀ {s : Mouse},
    Mouse.Placed w h s.toPointer → Mouse.Placed w h (irqs w h s stream).toPointer := by
  induction stream with
  | nil => exact fun hs => hs
  | cons data rest ih => exact fun hs => ih (Mouse.placed_irq12C hw hh hs data)

/-- The game first polls after some bytes of the mouse.  Whatever interrupts and polls come
then, the differences it is given add up to the way of the pointer between its first and
its last poll, which no poll disturbs and which is on the screen or has not begun. -/
theorem polls_telescope (hw : 0 < w) (hh : 0 < h) (stream : List UInt8)
    (events : List MouseEvent) :
    let start := irqs w h .compiled stream
    let s := steps w h ⟨start, .compiled, []⟩ (.poll :: events ++ [.poll])
    let stop := irqs w h .compiled (stream ++ bytes events)
    s.mouse = stop ∧ Mouse.Placed w h stop.toPointer ∧
      total (s.reports.map (·.1)) = stop.mx - start.mx ∧
      total (s.reports.map (·.2.1)) = stop.my - start.my := by
  intro start s stop
  have hstart : Mouse.Placed w h start.toPointer := placed_irqs hw hh stream (.inr rfl)
  have hstop : stop = irqs w h start (bytes events) := List.foldl_append
  have hs : s = step w h (steps w h (step w h ⟨start, .compiled, []⟩ .poll) events) .poll :=
    List.foldl_append
  have hmouse : s.mouse = stop := by
    rw [hs, hstop]
    exact mouse_steps events _
  have htracks : Tracks w h start.mx start.my s := by
    rw [hs]
    exact ((tracks_first hstart).steps hw hh events).step hw hh .poll
  have hold : s.doom = ⟨s.mouse.mx, s.mouse.my⟩ := by
    rw [hs]
    rfl
  refine ⟨hmouse, hmouse ▸ htracks.placed, ?_, ?_⟩
  · rw [htracks.sum_x, hold, hmouse]
  · rw [htracks.sum_y, hold, hmouse]

/-- Two packets, and a poll after each of their bytes. -/
theorem polls_two_packets :
    (0 : Int) < 640 ∧ (0 : Int) < 480 ∧
      let start := irqs 640 480 .compiled []
      let s := steps 640 480 ⟨start, .compiled, []⟩
        (.poll :: ([8, 127, 0, 8, 127, 0].flatMap fun b => [.irq b, .poll]) ++ [.poll])
      s.mouse.mx = 258 ∧ total (s.reports.map (·.1)) = 258 - 512 := by
  refine ⟨by decide, by decide, ?_⟩
  obtain ⟨hmouse, -, hsum, -⟩ := polls_telescope (w := 640) (h := 480) (by decide) (by decide) []
    ([8, 127, 0, 8, 127, 0].flatMap fun b => [.irq b, .poll])
  refine ⟨?_, hsum.trans ?_⟩
  · rw [hmouse]
    decide
  · decide

end Polled

end FalastinOS.Drivers
