/-
  Foundation/PortIo.lean --- programs that talk to devices through ports.

  A bus says what reading and writing a port does to the devices on it, whatever they
  are: their state is the type `σ`.  A driver is a program in `StateM σ` that is given a
  bus, so the same driver text runs against any device.

      Ensures P prog Q    started where P holds, the program ends where Q holds
                          of its result and the state

  Two shapes of loop occur in drivers.  `pollFor` reads a register until the answer is
  one to stop at, for a bounded number of rounds; `ensures_pollFor` says that it stops
  with such an answer or not at all.  `forEach` moves a block of data, one item a round;
  `ensures_forEach` is its invariant rule.

  Nothing here mentions a particular device.
-/
import Mathlib.Data.List.Basic

set_option autoImplicit false

namespace FalastinOS.Foundation

variable {σ α β γ : Type}

/-- The ports of a machine, on devices in state `σ`. -/
structure Bus (σ : Type) where
  inb : UInt16 → StateM σ UInt8
  outb : UInt16 → UInt8 → StateM σ Unit
  inw : UInt16 → StateM σ UInt16
  outw : UInt16 → UInt16 → StateM σ Unit
  inl : UInt16 → StateM σ UInt32
  outl : UInt16 → UInt32 → StateM σ Unit

/-- Started where `P` holds, the program ends where `Q` holds of its result and the state. -/
def Ensures (P : σ → Prop) (prog : StateM σ α) (Q : α → σ → Prop) : Prop :=
  ∀ s, P s → Q (prog.run s).1 (prog.run s).2

/-! ## The rules -/

theorem ensures_pure {P : σ → Prop} {Q : α → σ → Prop} {a : α} (h : ∀ s, P s → Q a s) :
    Ensures P (pure a) Q := h

theorem ensures_bind {P : σ → Prop} {M : α → σ → Prop} {Q : β → σ → Prop} {prog : StateM σ α}
    {next : α → StateM σ β} (hprog : Ensures P prog M) (hnext : ∀ a, Ensures (M a) (next a) Q) :
    Ensures P (prog >>= next) Q :=
  fun s hs => hnext _ _ (hprog s hs)

theorem Ensures.mono {P P' : σ → Prop} {Q Q' : α → σ → Prop} {prog : StateM σ α}
    (h : Ensures P prog Q) (hP : ∀ s, P' s → P s) (hQ : ∀ a s, Q a s → Q' a s) :
    Ensures P' prog Q' :=
  fun s hs => hQ _ _ (h s (hP s hs))

/-- A fact that does not depend on the state. -/
theorem ensures_fact {P : σ → Prop} {Q : α → σ → Prop} {prog : StateM σ α} {φ : Prop}
    (h : φ → Ensures P prog Q) : Ensures (fun s => P s ∧ φ) prog Q :=
  fun s hs => h hs.2 s hs.1

/-- A family of ways to start. -/
theorem ensures_exists {ι : Type} {P : ι → σ → Prop} {Q : α → σ → Prop} {prog : StateM σ α}
    (h : ∀ i, Ensures (P i) prog Q) : Ensures (fun s => ∃ i, P i s) prog Q :=
  fun s ⟨i, hi⟩ => h i s hi

theorem Ensures.and {P : σ → Prop} {Q R : α → σ → Prop} {prog : StateM σ α}
    (hQ : Ensures P prog Q) (hR : Ensures P prog R) : Ensures P prog fun a s => Q a s ∧ R a s :=
  fun s hs => ⟨hQ s hs, hR s hs⟩

/-- A program that starts in one of two ways. -/
theorem ensures_ite {P : σ → Prop} {Q : α → σ → Prop} {c : Prop} [Decidable c]
    {yes no : StateM σ α} (hyes : c → Ensures P yes Q) (hno : ¬ c → Ensures P no Q) :
    Ensures P (if c then yes else no) Q := by
  split
  next hc => exact hyes hc
  next hc => exact hno hc

/-! ## Polling -/

/-- Up to `n` rounds: read, end with what `stop` makes of the answer, or pause and go on.
`none` after the last round. -/
def pollFor (read : StateM σ α) (stop : α → Option β) (pause : StateM σ Unit) :
    Nat → StateM σ (Option β)
  | 0 => pure none
  | n + 1 => do
      match stop (← read) with
      | some b => pure (some b)
      | none =>
          pause
          pollFor read stop pause n

/-- Polling keeps what reading and pausing keep, and an answer it ends with comes from the
last reading. -/
theorem ensures_pollFor {I : σ → Prop} {Q : β → σ → Prop} {read : StateM σ α}
    {stop : α → Option β} {pause : StateM σ Unit}
    (hread : Ensures I read fun a s => I s ∧ ∀ b, stop a = some b → Q b s)
    (hpause : Ensures I pause fun _ s => I s) (n : Nat) :
    Ensures I (pollFor read stop pause n) fun r s => I s ∧ ∀ b, r = some b → Q b s := by
  induction n with
  | zero => exact fun s hs => ⟨hs, fun b h => absurd h.symm (Option.some_ne_none b)⟩
  | succ n ih =>
      refine ensures_bind hread fun a => ?_
      cases hstop : stop a with
      | some b =>
          refine ensures_pure fun s hs => ⟨hs.1, fun b' h => ?_⟩
          exact hs.2 b' h
      | none => exact ensures_bind (hpause.mono (fun s hs => hs.1) fun _ _ hs => hs) fun _ => ih

/-- When every answer is one to stop at, polling ends with the first. -/
theorem ensures_pollFor_answered {I : σ → Prop} {Q : β → σ → Prop} {read : StateM σ α}
    {stop : α → Option β} (pause : StateM σ Unit)
    (hread : Ensures I read fun a s => ∃ b, stop a = some b ∧ Q b s) (n : Nat) :
    Ensures I (pollFor read stop pause (n + 1)) fun r s => ∃ b, r = some b ∧ Q b s := by
  refine ensures_bind hread fun a => ?_
  cases hstop : stop a with
  | none => exact fun s hs => absurd hs.choose_spec.1.symm (Option.some_ne_none _)
  | some b =>
      refine ensures_pure fun s ⟨b', hb, hQ⟩ => ⟨b', ?_, hQ⟩
      exact hb

/-! ## Blocks -/

/-- The rounds of a counting loop from `first` on, `n` of them, each adding to what the
earlier ones left. -/
def forEach (body : Nat → γ → StateM σ γ) : Nat → Nat → γ → StateM σ γ
  | _, 0, acc => pure acc
  | first, n + 1, acc => do
      let next ← body first acc
      forEach body (first + 1) n next

/-- The invariant rule: `I i` holds before round `i`. -/
theorem ensures_forEach {I : Nat → γ → σ → Prop} {body : Nat → γ → StateM σ γ} {last : Nat}
    (hbody : ∀ i acc, i < last → Ensures (I i acc) (body i acc) (I (i + 1))) (n : Nat) :
    ∀ first acc, first + n = last → Ensures (I first acc) (forEach body first n acc) (I last) := by
  induction n with
  | zero =>
      rintro first acc rfl
      exact fun s hs => hs
  | succ n ih =>
      intro first acc hlast
      refine ensures_bind (hbody first acc (by omega)) fun next => ?_
      exact ih (first + 1) next (by omega)

/-! ## Registers -/

/-- What holds of the 256 values of a register of eight bits holds of every byte. -/
theorem forall_byte {P : UInt8 → Prop} (h : ∀ v : Fin 256, P (UInt8.ofFin v)) (v : UInt8) : P v :=
  h v.toFin

end FalastinOS.Foundation
