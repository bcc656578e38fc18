/-
  Foundation/Device.lean --- programs that ask a device, and two devices that answer alike.

  A program puts questions and goes on with the answers; a device is a state and an answer
  to every question.  `Asks.run` runs the one against the other.

  A device that is modelled twice, once as it is and once with a list of choices that
  settle what it leaves open, gives the same runs: if every question can be answered alike
  for some choice, then every program runs alike for some choices (`Mirrors.run`).  The
  choices are found along the run of the first device, whatever the second one is.
-/
import Mathlib.Data.List.Basic

set_option autoImplicit false

namespace FalastinOS.Foundation

variable {Q A R S σ τ B : Type}

/-- A program that puts questions to a device. -/
inductive Asks (Q A R : Type) where
  | done (r : R)
  | ask (q : Q) (next : A → Asks Q A R)

namespace Asks

/-- One program and then another. -/
def bind : Asks Q A R → (R → Asks Q A S) → Asks Q A S
  | done r, f => f r
  | ask q next, f => ask q fun a => (next a).bind f

/-- A program with its result changed. -/
def map (f : R → S) (p : Asks Q A R) : Asks Q A S := p.bind fun r => done (f r)

/-- The program on a device. -/
def run (device : Q → σ → A × σ) : Asks Q A R → σ → R × σ
  | done r, s => (r, s)
  | ask q next, s => (next (device q s).1).run device (device q s).2

variable {device : Q → σ → A × σ}

theorem run_bind (p : Asks Q A R) (f : R → Asks Q A S) (s : σ) :
    (p.bind f).run device s = (f (p.run device s).1).run device (p.run device s).2 := by
  induction p generalizing s with
  | done r => rfl
  | ask q next ih => exact ih (device q s).1 (device q s).2

/-- What every answer keeps, a program keeps. -/
theorem run_keeps {I : σ → Prop} (h : ∀ q s, I s → I (device q s).2) (p : Asks Q A R) :
    ∀ {s : σ}, I s → I (p.run device s).2 := by
  induction p with
  | done r => exact fun hs => hs
  | ask q next ih => exact fun hs => ih _ (h q _ hs)

theorem run_map (f : R → S) (p : Asks Q A R) (s : σ) :
    (p.map f).run device s = (f (p.run device s).1, (p.run device s).2) := run_bind p _ s

end Asks

/-- Two devices, of which the second one follows a list of choices: one choice for every
answer of the first makes it give the same.  When the first one is calm it stays so, and the
choices are good ones. -/
structure Mirrors (device : Q → σ → A × σ) (mirror : Q → τ → A × τ) (Rel : σ → τ → List B → Prop)
    (Calm : σ → Prop) (Good : B → Prop) : Prop where
  calm : ∀ q s, Calm s → Calm (device q s).2
  answer : ∀ q s, ∃ b, (Calm s → Good b) ∧ ∀ t bs, Rel s t (b :: bs) →
    (device q s).1 = (mirror q t).1 ∧ Rel (device q s).2 (mirror q t).2 bs

/-- Programs run alike on such devices. -/
theorem Mirrors.run {device : Q → σ → A × σ} {mirror : Q → τ → A × τ}
    {Rel : σ → τ → List B → Prop} {Calm : σ → Prop} {Good : B → Prop}
    (h : Mirrors device mirror Rel Calm Good) (p : Asks Q A R) :
    ∀ s : σ, ∃ choices : List B, (Calm s → ∀ b ∈ choices, Good b) ∧ ∀ t bs,
      Rel s t (choices ++ bs) →
        (p.run device s).1 = (p.run mirror t).1 ∧ Rel (p.run device s).2 (p.run mirror t).2 bs := by
  induction p with
  | done r =>
      intro s
      exact ⟨[], fun _ b hb => absurd hb List.not_mem_nil, fun t bs hrel => ⟨rfl, hrel⟩⟩
  | ask q next ih =>
      intro s
      obtain ⟨b, hb, hanswer⟩ := h.answer q s
      obtain ⟨choices, hchoices, hrun⟩ := ih (device q s).1 (device q s).2
      refine ⟨b :: choices, fun hcalm => ?_, fun t bs hrel => ?_⟩
      · rw [List.forall_mem_cons]
        exact ⟨hb hcalm, hchoices (h.calm q s hcalm)⟩
      · obtain ⟨hsame, hnext⟩ := hanswer t (choices ++ bs) hrel
        rw [Asks.run, Asks.run, ← hsame]
        exact hrun _ _ hnext

end FalastinOS.Foundation
