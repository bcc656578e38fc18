/-
  Drivers/Timer.lean --- `timer_sleep` of `timer.c`.

  The tick counter and the time to wait are `uint32_t`.  `timer_sleep` computes the
  counter value it waits for and compares it with the counter, so a product of `ms` and
  `tick_rate` that does not fit, or a counter that is about to wrap around, makes it
  return early.  `sleptLongEnough_iff` says that nothing else does.

  The timer interrupt can come at any time, and any number of times between two tests of
  the loop.
-/
import FalastinOS.Foundation.Execution
import Mathlib.Algebra.Group.Nat.Defs
import Mathlib.Tactic.ByContra

set_option autoImplicit false

namespace FalastinOS.Drivers

open FalastinOS.Foundation

/-- The variables of `timer.c`. -/
structure Timer where
  ticks : UInt32
  tickRate : UInt32

namespace Timer

/-- `irq0_c()`. -/
def irq0 (t : Timer) : Timer := { t with ticks := t.ticks + 1 }

/-- `timer_init(hz)`, but for what it tells the clock chip. -/
def timerInit (t : Timer) (hz : UInt32) : Timer := { t with tickRate := hz }

/-- `target` in `timer_sleep(ms)`. -/
def target (t : Timer) (ms : UInt32) : UInt32 := t.ticks + ms * t.tickRate / 1000

/-- How many ticks `ms` milliseconds are, without overflow. -/
def due (t : Timer) (ms : UInt32) : Nat := ms.toNat * t.tickRate.toNat / 1000

/-- A call of `timer_sleep`. -/
structure Sleeper where
  timer : Timer
  target : UInt32
  /-- increments of `ticks` since the call -/
  increments : Nat
  /-- how many there were when it returned -/
  returned : Option Nat

namespace Sleeper

/-- The interrupt comes, or the loop makes its test. -/
inductive Event where
  | irq
  | test

/-- The call begins. -/
def begin (t : Timer) (ms : UInt32) : Sleeper := ⟨t, t.target ms, 0, none⟩

/-- `while (ticks < target)`: the first test that fails ends the call. -/
def test (s : Sleeper) : Sleeper :=
  if s.returned = none ∧ ¬ s.timer.ticks < s.target then
    { s with returned := some s.increments }
  else s

def step (s : Sleeper) : Event → Except Empty Sleeper
  | .irq => .ok { s with timer := s.timer.irq0, increments := s.increments + 1 }
  | .test => .ok s.test

/-- If the call has returned, then not before `due` increments. -/
def SleptLongEnough (due : Nat) (s : Sleeper) : Prop := ∀ n, s.returned = some n → due ≤ n

/-! ## Enough -/

theorem toNat_irq0 (t : Timer) : t.irq0.ticks.toNat = (t.ticks.toNat + 1) % 2 ^ 32 :=
  UInt32.toNat_add t.ticks 1

theorem toNat_target (t : Timer) (ms : UInt32) : (t.target ms).toNat =
    (t.ticks.toNat + ms.toNat * t.tickRate.toNat % 2 ^ 32 / 1000) % 2 ^ 32 := by
  rw [Timer.target, UInt32.toNat_add, UInt32.toNat_div, UInt32.toNat_mul]
  rfl

/-- A call that waits for `target`, which is `due` ticks after `start`. -/
structure Waits (start due : Nat) (s : Sleeper) : Prop where
  target : s.target.toNat = start + due
  ticks : s.timer.ticks.toNat = (start + s.increments) % 2 ^ 32
  slept : s.SleptLongEnough due

theorem Waits.step {start due : Nat} {s s' : Sleeper} {e : Event} (h : Waits start due s)
    (hstep : s.step e = .ok s') : Waits start due s' := by
  have htarget := h.target
  have hticks := h.ticks
  cases e with
  | irq =>
      obtain rfl := Except.ok.inj hstep
      refine ⟨htarget, ?_, h.slept⟩
      simp only [toNat_irq0]
      omega
  | test =>
      obtain rfl := Except.ok.inj hstep
      rw [test]
      split
      · rename_i hends
        refine ⟨htarget, hticks, fun n hn => ?_⟩
        obtain rfl := Option.some.inj hn
        have hreached := hends.2
        rw [UInt32.lt_iff_toNat_lt] at hreached
        have hfits := s.target.toNat_lt
        -- Before that the counter has not wrapped around.
        by_contra hearly
        omega
      · exact h

/-! ## Too early -/

/-- Some interrupts come, and then the loop makes a test. -/
def after (k : Nat) : List Event := List.replicate k .irq ++ [.test]

theorem run_replicate (k : Nat) : ∀ s : Sleeper, ∃ s', run step s (List.replicate k .irq) = .ok s' ∧
    s'.timer.ticks.toNat = (s.timer.ticks.toNat + k) % 2 ^ 32 ∧ s'.target = s.target ∧
    s'.increments = s.increments + k ∧ s'.returned = s.returned := by
  induction k with
  | zero =>
      intro s
      have hlt := s.timer.ticks.toNat_lt
      exact ⟨s, rfl, by omega, rfl, rfl, rfl⟩
  | succ k ih =>
      intro s
      obtain ⟨s', hrun, hticks, htarget, hincrements, hreturned⟩ :=
        ih { s with timer := s.timer.irq0, increments := s.increments + 1 }
      refine ⟨s', hrun, ?_, htarget, ?_, hreturned⟩
      · rw [hticks, toNat_irq0]
        omega
      · rw [hincrements, Nat.add_assoc, Nat.add_comm 1 k]

/-- The call returns after `k` increments if the counter is not below the target then. -/
theorem run_after (t : Timer) (ms : UInt32) {k : Nat}
    (h : (t.target ms).toNat ≤ (t.ticks.toNat + k) % 2 ^ 32) :
    ∃ s, run step (begin t ms) (after k) = .ok s ∧ s.returned = some k := by
  obtain ⟨s, hrun, hticks, htarget, hincrements, hreturned⟩ := run_replicate k (begin t ms)
  refine ⟨s.test, (run_append hrun [.test]).trans rfl, ?_⟩
  have hreached : ¬ s.timer.ticks < s.target := by
    rw [UInt32.lt_iff_toNat_lt, hticks, htarget]
    exact Nat.not_lt.mpr h
  rw [test, if_pos ⟨hreturned, hreached⟩, hincrements]
  exact congrArg some (Nat.zero_add k)

/-- For every value of the counter and every `ms`, the call waits long enough whenever the
interrupts come exactly if neither the product nor the sum overflows. -/
theorem sleptLongEnough_iff (t : Timer) (ms : UInt32) :
    (∀ events, Along step (SleptLongEnough (t.due ms)) (begin t ms) events) ↔
      ms.toNat * t.tickRate.toNat < 2 ^ 32 ∧ t.ticks.toNat + t.due ms < 2 ^ 32 := by
  have htarget := toNat_target t ms
  have hticks := t.ticks.toNat_lt
  constructor
  · intro hall
    -- A return after fewer increments than are due.
    have hnever : ∀ k, k < t.due ms → ¬ (t.target ms).toNat ≤ (t.ticks.toNat + k) % 2 ^ 32 := by
      intro k hk hreached
      obtain ⟨s, hrun, hreturned⟩ := run_after t ms hreached
      exact absurd ((hall (after k)).last hrun k hreturned) (Nat.not_le.mpr hk)
    have hproduct : ms.toNat * t.tickRate.toNat < 2 ^ 32 := by
      by_contra hlarge
      by_cases hwraps : t.ticks.toNat + ms.toNat * t.tickRate.toNat % 2 ^ 32 / 1000 < 2 ^ 32
      · refine hnever (ms.toNat * t.tickRate.toNat % 2 ^ 32 / 1000) ?_ ?_
        · rw [due]
          omega
        · exact Nat.le_of_eq htarget
      · refine hnever 0 ?_ ?_
        · rw [due]
          omega
        · omega
    refine ⟨hproduct, ?_⟩
    by_contra hwraps
    rw [Nat.mod_eq_of_lt hproduct] at htarget
    refine hnever 0 ?_ ?_
    · omega
    · rw [due] at hwraps
      omega
  · rintro ⟨hproduct, hsum⟩ events
    rw [Nat.mod_eq_of_lt hproduct] at htarget
    have hwaits : Waits t.ticks.toNat (t.due ms) (begin t ms) := by
      refine ⟨htarget.trans (Nat.mod_eq_of_lt hsum), ?_, fun n hn => nomatch hn⟩
      exact (Nat.mod_eq_of_lt hticks).symm
    exact (along_of_invariant (fun _ _ _ h hstep => Waits.step h hstep) hwaits events).mono
      fun _ h => h.slept

/-- The clock of the kernel, 100 ticks a second, just before the counter wraps around. -/
def lastTick : Timer := timerInit ⟨0xFFFFFFFF, 0⟩ 100

/-- A sleep of 10 milliseconds, one tick, returns at once. -/
theorem returns_early_lastTick :
    lastTick.due 10 = 1 ∧
      ¬ Along step (SleptLongEnough (lastTick.due 10)) (begin lastTick 10) (after 0) := by
  refine ⟨by decide, fun hall => ?_⟩
  obtain ⟨s, hrun, hreturned⟩ := run_after lastTick 10 (k := 0) (by decide)
  exact absurd (hall.last hrun 0 hreturned) (by decide)

end Sleeper

end Timer

end FalastinOS.Drivers
