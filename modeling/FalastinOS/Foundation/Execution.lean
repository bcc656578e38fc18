/-
  Foundation/Execution.lean --- runs of a fallible step function.

  A system is a function `step : σ → ι → Except ε σ`.  A run feeds it a list of
  inputs; an error ends the run, because a state after an error is not one the
  program is answerable for.  Three notions are needed about a run:

      Along step P s inputs       P holds in s and in every state the run passes
      Guarded step G s inputs     G holds at every step that the run completes
      Attempted step G s inputs   G holds at every step that the run attempts

  `along_of_invariant` is the usual invariant rule and `along_of_guarded` the one
  with a guard on the steps.
  `along_iff_of_invariant` and `along_iff_guarded` are the exact versions: when a
  step takes a good state to a good state exactly if its guard holds, a run is
  good throughout exactly if all its completed steps are guarded.

  The last section is about loops whose rounds could fail and do not: they compute what
  the same loop without failures computes.
-/
import Mathlib.Data.List.ProdSigma

set_option autoImplicit false

namespace FalastinOS.Foundation

variable {σ ι ε : Type}

/-- A computation that starts with a result. -/
theorem ok_bind {α β : Type} (a : α) (f : α → Except ε β) :
    ((Except.ok a : Except ε α) >>= f) = f a := rfl

/-- A computation that starts with an error. -/
theorem error_bind {α β : Type} (e : ε) (f : α → Except ε β) :
    ((Except.error e : Except ε α) >>= f) = .error e := rfl

/-- A computation that ends in a result passed one on the way. -/
theorem exists_of_bind_ok {α β : Type} {x : Except ε α} {f : α → Except ε β} {b : β}
    (h : (x >>= f) = .ok b) : ∃ a, x = .ok a ∧ f a = .ok b := by
  cases x with
  | error e => exact nomatch h
  | ok a => exact ⟨a, rfl, h⟩

/-- Feed a list of inputs to the step function, stopping at the first error. -/
def run (step : σ → ι → Except ε σ) : σ → List ι → Except ε σ
  | s, [] => .ok s
  | s, i :: rest =>
      match step s i with
      | .error e => .error e
      | .ok s' => run step s' rest

/-- A run that succeeds begins with a step that does. -/
theorem run_cons_ok {step : σ → ι → Except ε σ} {s s' : σ} {i : ι} {rest : List ι}
    (h : run step s (i :: rest) = .ok s') :
    ∃ next, step s i = .ok next ∧ run step next rest = .ok s' := by
  rw [run] at h
  cases hstep : step s i with
  | error e =>
      rw [hstep] at h
      exact nomatch h
  | ok next =>
      rw [hstep] at h
      exact ⟨next, rfl, h⟩

/-- One run after another. -/
theorem run_append {step : σ → ι → Except ε σ} {s s' : σ} {first : List ι}
    (h : run step s first = .ok s') (second : List ι) :
    run step s (first ++ second) = run step s' second := by
  induction first generalizing s with
  | nil =>
      obtain rfl := Except.ok.inj h
      rfl
  | cons i rest ih =>
      obtain ⟨next, hstep, hrest⟩ := run_cons_ok h
      rw [List.cons_append, run, hstep]
      exact ih hrest

/-- A run of which the end was observed ends somewhere. -/
theorem exists_run_of_map {α : Type} {step : σ → ι → Except ε σ} {s : σ} {inputs : List ι}
    {g : σ → α} {a : α} (h : (run step s inputs).toOption.map g = some a) :
    ∃ s', run step s inputs = .ok s' ∧ g s' = a := by
  cases hrun : run step s inputs with
  | error e =>
      rw [hrun] at h
      exact nomatch h
  | ok s' =>
      rw [hrun] at h
      exact ⟨s', rfl, Option.some.inj h⟩

/-- Steps that succeed inside an invariant and keep it make runs that succeed. -/
theorem exists_run_of_invariant {step : σ → ι → Except ε σ} {I : σ → Prop}
    (keep : ∀ s i, I s → ∃ s', step s i = .ok s' ∧ I s') {s : σ} (hs : I s) (inputs : List ι) :
    ∃ s', run step s inputs = .ok s' := by
  induction inputs generalizing s with
  | nil => exact ⟨s, rfl⟩
  | cons i rest ih =>
      obtain ⟨next, hstep, hnext⟩ := keep s i hs
      obtain ⟨s', hrun⟩ := ih hnext
      refine ⟨s', ?_⟩
      rw [run, hstep]
      exact hrun

/-- `P` holds in the first state of the run and in every state it passes. -/
def Along (step : σ → ι → Except ε σ) (P : σ → Prop) : σ → List ι → Prop
  | s, [] => P s
  | s, i :: rest => P s ∧ ∀ s', step s i = .ok s' → Along step P s' rest

/-- `G` holds at every step that the run completes. -/
def Guarded (step : σ → ι → Except ε σ) (G : σ → ι → Prop) : σ → List ι → Prop
  | _, [] => True
  | s, i :: rest => ∀ s', step s i = .ok s' → G s i ∧ Guarded step G s' rest

/-- `G` holds at every step that the run attempts, the one that fails included. -/
def Attempted (step : σ → ι → Except ε σ) (G : σ → ι → Prop) : σ → List ι → Prop
  | _, [] => True
  | s, i :: rest => G s i ∧ ∀ s', step s i = .ok s' → Attempted step G s' rest

theorem Along.head {step : σ → ι → Except ε σ} {P : σ → Prop} {s : σ} {inputs : List ι}
    (h : Along step P s inputs) : P s := by
  cases inputs with
  | nil => exact h
  | cons i rest => exact h.1

/-- What holds along a run holds where it ends. -/
theorem Along.last {step : σ → ι → Except ε σ} {P : σ → Prop} {s s' : σ} {inputs : List ι}
    (h : Along step P s inputs) (hrun : run step s inputs = .ok s') : P s' := by
  induction inputs generalizing s with
  | nil =>
      obtain rfl := Except.ok.inj hrun
      exact h
  | cons i rest ih =>
      obtain ⟨next, hstep, hrest⟩ := run_cons_ok hrun
      exact ih (h.2 next hstep) hrest

theorem Along.mono {step : σ → ι → Except ε σ} {P Q : σ → Prop} (hPQ : ∀ s, P s → Q s) {s : σ}
    {inputs : List ι} (h : Along step P s inputs) : Along step Q s inputs := by
  induction inputs generalizing s with
  | nil => exact hPQ s h
  | cons i rest ih => exact ⟨hPQ s h.1, fun s' hstep => ih (h.2 s' hstep)⟩

/-- What holds at every step that is attempted holds at the one after a part of the run. -/
theorem Attempted.at_end {step : σ → ι → Except ε σ} {G : σ → ι → Prop} {s s' : σ}
    {first : List ι} {i : ι} (h : Attempted step G s (first ++ [i]))
    (hrun : run step s first = .ok s') : G s' i := by
  induction first generalizing s with
  | nil =>
      obtain rfl := Except.ok.inj hrun
      exact h.1
  | cons j rest ih =>
      obtain ⟨next, hstep, hrest⟩ := run_cons_ok hrun
      exact ih (h.2 next hstep) hrest

/-- Two conditions that agree at every step from inside an invariant agree on runs. -/
theorem attempted_congr_of_invariant {step : σ → ι → Except ε σ} {I : σ → Prop}
    {G H : σ → ι → Prop} (keep : ∀ s i s', I s → step s i = .ok s' → I s')
    (h : ∀ s i, I s → (G s i ↔ H s i)) {s : σ} (hs : I s) (inputs : List ι) :
    Attempted step G s inputs ↔ Attempted step H s inputs := by
  induction inputs generalizing s with
  | nil => exact Iff.rfl
  | cons i rest ih =>
      constructor
      · exact fun hG => ⟨(h s i hs).mp hG.1,
          fun s' hstep => (ih (keep s i s' hs hstep)).mp (hG.2 s' hstep)⟩
      · exact fun hH => ⟨(h s i hs).mpr hH.1,
          fun s' hstep => (ih (keep s i s' hs hstep)).mpr (hH.2 s' hstep)⟩

/-- Two conditions that agree at every step agree on runs. -/
theorem attempted_congr {step : σ → ι → Except ε σ} {G H : σ → ι → Prop}
    (h : ∀ s i, G s i ↔ H s i) (s : σ) (inputs : List ι) :
    Attempted step G s inputs ↔ Attempted step H s inputs :=
  attempted_congr_of_invariant (I := fun _ => True) (fun _ _ _ _ _ => trivial)
    (fun s i _ => h s i) trivial inputs

/-- An invariant kept by every step holds along every run. -/
theorem along_of_invariant {step : σ → ι → Except ε σ} {I : σ → Prop}
    (keep : ∀ s i s', I s → step s i = .ok s' → I s') {s : σ} (hs : I s) (inputs : List ι) :
    Along step I s inputs := by
  induction inputs generalizing s with
  | nil => exact hs
  | cons i rest ih => exact ⟨hs, fun s' hstep => ih (keep s i s' hs hstep)⟩

/-- What holds at every step from inside an invariant holds at every step of a run. -/
theorem attempted_of_invariant {step : σ → ι → Except ε σ} {I : σ → Prop} {G : σ → ι → Prop}
    (keep : ∀ s i s', I s → step s i = .ok s' → I s') (h : ∀ s i, I s → G s i) {s : σ} (hs : I s)
    (inputs : List ι) : Attempted step G s inputs := by
  induction inputs generalizing s with
  | nil => trivial
  | cons i rest ih => exact ⟨h s i hs, fun s' hstep => ih (keep s i s' hs hstep)⟩

/-- The invariant rule: an invariant kept by every guarded step holds along a
guarded run. -/
theorem along_of_guarded {step : σ → ι → Except ε σ} {I : σ → Prop} {G : σ → ι → Prop}
    (keep : ∀ s i s', I s → G s i → step s i = .ok s' → I s') {s : σ} {inputs : List ι}
    (hs : I s) (hguard : Guarded step G s inputs) : Along step I s inputs := by
  induction inputs generalizing s with
  | nil => exact hs
  | cons i rest ih =>
      refine ⟨hs, fun s' hstep => ?_⟩
      obtain ⟨hG, hrest⟩ := hguard s' hstep
      exact ih (keep s i s' hs hG hstep) hrest

/-- The exact rule.  `I` is an invariant of the guarded steps and gives `P`; an unguarded
step from inside it ends outside `P`. -/
theorem along_iff_of_invariant {step : σ → ι → Except ε σ} {I P : σ → Prop}
    {G : σ → ι → Prop} (sound : ∀ s, I s → P s)
    (keep : ∀ s i s', I s → G s i → step s i = .ok s' → I s')
    (guard : ∀ s i s', I s → step s i = .ok s' → P s' → G s i)
    {s : σ} {inputs : List ι} (hs : I s) :
    Along step P s inputs ↔ Guarded step G s inputs := by
  induction inputs generalizing s with
  | nil => exact ⟨fun _ => trivial, fun _ => sound s hs⟩
  | cons i rest ih =>
      constructor
      · intro hAlong s' hstep
        have hrest := hAlong.2 s' hstep
        have hG : G s i := guard s i s' hs hstep hrest.head
        exact ⟨hG, (ih (keep s i s' hs hG hstep)).mp hrest⟩
      · intro hGuard
        refine ⟨sound s hs, fun s' hstep => ?_⟩
        obtain ⟨hG, hrest⟩ := hGuard s' hstep
        exact (ih (keep s i s' hs hG hstep)).mpr hrest

/-- The exact rule for a property that is kept by exactly the guarded steps.  `J` is an
invariant of every run. -/
theorem along_iff_guarded {step : σ → ι → Except ε σ} {J P : σ → Prop} {G : σ → ι → Prop}
    (keep : ∀ s i s', J s → step s i = .ok s' → J s')
    (exact' : ∀ s i s', J s → P s → step s i = .ok s' → (P s' ↔ G s i))
    {s : σ} {inputs : List ι} (hJ : J s) (hP : P s) :
    Along step P s inputs ↔ Guarded step G s inputs := by
  refine along_iff_of_invariant (I := fun s => J s ∧ P s) (fun s h => h.2) ?_ ?_ ⟨hJ, hP⟩
  · intro s i s' h hG hstep
    exact ⟨keep s i s' h.1 hstep, (exact' s i s' h.1 h.2 hstep).mpr hG⟩
  · intro s i s' h hstep hP'
    exact (exact' s i s' h.1 h.2 hstep).mp hP'

/-! ## Loops that do not fail -/

section Loops

variable {α β : Type}

theorem foldlM_ok {body : σ → α → Except ε σ} {effect : σ → α → σ} {xs : List α}
    (h : ∀ s, ∀ x ∈ xs, body s x = .ok (effect s x)) (s : σ) :
    xs.foldlM body s = .ok (xs.foldl effect s) := by
  induction xs generalizing s with
  | nil => rfl
  | cons x rest ih =>
      rw [List.foldlM_cons, h s x List.mem_cons_self, ok_bind, List.foldl_cons]
      exact ih (fun s y hy => h s y (List.mem_cons_of_mem _ hy)) _

/-- Two nested loops are one loop over the pairs. -/
theorem foldlM_nested_ok {ys : List α} {xs : List β} {body : σ → α × β → Except ε σ}
    {effect : σ → α × β → σ} (h : ∀ s, ∀ c ∈ ys ×ˢ xs, body s c = .ok (effect s c)) (s : σ) :
    ys.foldlM (fun s y => xs.foldlM (fun s x => body s (y, x)) s) s =
      .ok ((ys ×ˢ xs).foldl effect s) := by
  have hrow : ∀ s, ∀ y ∈ ys, xs.foldlM (fun s x => body s (y, x)) s =
      .ok (xs.foldl (fun s x => effect s (y, x)) s) := by
    intro s y hy
    exact foldlM_ok (fun s x hx => h s (y, x) (List.mem_product.mpr ⟨hy, hx⟩)) s
  have hflat : ys ×ˢ xs = ys.flatMap fun y => xs.map (Prod.mk y) := rfl
  rw [foldlM_ok hrow, hflat, List.foldl_flatMap]
  simp only [List.foldl_map]

end Loops

end FalastinOS.Foundation
