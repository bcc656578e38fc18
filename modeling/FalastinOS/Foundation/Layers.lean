/-
  Foundation/Layers.lean --- pictures that are painted layer over layer.

  A picture gives every point a colour, a layer only the points it covers.  A program that
  paints is a state transformer that may fail; `Paints prog layers` says that it does not
  fail and what it leaves is the old picture under these layers.  Programs that paint
  compose as their lists of layers do (`Paints.bind`, `paints_forM`), so a long program is
  read off as a list.

  What such a program leaves depends on the old picture only where no layer is:
  `paint_congr`.
-/
import Mathlib.Data.List.Basic

set_option autoImplicit false

namespace FalastinOS.Foundation

variable {P C : Type}

/-- The colours a layer gives to the points it covers. -/
abbrev Layer (P C : Type) : Type := P → Option C

/-- A layer of one colour over a part of the points. -/
def region (R : P → Prop) [DecidablePred R] (c : C) : Layer P C := fun p =>
  if R p then some c else none

/-- A picture under a layer. -/
def Layer.over (l : Layer P C) (picture : P → C) : P → C := fun p => (l p).getD (picture p)

/-- A picture under layers, of which the first one is the lowest. -/
def paint (layers : List (Layer P C)) (picture : P → C) : P → C :=
  layers.foldl (fun picture l => l.over picture) picture

/-- All layers as one. -/
def flatten : List (Layer P C) → Layer P C
  | [] => fun _ => none
  | l :: above => fun p => (flatten above p).or (l p)

section

variable {layers layers' : List (Layer P C)} {picture picture' : P → C} {p : P}

theorem paint_append (layers layers' : List (Layer P C)) (picture : P → C) :
    paint (layers ++ layers') picture = paint layers' (paint layers picture) := List.foldl_append

/-- The layers over a picture are one layer over it. -/
theorem paint_eq_flatten (layers : List (Layer P C)) (picture : P → C) (p : P) :
    paint layers picture p = (flatten layers p).getD (picture p) := by
  induction layers generalizing picture with
  | nil => rfl
  | cons l above ih =>
      show paint above (l.over picture) p = ((flatten above p).or (l p)).getD (picture p)
      rw [ih, Layer.over]
      cases flatten above p <;> rfl

/-- A point has a colour of its own if a layer covers it. -/
theorem flatten_isSome_iff : (flatten layers p).isSome ↔ ∃ l ∈ layers, (l p).isSome := by
  induction layers with
  | nil =>
      refine ⟨fun h => absurd h Bool.false_ne_true, ?_⟩
      rintro ⟨l, hl, _⟩
      exact absurd hl List.not_mem_nil
  | cons l above ih =>
      rw [flatten, Option.isSome_or, Bool.or_eq_true, ih, List.exists_mem_cons_iff]
      exact or_comm

/-- Under a layer the old picture does not matter. -/
theorem paint_congr (h : (∃ l ∈ layers, (l p).isSome) ∨ picture p = picture' p) :
    paint layers picture p = paint layers picture' p := by
  rw [paint_eq_flatten, paint_eq_flatten]
  rcases h with hcovered | hsame
  · obtain ⟨c, hc⟩ := Option.isSome_iff_exists.mp (flatten_isSome_iff.mpr hcovered)
    rw [hc, Option.getD_some, Option.getD_some]
  · rw [hsame]

/-- Where no layer is, the old picture is seen. -/
theorem paint_of_uncovered (h : ∀ l ∈ layers, l p = none) : paint layers picture p = picture p := by
  have hnone : flatten layers p = none := by
    rw [← Option.not_isSome_iff_eq_none, flatten_isSome_iff]
    rintro ⟨l, hl, hsome⟩
    rw [h l hl] at hsome
    exact Bool.false_ne_true hsome
  rw [paint_eq_flatten, hnone, Option.getD_none]

/-- Of layers that do not overlap a point sees only its own. -/
theorem paint_of_unique {ι : Type} {layer : ι → Layer P C} {items : List ι} {i : ι}
    (hi : i ∈ items) (hother : ∀ j ∈ items, j ≠ i → layer j p = none) :
    paint (items.map layer) picture p = (layer i p).getD (picture p) := by
  rw [paint_eq_flatten]
  congr 1
  induction items with
  | nil => exact absurd hi List.not_mem_nil
  | cons j rest ih =>
      rw [List.forall_mem_cons] at hother
      show (flatten (rest.map layer) p).or (layer j p) = layer i p
      by_cases hrest : i ∈ rest
      · rw [ih hrest hother.2]
        by_cases hj : j = i
        · rw [hj, Option.or_self]
        · rw [hother.1 hj, Option.or_none]
      · have hnone : flatten (rest.map layer) p = none := by
          rw [← Option.not_isSome_iff_eq_none, flatten_isSome_iff]
          rintro ⟨l, hl, hsome⟩
          obtain ⟨j', hj', rfl⟩ := List.mem_map.mp hl
          rw [hother.2 j' hj' fun heq => hrest (heq ▸ hj')] at hsome
          exact Bool.false_ne_true hsome
        obtain rfl := (List.mem_cons.mp hi).resolve_right hrest
        rw [hnone, Option.none_or]

/-- Layers of one colour are one layer of this colour. -/
theorem paint_regions {ι : Type} {R : ι → P → Prop} [∀ i, DecidablePred (R i)] (c : C)
    (items : List ι) (picture : P → C) (p : P) :
    paint (items.map fun i => region (R i) c) picture p =
      if ∃ i ∈ items, R i p then c else picture p := by
  induction items generalizing picture with
  | nil => exact (if_neg (by simp)).symm
  | cons i rest ih =>
      have hover : (region (R i) c).over picture p = if R i p then c else picture p := by
        rw [Layer.over, region]
        split
        · rfl
        · rfl
      rw [List.map_cons, paint, List.foldl_cons, ← paint, ih, hover]
      simp only [List.exists_mem_cons_iff]
      by_cases hrest : ∃ j ∈ rest, R j p
      · rw [if_pos hrest, if_pos (.inr hrest)]
      · simp only [hrest, or_false, if_false]

/-- A loop over operations each of which puts a layer over what is seen. -/
theorem view_foldl {σ ι : Type} {view : σ → P → C} {op : σ → ι → σ} {layer : ι → Layer P C}
    {items : List ι} (h : ∀ s, ∀ i ∈ items, view (op s i) = (layer i).over (view s)) (s : σ) :
    view (items.foldl op s) = paint (items.map layer) (view s) := by
  induction items generalizing s with
  | nil => rfl
  | cons i rest ih =>
      rw [List.foldl_cons, ih fun s j hj => h s j (List.mem_cons_of_mem _ hj),
        h s i List.mem_cons_self]
      rfl

end

/-! ## Programs that paint -/

section Programs

variable {ε : Type}

/-- Programs with a picture as their state. -/
abbrev Painter (P C ε : Type) : Type → Type := StateT (P → C) (Except ε)

/-- The program does not fail, and leaves the picture under the layers. -/
def Paints (prog : Painter P C ε Unit) (layers : List (Layer P C)) : Prop :=
  ∀ picture, prog.run picture = .ok ((), paint layers picture)

variable {first second : Painter P C ε Unit} {layers layers' : List (Layer P C)}

theorem paints_pure : Paints (pure () : Painter P C ε Unit) [] := fun _ => rfl

/-- One program after the other. -/
theorem Paints.andThen (hfirst : Paints first layers) (hsecond : Paints second layers') :
    Paints (do first; second) (layers ++ layers') := by
  intro picture
  rw [StateT.run_bind, hfirst picture, paint_append]
  exact hsecond _

/-- A loop paints what its rounds paint. -/
theorem paints_forM {ι : Type} {body : ι → Painter P C ε Unit} {drawn : ι → List (Layer P C)}
    {items : List ι} (h : ∀ i ∈ items, Paints (body i) (drawn i)) :
    Paints (items.forM body) (items.flatMap drawn) := by
  induction items with
  | nil => exact paints_pure
  | cons i rest ih =>
      rw [List.forall_mem_cons] at h
      exact h.1.andThen (ih h.2)

/-- A program that paints under a condition. -/
theorem paints_if {c : Prop} [Decidable c] (h : c → Paints first layers) :
    Paints (if c then first else pure ()) (if c then layers else []) := by
  split
  next hc => exact h hc
  next => exact paints_pure

end Programs

end FalastinOS.Foundation
