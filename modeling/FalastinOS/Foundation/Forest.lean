/-
  Foundation/Forest.lean --- parent links.

  A hierarchy stored as parent links is a relation `r` in which `r x y` reads
  "the parent of x is y".  The module collects what survives the two edits a
  program makes to such a hierarchy:

  * a node without children or parent of its own is hung below `c`
    (`acyclic_of_new_node`), and
  * a node is unlinked (`reaches_of_avoid`).

  The links are only assumed functional where that is needed, and nothing is
  assumed about the type of nodes.
-/
import Mathlib.Logic.Relation

set_option autoImplicit false

namespace FalastinOS.Foundation

open Relation

variable {α : Type} {r r' : α → α → Prop}

/-- No node is its own proper ancestor. -/
def Acyclic (r : α → α → Prop) : Prop := ∀ x, ¬ TransGen r x x

theorem Acyclic.mono (h : Acyclic r) (hsub : ∀ x y, r' x y → r x y) : Acyclic r' :=
  fun x hcycle => h x (TransGen.mono hsub x x hcycle)

/-- The last link of a path that leaves `x` for somewhere else. -/
theorem link_of_reaches_ne {x root : α} (h : ReflTransGen r x root) (hne : x ≠ root) :
    ∃ y, r x y ∧ ReflTransGen r y root := by
  rcases ReflTransGen.cases_head h with heq | ⟨y, hxy, hy⟩
  · exact absurd heq hne
  · exact ⟨y, hxy, hy⟩

/-- Following the links of `r'` from a node that reaches the root by `r` stays
on that path, when the two relations agree on links and the root has none. -/
theorem reaches_of_follow {root c y : α} (hroot : ∀ z, ¬ r' root z)
    (hagree : ∀ x u v, r x u → r' x v → u = v)
    (hc : ReflTransGen r c root) (hy : ReflTransGen r' c y) : ReflTransGen r y root := by
  induction hy with
  | refl => exact hc
  | @tail u v _ huv ih =>
      by_cases hu : u = root
      · exact absurd (hu ▸ huv) (hroot v)
      · obtain ⟨w, huw, hw⟩ := link_of_reaches_ne ih hu
        rwa [← hagree u w v huw huv]

/-- Hanging a new node `a` below `c` makes no cycle, provided `a` cannot be
reached from `c`. -/
theorem acyclic_of_new_node {a c : α} (h : Acyclic r)
    (hold : ∀ x y, r' x y → x ≠ a → y ≠ a → r x y)
    (hnew : ∀ y, r' a y → y = c) (hc : ¬ ReflTransGen r' c a) : Acyclic r' := by
  -- A path from `a` back to `a` would have to go through `c`.
  have haa : ¬ TransGen r' a a := by
    intro hcycle
    obtain ⟨y, hay, hya⟩ := TransGen.head'_iff.mp hcycle
    exact hc (hnew y hay ▸ hya)
  -- A path that starts away from `a` either meets `a` or is an old path.
  have hsplit : ∀ {x y : α}, TransGen r' x y → x ≠ a →
      ReflTransGen r' x a ∧ ReflTransGen r' a y ∨ TransGen r x y ∧ y ≠ a := by
    intro x y hxy hx
    induction hxy with
    | @single z hxz =>
        by_cases hz : z = a
        · subst hz
          exact Or.inl ⟨.single hxz, .refl⟩
        · exact Or.inr ⟨.single (hold x z hxz hx hz), hz⟩
    | @tail z w _ hzw ih =>
        rcases ih with ⟨hxa, haz⟩ | ⟨hxz, hz⟩
        · exact Or.inl ⟨hxa, haz.tail hzw⟩
        · by_cases hw : w = a
          · subst hw
            exact Or.inl ⟨(TransGen.to_reflTransGen ‹TransGen r' x z›).tail hzw, .refl⟩
          · exact Or.inr ⟨hxz.tail (hold z w hzw hz hw), hw⟩
  intro x hcycle
  by_cases hx : x = a
  · exact haa (hx ▸ hcycle)
  · rcases hsplit hcycle hx with ⟨hxa, hax⟩ | ⟨hxx, _⟩
    · obtain hxa' | hxa' := reflTransGen_iff_eq_or_transGen.mp hxa
      · exact hx hxa'.symm
      · exact haa (TransGen.trans_right hax hxa')
    · exact h x hxx

/-- A path that never meets `a` survives any change to the links of `a`. -/
theorem reaches_of_avoid {a c root : α} (hc : ReflTransGen r c root)
    (havoid : ¬ ReflTransGen r c a) (hkeep : ∀ x y, r x y → x ≠ a → y ≠ a → r' x y) :
    ReflTransGen r' c root := by
  induction hc with
  | refl => exact .refl
  | @tail u v hcu huv ih =>
      have hu : u ≠ a := fun h => havoid (h ▸ hcu)
      have hv : v ≠ a := fun h => havoid (h ▸ hcu.tail huv)
      exact ih.tail (hkeep u v huv hu hv)

end FalastinOS.Foundation
