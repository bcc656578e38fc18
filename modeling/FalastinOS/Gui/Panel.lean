/-
  Gui/Panel.lean --- open slots, a mark on some of them, and a count.

  What matters of the windows for the focus: which slots are open, which are marked
  active, and the count that is kept beside them.  `focused_closed_iff` is the only
  question about it that has an answer other than yes: closing a slot gives the mark to
  the open slot with the highest number and takes it from none.
-/
import Mathlib.Data.Fintype.Basic
import Mathlib.Data.Finset.Card
import Mathlib.Data.List.FinRange

set_option autoImplicit false

namespace FalastinOS.Gui

/-- A slot of `windows`. -/
abbrev WindowSlot : Type := Fin 8

/-- The windows as far as the focus is concerned. -/
structure Panel where
  isOpen : WindowSlot → Bool
  active : WindowSlot → Bool
  count : Int

namespace Panel

/-- The open slot with the highest number. -/
def highest (p : Panel) : Option WindowSlot := (List.finRange 8).reverse.find? p.isOpen

/-- A new window in a free slot. -/
def opened (p : Panel) (i : WindowSlot) : Panel :=
  ⟨Function.update p.isOpen i true, fun j => decide (j = i), p.count + 1⟩

/-- A click on a window. -/
def focus (p : Panel) (i : WindowSlot) : Panel := { p with active := fun j => decide (j = i) }

/-- The slot is free, and the focus has not moved yet. -/
def without (p : Panel) (i : WindowSlot) : Panel :=
  ⟨Function.update p.isOpen i false, p.active, p.count - 1⟩

/-- A window is closed. -/
def closed (p : Panel) (i : WindowSlot) : Panel :=
  match (p.without i).highest with
  | some h => ⟨(p.without i).isOpen, Function.update p.active h true, p.count - 1⟩
  | none => p.without i

/-- The count is the number of open slots. -/
def Counted (p : Panel) : Prop := p.count = (Finset.univ.filter fun i => p.isOpen i = true).card

/-- The count is right, and one open window has the focus if there is any. -/
structure Focused (p : Panel) : Prop where
  counted : p.Counted
  unique : 0 < p.count → ∃! i, p.isOpen i = true ∧ p.active i = true

/-- The window that is closed has the focus, or the one that has it will be given it. -/
def Tidy (p : Panel) (i : WindowSlot) : Prop :=
  ∀ a, p.isOpen a = true → p.active a = true → a ≠ i → (p.without i).highest = some a

variable {p : Panel} {i : WindowSlot}

theorem counted_opened (h : p.Counted) (hfree : p.isOpen i = false) : (p.opened i).Counted := by
  have hset : (Finset.univ.filter fun j => (p.opened i).isOpen j = true) =
      insert i (Finset.univ.filter fun j => p.isOpen j = true) := by
    ext j
    simp only [Finset.mem_filter, Finset.mem_insert, Finset.mem_univ, true_and]
    by_cases hj : j = i
    · simp [opened, hj]
    · simp [opened, hj]
  have hnew : i ∉ Finset.univ.filter fun j => p.isOpen j = true := by
    simp only [Finset.mem_filter, hfree, Bool.false_eq_true, and_false, not_false_eq_true]
  rw [Counted, hset, Finset.card_insert_of_notMem hnew]
  show p.count + 1 = _
  rw [h]
  rfl

theorem counted_without (h : p.Counted) (hopen : p.isOpen i = true) : (p.without i).Counted := by
  have hset : (Finset.univ.filter fun j => (p.without i).isOpen j = true) =
      (Finset.univ.filter fun j => p.isOpen j = true).erase i := by
    ext j
    simp only [Finset.mem_filter, Finset.mem_erase, Finset.mem_univ, true_and]
    by_cases hj : j = i
    · simp [without, hj]
    · simp [without, hj]
  have hmem : i ∈ Finset.univ.filter fun j => p.isOpen j = true :=
    Finset.mem_filter.mpr ⟨Finset.mem_univ i, hopen⟩
  have hpos := Finset.card_pos.mpr ⟨i, hmem⟩
  rw [Counted, hset, Finset.card_erase_of_mem hmem]
  show p.count - 1 = _
  rw [h]
  omega

theorem closed_eq (p : Panel) (i : WindowSlot) :
    (p.closed i).isOpen = (p.without i).isOpen ∧ (p.closed i).count = (p.without i).count := by
  unfold closed
  split <;> exact ⟨rfl, rfl⟩

theorem counted_closed (h : p.Counted) (hopen : p.isOpen i = true) : (p.closed i).Counted := by
  have hwithout := counted_without h hopen
  unfold Counted at hwithout ⊢
  rw [(closed_eq p i).1, (closed_eq p i).2]
  exact hwithout

theorem focused_of_active_eq (h : p.Counted) (hopen : p.isOpen i = true)
    (hactive : ∀ j, p.active j = decide (j = i)) : p.Focused where
  counted := h
  unique := fun _ => ⟨i, ⟨hopen, by simp [hactive]⟩, fun j hj => by simpa [hactive] using hj.2⟩

theorem focused_opened (h : p.Counted) (hfree : p.isOpen i = false) : (p.opened i).Focused :=
  focused_of_active_eq (counted_opened h hfree) (Function.update_self ..) fun _ => rfl

theorem focused_focus (h : p.Counted) (hopen : p.isOpen i = true) : (p.focus i).Focused :=
  focused_of_active_eq (p := p.focus i) h hopen fun _ => rfl

/-- A search from the highest slot down finds the highest slot that passes the test. -/
theorem find?_down_eq_some_iff {test : WindowSlot → Bool} {k : WindowSlot} :
    (List.finRange 8).reverse.find? test = some k ↔
      test k = true ∧ ∀ j, test j = true → j ≤ k := by
  have hmem : ∀ j : WindowSlot, j ∈ (List.finRange 8).reverse := fun j =>
    List.mem_reverse.mpr (List.mem_finRange j)
  have hdown : ∀ {h j : WindowSlot}, (List.finRange 8).reverse.find? test = some h →
      test j = true → j ≤ h := by
    intro h j hfind hj
    obtain ⟨_, front, back, hlist, hfront⟩ := List.find?_eq_some_iff_append.mp hfind
    have hsorted : (List.finRange 8).reverse.Pairwise (· > ·) :=
      List.pairwise_reverse.mpr (List.pairwise_lt_finRange 8)
    have hj' := hmem j
    rw [hlist, List.mem_append, List.mem_cons] at hj'
    rw [hlist, List.pairwise_append, List.pairwise_cons] at hsorted
    obtain hj' | rfl | hj' := hj'
    · exact absurd hj (by simpa using hfront j hj')
    · exact le_refl _
    · exact le_of_lt (hsorted.2.1.1 j hj')
  constructor
  · exact fun hfind => ⟨List.find?_some hfind, fun j hj => hdown hfind hj⟩
  · rintro ⟨hk, hmax⟩
    cases hfind : (List.finRange 8).reverse.find? test with
    | none => exact absurd hk (List.find?_eq_none.mp hfind k (hmem k))
    | some h =>
        rw [le_antisymm (hmax h (List.find?_some hfind)) (hdown hfind hk)]

theorem highest_eq_some {h : WindowSlot} (hh : p.highest = some h) : p.isOpen h = true :=
  List.find?_some hh

/-- Every open slot is at most the highest. -/
theorem le_highest {h : WindowSlot} (hh : p.highest = some h) {j : WindowSlot}
    (hj : p.isOpen j = true) : j ≤ h :=
  (find?_down_eq_some_iff.mp hh).2 j hj

theorem highest_eq_none (hh : p.highest = none) (j : WindowSlot) : p.isOpen j = false := by
  have hj := List.find?_eq_none.mp hh j (List.mem_reverse.mpr (List.mem_finRange j))
  simpa using hj

/-- Nothing is open when the highest open slot does not exist. -/
theorem count_of_highest_none (h : p.Counted) (hh : p.highest = none) : p.count = 0 := by
  rw [h, Int.natCast_eq_zero, Finset.card_eq_zero, Finset.filter_eq_empty_iff]
  intro j _
  rw [highest_eq_none hh j]
  exact Bool.false_ne_true

theorem isOpen_without {j : WindowSlot} :
    (p.without i).isOpen j = true ↔ j ≠ i ∧ p.isOpen j = true := by
  by_cases hj : j = i
  · subst hj
    simp [without]
  · simp [without, hj]

theorem count_pos_of_open (h : p.Counted) (hopen : p.isOpen i = true) : 0 < p.count := by
  rw [h, Int.natCast_pos, Finset.card_pos]
  exact ⟨i, Finset.mem_filter.mpr ⟨Finset.mem_univ i, hopen⟩⟩

/-- Closing a window keeps the focus in one place exactly if the closing is tidy. -/
theorem focused_closed_iff (h : p.Focused) (hopen : p.isOpen i = true) :
    (p.closed i).Focused ↔ p.Tidy i := by
  have hcounted := counted_closed h.counted hopen
  cases hhigh : (p.without i).highest with
  | none =>
      have hcount := count_of_highest_none (counted_without h.counted hopen) hhigh
      have htidy : p.Tidy i := by
        intro a ha _ hne
        have hclosed := highest_eq_none hhigh a
        rw [← Bool.not_eq_true, isOpen_without] at hclosed
        exact absurd ⟨hne, ha⟩ hclosed
      refine ⟨fun _ => htidy, fun _ => ⟨hcounted, fun hpos => ?_⟩⟩
      rw [(closed_eq p i).2, hcount] at hpos
      exact absurd hpos (Int.lt_irrefl 0)
  | some top =>
      obtain ⟨htopne, htopopen⟩ := isOpen_without.mp (highest_eq_some hhigh)
      have hclosed : p.closed i =
          ⟨(p.without i).isOpen, Function.update p.active top true, p.count - 1⟩ := by
        rw [closed, hhigh]
      have htop : (p.closed i).isOpen top = true ∧ (p.closed i).active top = true := by
        rw [hclosed]
        exact ⟨highest_eq_some hhigh, Function.update_self ..⟩
      constructor
      · intro hfocused a ha hactive hne
        have hpos : 0 < (p.closed i).count := count_pos_of_open hcounted htop.1
        have hstill : (p.closed i).isOpen a = true ∧ (p.closed i).active a = true := by
          rw [hclosed]
          refine ⟨isOpen_without.mpr ⟨hne, ha⟩, ?_⟩
          show Function.update p.active top true a = true
          by_cases hat : a = top
          · rw [hat, Function.update_self]
          · rw [Function.update_of_ne hat, hactive]
        rw [hhigh, (hfocused.unique hpos).unique hstill htop]
      · intro htidy
        refine ⟨hcounted, fun _ => ⟨top, htop, fun a ha => ?_⟩⟩
        rw [hclosed] at ha
        obtain ⟨hopen', hactive⟩ := ha
        obtain ⟨hne, ha⟩ := isOpen_without.mp hopen'
        by_contra hat
        have hactive : p.active a = true := (Function.update_of_ne hat ..).symm.trans hactive
        exact hat (Option.some.inj (hhigh.symm.trans (htidy a ha hactive hne))).symm

/-- The same in the order of the slots, for a panel whose focus is in one place. -/
theorem tidy_iff (h : p.Focused) (hopen : p.isOpen i = true) :
    p.Tidy i ↔ p.active i = true ∨
      ∀ a, p.isOpen a = true → p.active a = true → ∀ b, b ≠ i → p.isOpen b = true → b ≤ a := by
  have hunique := h.unique (count_pos_of_open h.counted hopen)
  constructor
  · intro htidy
    by_cases hactive : p.active i = true
    · exact .inl hactive
    · refine .inr fun a ha haactive b hb hbopen => ?_
      have hne : a ≠ i := fun hai => hactive (hai ▸ haactive)
      exact le_highest (htidy a ha haactive hne) (isOpen_without.mpr ⟨hb, hbopen⟩)
  · intro hcases a ha haactive hne
    obtain hactive | hall := hcases
    · exact absurd (hunique.unique ⟨ha, haactive⟩ ⟨hopen, hactive⟩) hne
    · cases hhigh : (p.without i).highest with
      | none => exact absurd (isOpen_without.mpr ⟨hne, ha⟩) (by simp [highest_eq_none hhigh a])
      | some top =>
          obtain ⟨htopne, htopopen⟩ := isOpen_without.mp (highest_eq_some hhigh)
          have hle : a ≤ top := le_highest hhigh (isOpen_without.mpr ⟨hne, ha⟩)
          rw [le_antisymm (hall a ha haactive top htopne htopopen) hle]

/-- A window that alone has the focus may be closed. -/
theorem tidy_focus (p : Panel) (i : WindowSlot) : (p.focus i).Tidy i := by
  intro a _ hactive hne
  exact absurd (of_decide_eq_true hactive) hne

end Panel

end FalastinOS.Gui
