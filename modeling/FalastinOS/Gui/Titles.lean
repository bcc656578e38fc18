/-
  Gui/Titles.lean --- the titles of the windows of `brickwm.c`.

  `brickwm_create_window` copies up to 31 characters of the title into the slot and
  stores a NUL in the last byte, but none behind a shorter title.  What an earlier
  window of the slot left there is then a part of the new title, and the click routing
  of `brickwm_run`, which compares titles, reads it too.  `ownTitles_iff` says when the
  titles are right: no window gets a title that is shorter than an earlier one of its
  slot.
-/
import FalastinOS.Gui.Windows

set_option autoImplicit false

namespace FalastinOS.Gui

open FalastinOS.Foundation

namespace Desktop

/-- `title_equals(a, b)`, over the bytes from the two pointers on. -/
def titleEquals : List UInt8 → List UInt8 → Bool
  | a :: as, b :: bs => if a ≠ 0 ∧ b ≠ 0 ∧ a = b then titleEquals as bs else a == b
  | _, _ => false

/-- Is a click in the window passed on to the program manager? -/
def isProgramManager (w : Window) : Bool :=
  titleEquals (List.ofFn w.title) (text "Program Manager" ++ [0])

/-- The two calls that open and close windows. -/
inductive Call where
  | create (n : NewWindow)
  | close (handle : Int)

/-- The windows, and the titles that each slot was given, the last one first. -/
structure Titled where
  desktop : Desktop
  given : WindowSlot → List CStr

/-- The title a window was created with, in the window and in the click routing. -/
structure OwnTitle (w : Window) (title : CStr) : Prop where
  stored : w.title.toCStr = title.bytes.take 31
  routed : isProgramManager w = true ↔ title.bytes = text "Program Manager"

namespace Titled

def start : Titled := ⟨boot.init, fun _ => []⟩

/-- One call. -/
def step (s : Titled) : Call → Except Empty Titled
  | .create n =>
      match s.desktop.createWindow n with
      | (d, some i) => .ok ⟨d, Function.update s.given i (n.title :: s.given i)⟩
      | (d, none) => .ok ⟨d, s.given⟩
  | .close handle =>
      match slotOf handle with
      | some i => .ok ⟨s.desktop.closeWindow i, s.given⟩
      | none => .ok s

/-- Every open window has the title of the call that created it. -/
def OwnTitles (s : Titled) : Prop :=
  ∀ i, (s.desktop.windows i).useCount ≠ 0 →
    ∃ title, (s.given i).head? = some title ∧ OwnTitle (s.desktop.windows i) title

/-- The title fills the slot, or no earlier title of the slot was longer. -/
def Covers (s : Titled) : Call → Prop
  | .create n => ∀ i, s.desktop.firstFree = some i →
      31 ≤ n.title.length ∨ ∀ title ∈ s.given i, title.length ≤ n.title.length
  | .close _ => True

end Titled

/-! ## Comparing titles -/

/-- The loop compares what stands before the first NUL of its first argument. -/
theorem titleEquals_iff {a b : List UInt8} (hb : (0 : UInt8) ∉ b) (ha : (0 : UInt8) ∈ a) :
    titleEquals a (b ++ [0]) = true ↔ a.takeWhile (· ≠ 0) = b := by
  induction a generalizing b with
  | nil => exact absurd ha List.not_mem_nil
  | cons x a ih =>
      cases b with
      | nil =>
          rw [List.nil_append, titleEquals, if_neg fun h => h.2.1 rfl, beq_iff_eq]
          by_cases hx : x = 0
          · simp [hx]
          · simp [hx]
      | cons y b =>
          rw [List.mem_cons, not_or] at hb
          have hy : y ≠ 0 := fun h => hb.1 h.symm
          rw [List.cons_append, titleEquals]
          by_cases hx : x = 0
          · have hxy : x ≠ y := fun h => hy (h ▸ hx)
            rw [if_neg fun h => h.1 hx, beq_iff_eq]
            simp [hx, hy.symm]
          · have hrest : (0 : UInt8) ∈ a := (List.mem_cons.mp ha).resolve_left fun h => hx h.symm
            by_cases hxy : x = y
            · rw [if_pos ⟨hx, hy, hxy⟩, ih hb.2 hrest]
              simp [hxy, hy]
            · rw [if_neg fun h => hxy h.2.2, beq_iff_eq]
              simp [hx, hxy]

theorem isProgramManager_iff {w : Window} (h : w.title 31 = 0) :
    isProgramManager w = true ↔ w.title.toCStr = text "Program Manager" :=
  titleEquals_iff (by decide) (List.mem_ofFn.mpr ⟨31, h⟩)

/-- 15 characters are not the beginning of a longer title. -/
theorem take_eq_programManager (title : List UInt8) :
    title.take 31 = text "Program Manager" ↔ title = text "Program Manager" := by
  constructor
  · intro h
    have hlength : (title.take 31).length = 15 := by rw [h]; decide
    rw [List.length_take] at hlength
    rwa [List.take_of_length_le (by omega)] at h
  · rintro rfl
    decide

/-- A title that is stored right is routed right. -/
theorem ownTitle_iff {w : Window} (h : w.title 31 = 0) (title : CStr) :
    OwnTitle w title ↔ w.title.toCStr = title.bytes.take 31 := by
  refine ⟨OwnTitle.stored, fun hstored => ⟨hstored, ?_⟩⟩
  rw [isProgramManager_iff h, hstored, take_eq_programManager]

/-- A window that is not touched keeps its title. -/
theorem OwnTitle.congr {v w : Window} {title : CStr} (h : OwnTitle w title)
    (hsame : v.title = w.title) : OwnTitle v title := by
  refine ⟨hsame ▸ h.stored, ?_⟩
  rw [isProgramManager, hsame]
  exact h.routed

/-! ## Copying a title -/

/-- The copy is right exactly if it fills the slot or a NUL stood behind it before. -/
theorem toCStr_copyTitle_iff (old : CharArray 32) (title : CStr) :
    (copyTitle old title).toCStr = title.bytes.take 31 ↔
      ∀ k : Fin 32, k.val < 31 → k.val = title.length → old k = 0 := by
  have hnoNul : (0 : UInt8) ∉ title.bytes.take 31 := fun h => title.noNul (List.mem_of_mem_take h)
  have hlength : (title.bytes.take 31).length = min 31 title.length := List.length_take
  rw [CharArray.toCStr_eq_iff _ hnoNul]
  constructor
  · rintro ⟨_, hbytes⟩ k hk hend
    have hzero := (hbytes k).2 (by omega)
    rwa [copyTitle, if_neg (by omega), if_neg (by omega)] at hzero
  · intro hbehind
    refine ⟨by omega, fun k => ⟨fun hk => ?_, fun hend => ?_⟩⟩
    · rw [List.getElem_take, copyTitle, if_neg (by omega), if_pos (by omega)]
      exact title.byte_of_lt (by omega)
    · rw [copyTitle]
      by_cases hlast : k.val = 31
      · rw [if_pos hlast]
      · rw [if_neg hlast, if_neg (by omega)]
        exact hbehind k (by omega) (by omega)

/-! ## One call -/

/-- Closing a window changes no title and opens none. -/
theorem closeWindow_frame (s : Desktop) (i j : WindowSlot) :
    ((s.closeWindow i).windows j).title = (s.windows j).title ∧
      (((s.closeWindow i).windows j).useCount ≠ 0 → (s.windows j).useCount ≠ 0) := by
  have hdrop : ((s.dropWindow i).windows j).title = (s.windows j).title ∧
      (((s.dropWindow i).windows j).useCount ≠ 0 → (s.windows j).useCount ≠ 0) := by
    by_cases hji : j = i
    · simp [dropWindow, hji]
    · simp [dropWindow, hji]
  unfold closeWindow
  split
  · exact ⟨rfl, id⟩
  · cases (s.dropWindow i).highestOpen with
    | none =>
        simp only [windows_drawAll]
        exact hdrop
    | some top =>
        simp only [windows_drawAll]
        by_cases hjtop : j = top
        · simpa [activate, hjtop] using hjtop ▸ hdrop
        · simpa [activate, hjtop] using hdrop

namespace Titled

variable {s s' : Titled}

/-- What a call does: it opens a window in a free slot, or it opens none and changes no title. -/
theorem step_cases {c : Call} (h : s.step c = .ok s') :
    (∃ n i, c = .create n ∧ s.desktop.firstFree = some i ∧
      s' = ⟨(s.desktop.createWindow n).1, Function.update s.given i (n.title :: s.given i)⟩ ∧
      (s.desktop.createWindow n).1.windows = s.desktop.withWindow n i) ∨
    (s.Covers c ∧ s'.given = s.given ∧ ∀ j,
      (s'.desktop.windows j).title = (s.desktop.windows j).title ∧
      ((s'.desktop.windows j).useCount ≠ 0 → (s.desktop.windows j).useCount ≠ 0)) := by
  cases c with
  | create n =>
      rw [step, createWindow] at h
      cases hfree : s.desktop.firstFree with
      | none =>
          rw [hfree] at h
          obtain rfl := Except.ok.inj h
          refine .inr ⟨fun i hi => ?_, rfl, fun _ => ⟨rfl, id⟩⟩
          rw [hfree] at hi
          exact nomatch hi
      | some i =>
          rw [hfree] at h
          obtain rfl := Except.ok.inj h
          refine .inl ⟨n, i, rfl, rfl, ?_, ?_⟩
          · rw [createWindow, hfree]
          · rw [createWindow, hfree]
  | close handle =>
      rw [step] at h
      cases hslot : slotOf handle with
      | none =>
          rw [hslot] at h
          obtain rfl := Except.ok.inj h
          exact .inr ⟨trivial, rfl, fun _ => ⟨rfl, id⟩⟩
      | some i =>
          rw [hslot] at h
          obtain rfl := Except.ok.inj h
          exact .inr ⟨trivial, rfl, fun j => closeWindow_frame s.desktop i j⟩

/-- A byte of a title is NUL as long as every title given to the slot ended before it. -/
structure Written (s : Titled) : Prop where
  last : ∀ i, (s.desktop.windows i).title 31 = 0
  byte : ∀ i (k : Fin 32), k.val < 31 →
    ((s.desktop.windows i).title k = 0 ↔ ∀ title ∈ s.given i, title.length ≤ k.val)

theorem written_start : Written start :=
  ⟨fun _ => rfl, fun _ _ _ => ⟨fun _ _ h => absurd h List.not_mem_nil, fun _ => rfl⟩⟩

theorem Written.step {c : Call} (h : Written s) (hstep : s.step c = .ok s') : Written s' := by
  obtain ⟨n, i, rfl, hfree, rfl, hwindows⟩ | ⟨-, hgiven, hsame⟩ := step_cases hstep
  · constructor
    · intro j
      simp only [hwindows, withWindow]
      by_cases hji : j = i
      · rw [if_pos hji]
        rfl
      · rw [if_neg hji]
        exact h.last j
    · intro j k hk
      simp only [hwindows, withWindow]
      by_cases hji : j = i
      · have hold := h.byte i k hk
        rw [if_pos hji, hji, Function.update_self, List.forall_mem_cons]
        simp only [copyTitle]
        rw [if_neg (by omega)]
        by_cases hcopied : k.val < n.title.length
        · rw [if_pos hcopied, CStr.byte_eq_zero_iff]
          exact ⟨fun hle => absurd hcopied (by omega), And.left⟩
        · rw [if_neg hcopied, hold]
          exact ⟨fun hrest => ⟨by omega, hrest⟩, And.right⟩
      · rw [if_neg hji, Function.update_of_ne hji]
        exact h.byte j k hk
  · constructor
    · intro j
      rw [(hsame j).1]
      exact h.last j
    · intro j k hk
      rw [(hsame j).1, hgiven]
      exact h.byte j k hk

/-- The new window has its own title exactly if no longer one was in its slot before. -/
theorem ownTitle_withWindow_iff (h : Written s) (n : NewWindow) (i : WindowSlot) :
    OwnTitle (s.desktop.withWindow n i i) n.title ↔
      31 ≤ n.title.length ∨ ∀ title ∈ s.given i, title.length ≤ n.title.length := by
  have hlast : (s.desktop.withWindow n i i).title 31 = 0 := by
    rw [withWindow, if_pos rfl]
    rfl
  rw [ownTitle_iff hlast, withWindow, if_pos rfl, toCStr_copyTitle_iff]
  by_cases hfills : 31 ≤ n.title.length
  · exact ⟨fun _ => .inl hfills, fun _ k hk hend => absurd hend (by omega)⟩
  · rw [or_iff_right hfills]
    constructor
    · intro hbehind
      have hbyte := h.byte i ⟨n.title.length, by omega⟩ (by simp only; omega)
      exact hbyte.mp (hbehind _ (by simp only; omega) rfl)
    · intro hshorter k hk hend
      exact (h.byte i k hk).mpr fun title htitle => hend ▸ hshorter title htitle

/-- From right titles a call goes to right titles exactly if it covers the old one. -/
theorem ownTitles_step_iff {c : Call} (h : Written s) (hown : s.OwnTitles)
    (hstep : s.step c = .ok s') : s'.OwnTitles ↔ s.Covers c := by
  obtain ⟨n, i, rfl, hfree, rfl, hwindows⟩ | ⟨hcovers, hgiven, hsame⟩ := step_cases hstep
  · have hcovers : s.Covers (.create n) ↔ OwnTitle (s.desktop.withWindow n i i) n.title := by
      rw [ownTitle_withWindow_iff h n i, Covers]
      exact ⟨fun hall => hall i hfree, fun hi j hj => Option.some.inj (hfree.symm.trans hj) ▸ hi⟩
    rw [hcovers, OwnTitles]
    simp only [hwindows]
    constructor
    · intro hall
      obtain ⟨title, hhead, htitle⟩ := hall i (by simp [withWindow])
      rw [Function.update_self, List.head?_cons] at hhead
      exact Option.some.inj hhead ▸ htitle
    · intro hnew j hj
      by_cases hji : j = i
      · rw [hji, Function.update_self]
        exact ⟨n.title, rfl, hnew⟩
      · rw [Function.update_of_ne hji]
        rw [withWindow, if_neg hji] at hj ⊢
        obtain ⟨title, hhead, htitle⟩ := hown j hj
        exact ⟨title, hhead, htitle.congr rfl⟩
  · refine iff_of_true (fun j hj => ?_) hcovers
    obtain ⟨title, hhead, htitle⟩ := hown j ((hsame j).2 hj)
    rw [hgiven]
    exact ⟨title, hhead, htitle.congr (hsame j).1⟩

/-! ## Any number of calls -/

/-- For every sequence of calls, every open window shows its own title throughout exactly if
no call gives a slot a title that is shorter than an earlier one. -/
theorem ownTitles_iff (calls : List Call) :
    Along step OwnTitles start calls ↔ Guarded step Covers start calls := by
  refine along_iff_guarded (J := Written) ?_ ?_ written_start fun i hi => absurd rfl hi
  · intro s c s' h hstep
    exact h.step hstep
  · intro s c s' h hown hstep
    exact ownTitles_step_iff h hown hstep

theorem noNul_fileManager : (0 : UInt8) ∉ text "File Manager" := by decide

theorem noNul_terminal : (0 : UInt8) ∉ text "Terminal" := by decide

/-- The file manager is opened and closed, and the terminal gets its slot. -/
def terminalAfterFileManager : List Call :=
  [.create ⟨⟨text "File Manager", noNul_fileManager⟩, 200, 100, 500, 380, .other, .fileManager⟩,
    .close 0,
    .create ⟨⟨text "Terminal", noNul_terminal⟩, 150, 100, 500, 350, .other, .terminal⟩]

theorem run_terminalAfterFileManager :
    ((run step start terminalAfterFileManager).toOption.map fun s =>
      ((s.desktop.windows 0).useCount, (s.given 0).head?.map CStr.bytes,
        (s.desktop.windows 0).title.toCStr)) =
      some (1, some (text "Terminal"), text "Terminalager") := by
  decide +kernel

theorem terminal_shows_old_title : ¬ Along step OwnTitles start terminalAfterFileManager := by
  intro halong
  obtain ⟨s, hrun, hend⟩ := exists_run_of_map run_terminalAfterFileManager
  simp only [Prod.mk.injEq] at hend
  obtain ⟨huse, hgiven, htitle⟩ := hend
  obtain ⟨title, hhead, hown⟩ := halong.last hrun 0 (by rw [huse]; decide)
  rw [hhead, Option.map_some] at hgiven
  have hstored := hown.stored
  rw [htitle, Option.some.inj hgiven] at hstored
  exact absurd hstored (by decide)

end Titled

end Desktop

end FalastinOS.Gui
