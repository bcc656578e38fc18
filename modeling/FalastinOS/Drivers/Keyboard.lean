/-
  Drivers/Keyboard.lean --- `keyboard.c`: scancodes in, characters out.

  The interrupt handler `irq1_c` is a state machine over scancode bytes with four
  flags, and it leaves each character in a mailbox of one cell, `last_char` with the
  flag `char_ready`.  `keyboard_getchar` takes it out in three steps: it waits for the
  flag, clears it, and reads the cell.  Interrupts may come between any two of them.

  Two questions are asked about it.

      decodesLocally_iff    when does the prefix 0xE0 reach no further than the next
                            byte?  The handler forgets it on a key, but not on shift
                            and ctrl, which it handles first.
      delivered_iff_quiet   when does the reader get every character once?
-/
import FalastinOS.Foundation.Execution
import FalastinOS.Foundation.CString
import Mathlib.Data.List.Basic
import Mathlib.Data.List.Induction

set_option autoImplicit false

namespace FalastinOS.Drivers

open FalastinOS.Foundation

/-! ## The handler -/

/-- The static variables of `keyboard.c`. -/
structure Keyboard where
  lastChar : UInt8
  charReady : Bool
  shiftPressed : Bool
  ctrlPressed : Bool
  /-- A prefix 0xE0 was seen. -/
  extended : Bool
  deriving DecidableEq

namespace Keyboard

/-- The variables before the first interrupt. -/
def boot : Keyboard := ⟨0, false, false, false, false⟩

/-- `KEY_UP`. -/
def keyUp : UInt8 := 1

/-- `KEY_DOWN`. -/
def keyDown : UInt8 := 2

/-- `KEY_LEFT`. -/
def keyLeft : UInt8 := 3

/-- `KEY_RIGHT`. -/
def keyRight : UInt8 := 4

/-- `KEY_DELETE`. -/
def keyDelete : UInt8 := 127

/-- `KEY_HOME`. -/
def keyHome : UInt8 := 5

/-- `KEY_END`. -/
def keyEnd : UInt8 := 6

/-- `scancode_to_ascii`. -/
def scancodeToAscii : List UInt8 :=
  [0, 0] ++ text "1234567890-=" ++ [8, 9] ++ text "qwertyuiop[]" ++ [10, 0] ++
    text "asdfghjkl;'`" ++ [0] ++ text "\\zxcvbnm,./" ++ [0] ++ text "*" ++ [0] ++ text " "

/-- `scancode_to_ascii_shift`. -/
def scancodeToAsciiShift : List UInt8 :=
  [0, 0] ++ text "!@#$%^&*()_+" ++ [8, 9] ++ text "QWERTYUIOP\x7b\x7d" ++ [10, 0] ++
    text "ASDFGHJKL:\"~" ++ [0] ++ text "|ZXCVBNM<>?" ++ [0] ++ text "*" ++ [0] ++ text " "

/-- The `switch` over the extended keys. -/
def extendedKey (scancode : UInt8) : Option UInt8 :=
  if scancode = 0x48 then some keyUp
  else if scancode = 0x50 then some keyDown
  else if scancode = 0x4B then some keyLeft
  else if scancode = 0x4D then some keyRight
  else if scancode = 0x53 then some keyDelete
  else if scancode = 0x47 then some keyHome
  else if scancode = 0x4F then some keyEnd
  else none

/-- Ctrl with a letter; 0 when the key is no letter. -/
def controlChar (base : UInt8) : UInt8 :=
  if 97 ≤ base ∧ base ≤ 122 then base - 97 + 1
  else if 65 ≤ base ∧ base ≤ 90 then base - 65 + 1
  else 0

/-- The variable `c` of the branch for normal keys, for a scancode inside the
tables; 0 when the key has no character. -/
def normalKey (shift ctrl : Bool) (scancode : UInt8) : UInt8 :=
  let base := scancodeToAscii.getD scancode.toNat 0
  let c := if ctrl && !shift then controlChar base else 0
  if c = 0 then
    if shift then scancodeToAsciiShift.getD scancode.toNat 0 else base
  else c

/-- `last_char = c; char_ready = 1;` -/
def store (k : Keyboard) (c : UInt8) : Keyboard := { k with lastChar := c, charReady := true }

/-- `irq1_c()`, with the byte it reads from port 0x60. -/
def irq1C (k : Keyboard) (scancode : UInt8) : Keyboard :=
  if scancode = 0xE0 then { k with extended := true }
  else if scancode = 0x2A ∨ scancode = 0x36 then { k with shiftPressed := true }
  else if scancode = 0xAA ∨ scancode = 0xB6 then { k with shiftPressed := false }
  else if scancode = 0x1D then { k with ctrlPressed := true }
  else if scancode = 0x9D then { k with ctrlPressed := false }
  else if scancode &&& 0x80 = 0 then
    if k.extended then
      match extendedKey scancode with
      | some c => { k with extended := false }.store c
      | none => { k with extended := false }
    else if scancode.toNat < scancodeToAscii.length then
      let c := normalKey k.shiftPressed k.ctrlPressed scancode
      if c ≠ 0 then k.store c else k
    else k
  else if k.extended then { k with extended := false }
  else k

/-! ## What a run of the handler can do -/

/-- The bytes that the handler treats as shift or ctrl, pressed or released. -/
def IsModifier (b : UInt8) : Prop :=
  b = 0x2A ∨ b = 0x36 ∨ b = 0xAA ∨ b = 0xB6 ∨ b = 0x1D ∨ b = 0x9D

instance (b : UInt8) : Decidable (IsModifier b) := by unfold IsModifier; infer_instance

/-- The character a byte stands for, if any, in the given state of the flags. -/
def charOf (shift ctrl extended : Bool) (b : UInt8) : Option UInt8 :=
  if b = 0xE0 ∨ IsModifier b ∨ b &&& 0x80 ≠ 0 then none
  else if extended then extendedKey b
  else if normalKey shift ctrl b = 0 then none
  else some (normalKey shift ctrl b)

/-- Shift after a byte. -/
def shiftAfter (shift : Bool) (b : UInt8) : Bool :=
  if b = 0x2A ∨ b = 0x36 then true else if b = 0xAA ∨ b = 0xB6 then false else shift

/-- Ctrl after a byte. -/
def ctrlAfter (ctrl : Bool) (b : UInt8) : Bool :=
  if b = 0x1D then true else if b = 0x9D then false else ctrl

/-- The prefix flag after a byte. -/
def extendedAfter (extended : Bool) (b : UInt8) : Bool :=
  b = 0xE0 ∨ IsModifier b ∧ extended

/-- The two tables have the same keys. -/
theorem shift_table_zero_iff (n : Nat) :
    scancodeToAsciiShift.getD n 0 = 0 ↔ scancodeToAscii.getD n 0 = 0 := by
  have htables : scancodeToAsciiShift.map (· == 0) = scancodeToAscii.map (· == 0) := by
    decide +kernel
  have hkey := congrArg (fun keys => keys.getD n ((0 : UInt8) == 0)) htables
  simp only [List.getD_map] at hkey
  rw [← beq_iff_eq, hkey, beq_iff_eq]

theorem controlChar_zero : controlChar 0 = 0 := by decide

/-- A key has a character in every state of shift and ctrl, or in none. -/
theorem normalKey_zero_iff (shift ctrl : Bool) (b : UInt8) :
    normalKey shift ctrl b = 0 ↔ scancodeToAscii.getD b.toNat 0 = 0 := by
  unfold normalKey
  cases shift with
  | true => simpa using shift_table_zero_iff b.toNat
  | false =>
      cases ctrl with
      | false => simp
      | true =>
          simp only [Bool.not_false, Bool.and_self, if_true, Bool.false_eq_true, if_false]
          by_cases hc : controlChar (scancodeToAscii.getD b.toNat 0) = 0
          · rw [if_pos hc]
          · rw [if_neg hc]
            refine ⟨fun h => absurd h hc, fun h => ?_⟩
            rw [h] at hc
            exact absurd controlChar_zero hc

/-- A key press outside the table has no character. -/
theorem normalKey_of_ge (shift ctrl : Bool) {b : UInt8}
    (h : ¬ b.toNat < scancodeToAscii.length) : normalKey shift ctrl b = 0 := by
  rw [normalKey_zero_iff]
  exact List.getD_eq_default _ _ (Nat.le_of_not_lt h)

/-- The handler, one variable at a time. -/
theorem irq1C_eq (k : Keyboard) (b : UInt8) :
    k.irq1C b =
      { lastChar := (charOf k.shiftPressed k.ctrlPressed k.extended b).getD k.lastChar
        charReady := (charOf k.shiftPressed k.ctrlPressed k.extended b).isSome || k.charReady
        shiftPressed := shiftAfter k.shiftPressed b
        ctrlPressed := ctrlAfter k.ctrlPressed b
        extended := extendedAfter k.extended b } := by
  obtain ⟨last, ready, shift, ctrl, extended⟩ := k
  by_cases hmod : b = 0xE0 ∨ IsModifier b
  · -- the early returns
    unfold IsModifier at hmod
    obtain rfl | rfl | rfl | rfl | rfl | rfl | rfl := hmod <;>
      simp [irq1C, charOf, shiftAfter, ctrlAfter, extendedAfter, IsModifier]
  · obtain ⟨hE0, hmod⟩ := not_or.mp hmod
    have hm := hmod
    simp only [IsModifier, not_or] at hm
    obtain ⟨h1, h2, h3, h4, h5, h6⟩ := hm
    have hshift : shiftAfter shift b = shift := by simp [shiftAfter, h1, h2, h3, h4]
    have hctrl : ctrlAfter ctrl b = ctrl := by simp [ctrlAfter, h5, h6]
    have hext : extendedAfter extended b = false := by simp [extendedAfter, hE0, hmod]
    rw [hshift, hctrl, hext]
    unfold irq1C charOf
    simp only [hE0, h1, h2, h3, h4, h5, h6, hmod, or_self, false_or, if_false]
    by_cases hpress : b &&& 0x80 = 0
    · simp only [hpress, if_true, ne_eq, not_true_eq_false, if_false]
      cases extended with
      | true =>
          cases hk : extendedKey b with
          | some c => simp [store]
          | none => simp
      | false =>
          by_cases hlt : b.toNat < scancodeToAscii.length
          · by_cases hc : normalKey shift ctrl b = 0
            · simp [hlt, hc]
            · simp [hlt, hc, store]
          · simp [hlt, normalKey_of_ge shift ctrl hlt]
    · cases extended <;> simp [hpress]

/-! ## The reach of the prefix -/

/-- What the handler does with a byte, as far as the rest of the kernel can see: the
character it delivers and the state of shift and ctrl. -/
structure Action where
  char : Option UInt8
  shift : Bool
  ctrl : Bool
  deriving DecidableEq

/-- The action of the handler, read off what it leaves when the mailbox is empty. -/
def action (k : Keyboard) (b : UInt8) : Action :=
  let k' := { k with charReady := false }.irq1C b
  ⟨if k'.charReady then some k'.lastChar else none, k'.shiftPressed, k'.ctrlPressed⟩

/-- The keyboard before byte `n` of a stream. -/
def before (stream : List UInt8) (n : Nat) : Keyboard := (stream.take n).foldl irq1C boot

/-- Is byte `n` the one right after a prefix? -/
def prefixed (stream : List UInt8) (n : Nat) : Bool := 0 < n ∧ stream[n - 1]? = some 0xE0

/-- The action on a byte by the law of the prefix: the flag says whether the byte
before is 0xE0, and nothing else is known of the past but shift and ctrl. -/
def lawful (b : UInt8) (shift ctrl prefixed : Bool) : Action :=
  action ⟨0, false, shift, ctrl, prefixed⟩ b

/-- Every byte of the stream is handled by the law of the prefix. -/
def DecodesLocally (stream : List UInt8) : Prop :=
  ∀ n (h : n < stream.length),
    action (before stream n) stream[n] =
      lawful stream[n] (before stream n).shiftPressed (before stream n).ctrlPressed
        (prefixed stream n)

/-- The keys whose meaning depends on the prefix: those with a character and those of
the `switch`. -/
def PrefixMatters (b : UInt8) : Prop :=
  extendedKey b ≠ none ∨ scancodeToAscii.getD b.toNat 0 ≠ 0

instance (b : UInt8) : Decidable (PrefixMatters b) := by unfold PrefixMatters; infer_instance

/-- The stream has a prefix, then nothing but shift and ctrl, at least once, and then a
key whose meaning depends on the prefix. -/
def HasStaleKey (stream : List UInt8) : Prop :=
  ∃ front mods b rest, stream = front ++ 0xE0 :: mods ++ b :: rest ∧
    mods ≠ [] ∧ (∀ m ∈ mods, IsModifier m) ∧ PrefixMatters b

theorem action_eq (k : Keyboard) (b : UInt8) :
    action k b = ⟨charOf k.shiftPressed k.ctrlPressed k.extended b, shiftAfter k.shiftPressed b,
      ctrlAfter k.ctrlPressed b⟩ := by
  unfold action
  rw [irq1C_eq]
  cases charOf k.shiftPressed k.ctrlPressed k.extended b <;> simp

theorem lawful_eq (b : UInt8) (shift ctrl prefixed : Bool) :
    lawful b shift ctrl prefixed =
      ⟨charOf shift ctrl prefixed b, shiftAfter shift b, ctrlAfter ctrl b⟩ :=
  action_eq _ b

/-- A key whose meaning depends on the prefix is a key press, and it has a character
without the prefix or with it, not both. -/
theorem prefixMatters_press (b : UInt8) (h : PrefixMatters b) :
    ¬ (b = 0xE0 ∨ IsModifier b ∨ b &&& 0x80 ≠ 0) ∧
      (extendedKey b = none ∨ scancodeToAscii.getD b.toNat 0 = 0) := by
  have hall : ∀ n < 256, PrefixMatters (UInt8.ofNat n) →
      ¬ (UInt8.ofNat n = 0xE0 ∨ IsModifier (UInt8.ofNat n) ∨ UInt8.ofNat n &&& 0x80 ≠ 0) ∧
        (extendedKey (UInt8.ofNat n) = none ∨
          scancodeToAscii.getD (UInt8.ofNat n).toNat 0 = 0) := by
    decide +kernel
  have hb := hall b.toNat b.toNat_lt
  rw [UInt8.ofNat_toNat] at hb
  exact hb h

/-- The flag changes what a byte stands for exactly at the keys named above. -/
theorem charOf_extended_iff (shift ctrl : Bool) (b : UInt8) :
    charOf shift ctrl true b = charOf shift ctrl false b ↔ ¬ PrefixMatters b := by
  by_cases h : PrefixMatters b
  · obtain ⟨hpress, hone⟩ := prefixMatters_press b h
    simp only [h, not_true_eq_false, iff_false]
    unfold charOf
    rw [if_neg hpress, if_neg hpress, if_pos rfl, if_neg Bool.false_ne_true]
    simp only [normalKey_zero_iff]
    obtain hx | hn := hone
    · have hn : scancodeToAscii.getD b.toNat 0 ≠ 0 := h.resolve_left (fun h => h hx)
      rw [hx, if_neg hn]
      exact Option.some_ne_none _ ∘ Eq.symm
    · have hx : extendedKey b ≠ none := h.resolve_right (fun h => h hn)
      rw [if_pos hn]
      exact hx
  · simp only [h, not_false_eq_true, iff_true]
    simp only [PrefixMatters, not_or, ne_eq, not_not] at h
    unfold charOf
    simp [h.1, (normalKey_zero_iff shift ctrl b).mpr h.2]

/-- The flag is up after a stream exactly if nothing but shift and ctrl came after its
last prefix. -/
theorem extended_iff (stream : List UInt8) :
    (stream.foldl irq1C boot).extended = true ↔
      ∃ front mods, stream = front ++ 0xE0 :: mods ∧ ∀ m ∈ mods, IsModifier m := by
  induction stream using List.reverseRecOn with
  | nil => simp [boot]
  | append_singleton s b ih =>
      rw [List.foldl_append, List.foldl_cons, List.foldl_nil, irq1C_eq]
      simp only [extendedAfter, ih, decide_eq_true_eq]
      constructor
      · rintro (rfl | ⟨hb, front, mods, rfl, hmods⟩)
        · exact ⟨s, [], rfl, by simp⟩
        · refine ⟨front, mods ++ [b], by simp, fun m hm => ?_⟩
          obtain hm | hm := List.mem_append.mp hm
          · exact hmods m hm
          · rwa [List.mem_singleton.mp hm]
      · rintro ⟨front, mods, hs, hmods⟩
        obtain rfl | ⟨mods', m, rfl⟩ := List.eq_nil_or_concat' mods
        · exact .inl (List.append_inj_right' hs rfl |> List.singleton_inj.mp)
        · rw [← List.cons_append, ← List.append_assoc] at hs
          have hm : b = m := List.singleton_inj.mp (List.append_inj_right' hs rfl)
          refine .inr ⟨hm ▸ hmods m (by simp), front, mods', List.append_inj_left' hs rfl, ?_⟩
          exact fun m' hm' => hmods m' (by simp [hm'])

theorem prefixed_iff {stream : List UInt8} {n : Nat} (h : n ≤ stream.length) :
    prefixed stream n = true ↔ ∃ front, stream.take n = front ++ [0xE0] := by
  cases n with
  | zero => simp [prefixed]
  | succ n =>
      have hn : n < stream.length := h
      have htake : stream.take (n + 1) = stream.take n ++ [stream[n]] := by simp
      simp only [prefixed, Nat.zero_lt_succ, Nat.add_sub_cancel, true_and, decide_eq_true_eq,
        List.getElem?_eq_getElem hn, Option.some.injEq, htake]
      constructor
      · intro hE0
        exact ⟨stream.take n, by rw [hE0]⟩
      · rintro ⟨front, hfront⟩
        exact List.singleton_inj.mp (List.append_inj_right' hfront rfl)

/-- A prefix after which shift or ctrl came is not the byte before. -/
theorem not_prefixed {stream front mods : List UInt8} {n : Nat} (h : n ≤ stream.length)
    (htake : stream.take n = front ++ 0xE0 :: mods) (hne : mods ≠ [])
    (hmods : ∀ m ∈ mods, IsModifier m) : prefixed stream n = false := by
  rw [← Bool.not_eq_true, prefixed_iff h]
  rintro ⟨front', hfront⟩
  obtain rfl | ⟨mods', m, rfl⟩ := List.eq_nil_or_concat' mods
  · exact hne rfl
  · rw [htake, ← List.cons_append, ← List.append_assoc] at hfront
    have hm : m = 0xE0 := List.singleton_inj.mp (List.append_inj_right' hfront rfl)
    have hmod := hmods m (by simp)
    rw [hm] at hmod
    exact absurd hmod (by decide)

/-- One byte: it is handled by the law exactly if the flag is not stale there, or does not
matter. -/
theorem action_lawful_iff (stream : List UInt8) (n : Nat) (b : UInt8) :
    action (before stream n) b =
        lawful b (before stream n).shiftPressed (before stream n).ctrlPressed
          (prefixed stream n) ↔
      ((before stream n).extended = prefixed stream n ∨ ¬ PrefixMatters b) := by
  rw [action_eq, lawful_eq, Action.mk.injEq]
  simp only [and_self, and_true]
  cases (before stream n).extended <;> cases prefixed stream n <;>
    simp [charOf_extended_iff, eq_comm (a := charOf _ _ false b)]

/-- The prefix reaches no further than the next byte, exactly in the streams in which no
key whose meaning depends on it comes after a prefix and then shift or ctrl. -/
theorem decodesLocally_iff (stream : List UInt8) :
    DecodesLocally stream ↔ ¬ HasStaleKey stream := by
  constructor
  · rintro hlocal ⟨front, mods, b, rest, rfl, hne, hmods, hmatters⟩
    have htake : (front ++ 0xE0 :: mods ++ b :: rest).take (front ++ 0xE0 :: mods).length =
        front ++ 0xE0 :: mods := List.take_left
    have hb := hlocal (front ++ 0xE0 :: mods).length (by simp)
    rw [List.getElem_append_right (Nat.le_refl _), action_lawful_iff,
      not_prefixed (by simp) htake hne hmods] at hb
    have hext : (before (front ++ 0xE0 :: mods ++ b :: rest)
        (front ++ 0xE0 :: mods).length).extended = true := by
      rw [before, htake, extended_iff]
      exact ⟨front, mods, rfl, hmods⟩
    rw [hext] at hb
    simp only [Bool.true_eq_false, false_or, Nat.sub_self, List.getElem_cons_zero] at hb
    exact hb hmatters
  · intro hclean n hn
    rw [action_lawful_iff]
    have hprefixed := prefixed_iff (Nat.le_of_lt hn)
    have hext := extended_iff (stream.take n)
    by_cases hx : (before stream n).extended = true
    · obtain ⟨front, mods, htake, hmods⟩ := hext.mp hx
      by_cases hne : mods = []
      · rw [hne] at htake
        exact .inl (hx.trans (hprefixed.mpr ⟨front, htake⟩).symm)
      · refine .inr fun hmatters => hclean ⟨front, mods, stream[n], stream.drop (n + 1), ?_, hne,
          hmods, hmatters⟩
        rw [← htake, List.getElem_cons_drop, List.take_append_drop]
    · refine .inl ?_
      rw [Bool.not_eq_true] at hx
      rw [hx, eq_comm, ← Bool.not_eq_true, hprefixed]
      rintro ⟨front, htake⟩
      exact absurd (hext.mpr ⟨front, [], htake, by simp⟩) (by rw [← before, hx]; simp)

/-- No function of the byte, of shift and ctrl and of the byte before describes the
handler: the key A alone gives its letter, and after the prefix, shift down and shift up
it gives nothing. -/
theorem not_decodesLocally_after_shift :
    ¬ ∃ f : UInt8 → Bool → Bool → Bool → Action,
      ∀ (stream : List UInt8) (n : Nat) (h : n < stream.length),
        action (before stream n) stream[n] =
          f stream[n] (before stream n).shiftPressed (before stream n).ctrlPressed
            (prefixed stream n) := by
  rintro ⟨f, hf⟩
  have hplain := hf [0x1E] 0 (by decide)
  have hstale := hf [0xE0, 0x2A, 0xAA, 0x1E] 3 (by decide)
  simp only [List.getElem_cons_zero, List.getElem_cons_succ] at hplain hstale
  have hflags : (before [0x1E] 0).shiftPressed = (before [0xE0, 0x2A, 0xAA, 0x1E] 3).shiftPressed ∧
      (before [0x1E] 0).ctrlPressed = (before [0xE0, 0x2A, 0xAA, 0x1E] 3).ctrlPressed ∧
      prefixed [0x1E] 0 = prefixed [0xE0, 0x2A, 0xAA, 0x1E] 3 := by decide
  rw [hflags.1, hflags.2.1, hflags.2.2, ← hstale] at hplain
  exact absurd hplain (by decide)

end Keyboard

/-! ## The mailbox

The reader is in one of four places: outside `keyboard_getchar`, in its `while`, before
`char_ready = 0`, or before `return last_char`.  The interrupt handler runs between any
two steps of the reader, and not during one. -/

/-- Where the reader is. -/
inductive Reader where
  | outside
  | waiting
  | clearing
  | reading
  deriving DecidableEq

/-- The keyboard and its reader, with a record of what went in and what came out. -/
structure Console where
  keyboard : Keyboard
  reader : Reader
  /-- The characters stored by `irq1_c`, the oldest first. -/
  produced : List UInt8
  /-- The characters returned by `keyboard_getchar`, the oldest first. -/
  returned : List UInt8
  deriving DecidableEq

namespace Console

/-- The handler runs, or the reader makes its next step. -/
inductive Event where
  | irq (scancode : UInt8)
  | reader
  deriving DecidableEq

def boot : Console := ⟨Keyboard.boot, .outside, [], []⟩

/-- The character a scancode stands for in the present state. -/
def pressed (s : Console) (scancode : UInt8) : Option UInt8 :=
  Keyboard.charOf s.keyboard.shiftPressed s.keyboard.ctrlPressed s.keyboard.extended scancode

/-- `keyboard_getchar()`, one step. -/
def readerStep (s : Console) : Console :=
  match s.reader with
  | .outside => { s with reader := .waiting }
  | .waiting => if s.keyboard.charReady then { s with reader := .clearing } else s
  | .clearing => { s with keyboard := { s.keyboard with charReady := false }, reader := .reading }
  | .reading => { s with returned := s.returned ++ [s.keyboard.lastChar], reader := .outside }

/-- One step of the machine.  None can fail. -/
def step (s : Console) : Event → Except Empty Console
  | .irq scancode => .ok
      { s with
        keyboard := s.keyboard.irq1C scancode
        produced := s.produced ++ (s.pressed scancode).toList }
  | .reader => .ok s.readerStep

/-- The characters on their way: the one the reader is about to return and the one in the
mailbox. -/
def inFlight (s : Console) : List UInt8 :=
  (if s.reader = .reading then [s.keyboard.lastChar] else []) ++
    (if s.keyboard.charReady then [s.keyboard.lastChar] else [])

/-- Every character that was produced has been returned, once and in its turn, or is on
its way. -/
def Delivered (s : Console) : Prop := s.produced = s.returned ++ s.inFlight

/-- A character comes when the mailbox is empty and the reader is not between its clear
and its read (or there, the same character again). -/
def Quiet (s : Console) : Event → Prop
  | .irq scancode => ∀ c, s.pressed scancode = some c →
      s.keyboard.charReady = false ∧ (s.reader = .reading → c = s.keyboard.lastChar)
  | .reader => True

/-- The loop of the reader has seen the flag when it clears it. -/
def Seen (s : Console) : Prop := s.reader = .clearing → s.keyboard.charReady = true

/-- The mailbox after a run of the handler. -/
theorem irq1C_mailbox (s : Console) (scancode : UInt8) :
    (s.keyboard.irq1C scancode).lastChar = (s.pressed scancode).getD s.keyboard.lastChar ∧
      (s.keyboard.irq1C scancode).charReady =
        ((s.pressed scancode).isSome || s.keyboard.charReady) := by
  rw [Keyboard.irq1C_eq]
  exact ⟨rfl, rfl⟩

theorem seen_step {s s' : Console} {e : Event} (h : s.Seen) (hstep : s.step e = .ok s') :
    s'.Seen := by
  cases e with
  | irq scancode =>
      obtain rfl := Except.ok.inj hstep
      intro hclearing
      show (s.keyboard.irq1C scancode).charReady = true
      rw [(irq1C_mailbox s scancode).2, h hclearing, Bool.or_true]
  | reader =>
      obtain rfl := Except.ok.inj hstep
      unfold Seen readerStep
      cases hr : s.reader with
      | outside => simp
      | waiting => cases hready : s.keyboard.charReady <;> simp [hr, hready]
      | clearing => simp
      | reading => simp

/-- The reader alone loses nothing and repeats nothing. -/
theorem delivered_readerStep {s : Console} (hseen : s.Seen) (h : s.Delivered) :
    s.readerStep.Delivered := by
  unfold Delivered inFlight at h ⊢
  unfold readerStep
  cases hr : s.reader with
  | outside => simpa [hr] using h
  | waiting => cases hready : s.keyboard.charReady <;> simpa [hr, hready] using h
  | clearing =>
      have hready : s.keyboard.charReady = true := hseen hr
      simpa [hr, hready] using h
  | reading => simpa [hr] using h

/-- A run of the handler keeps the account exactly if it comes at a quiet moment. -/
theorem delivered_irq_iff {s s' : Console} {scancode : UInt8} (h : s.Delivered)
    (hstep : s.step (.irq scancode) = .ok s') :
    s'.Delivered ↔ s.Quiet (.irq scancode) := by
  obtain rfl := Except.ok.inj hstep
  unfold Delivered inFlight at h ⊢
  unfold Quiet
  obtain ⟨hlast, hready⟩ := irq1C_mailbox s scancode
  simp only [hlast, hready]
  cases hc : s.pressed scancode with
  | none => simpa using h
  | some c =>
      rw [h]
      simp only [Option.toList_some, Option.getD_some, Option.isSome_some, Bool.true_or, if_true,
        List.append_assoc, List.append_cancel_left_eq, Option.some.injEq, forall_eq']
      by_cases hr : s.reader = .reading <;> cases hm : s.keyboard.charReady <;>
        simp [hr, eq_comm]

/-- In every interleaving, all characters are accounted for in every state exactly if each
of them came at a quiet moment; and then, once the mailbox is empty and no call is under
way, the reader has got exactly what was typed. -/
theorem delivered_iff_quiet (events : List Event) :
    (Along step Delivered boot events ↔ Guarded step Quiet boot events) ∧
      (Guarded step Quiet boot events → ∀ s, run step boot events = .ok s →
        s.reader = .outside → s.keyboard.charReady = false → s.returned = s.produced) := by
  have hboot : boot.Delivered := rfl
  have hseen : boot.Seen := by simp [Seen, boot]
  have hiff : Along step Delivered boot events ↔ Guarded step Quiet boot events := by
    refine along_iff_guarded (J := Seen) (fun s e s' => seen_step) ?_ hseen hboot
    intro s e s' hJ hP hstep
    cases e with
    | irq scancode => exact delivered_irq_iff hP hstep
    | reader =>
        obtain rfl := Except.ok.inj hstep
        simp only [Quiet, iff_true]
        exact delivered_readerStep hJ hP
  refine ⟨hiff, fun hquiet s hrun hr hready => ?_⟩
  have hlast : s.Delivered := Along.last (hiff.mpr hquiet) hrun
  simpa [Delivered, inFlight, hr, hready] using hlast.symm

/-- Two keys before the first read: the reader gets only the second.  And a key between the
clear and the read: the reader gets it twice. -/
theorem not_delivered_two_keys :
    (∃ s, run step boot [.irq 0x1E, .irq 0x30, .reader, .reader, .reader, .reader] = .ok s ∧
      s.produced = [97, 98] ∧ s.returned = [98] ∧ s.keyboard.charReady = false) ∧
    (∃ s, run step boot [.irq 0x1E, .reader, .reader, .reader, .irq 0x30, .reader, .reader,
        .reader, .reader, .reader] = .ok s ∧
      s.produced = [97, 98] ∧ s.returned = [98, 98]) := by
  refine ⟨⟨_, rfl, ?_⟩, ⟨_, rfl, ?_⟩⟩ <;> decide

end Console

end FalastinOS.Drivers
