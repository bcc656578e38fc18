/-
  Doom/Files.lean --- `doom_compat.c`: the files DOOM opens.

  A descriptor is an entry of `doom_files`: a name, a position and the size the file had
  when it was opened.  Below it are `fs_read` and `fs_write`, which know no position:
  the one reads from the start of the file, the other replaces the file.  `doom_read`
  and `doom_write` move the position and do not use it.

  A `SeekFile` says what a file should do.  `agrees_iff_plain` says exactly in which
  runs a descriptor does it: every read is of bytes the file begins with, every write
  covers the whole file, and a seek from the end finds the size that was noted.
-/
import FalastinOS.Foundation.SeekFile
import FalastinOS.DiskFs.Contents

set_option autoImplicit false

namespace FalastinOS.Doom

open FalastinOS.Foundation FalastinOS.DiskFs

/-! ## The descriptors -/

/-- `DoomFile`. -/
structure DoomFile where
  name : CharArray 256
  used : Bool
  pos : Int32
  size : Int32

/-- The name as the functions of `diskfs.c` read it. -/
def DoomFile.path (f : DoomFile) : CStr := ⟨f.name.toCStr, f.name.zero_notMem_toCStr⟩

/-- The file system and `doom_files`. -/
structure Compat where
  machine : Machine
  doomFiles : Fin 16 → DoomFile

/-- What a call returns, prints, and stores into the caller's buffer. -/
structure Result where
  ret : Int32
  out : List UInt8
  buffer : List UInt8
  compat : Compat

/-- `strcpy` into the name of a descriptor; a longer string runs over its end. -/
def strcpy (dst : CharArray 256) (src : CStr) : Except Fault (CharArray 256) :=
  if src.length < 256 then .ok fun k => if k.val ≤ src.length then src.byte k.val else dst k
  else .error (.dataIndex 256)

namespace Compat

/-- The first descriptor that is not in use. -/
def firstUnused (d : Compat) : Option (Fin 16) :=
  (List.finRange 16).find? fun i => !(d.doomFiles i).used

/-- Another entry for a descriptor. -/
def withFile (d : Compat) (i : Fin 16) (f : DoomFile) : Compat :=
  { d with doomFiles := Function.update d.doomFiles i f }

/-- Another position for a descriptor. -/
def moved (d : Compat) (i : Fin 16) (pos : Int32) : Compat :=
  d.withFile i { d.doomFiles i with pos := pos }

/-- The index `fd - 3`, if it is in range. -/
def indexOf (fd : Int32) : Option (Fin 16) :=
  if h : 0 ≤ fd.toInt - 3 ∧ fd.toInt - 3 < 16 then some ⟨(fd.toInt - 3).toNat, by omega⟩ else none

/-- The same, if the descriptor is in use too. -/
def opened (d : Compat) (fd : Int32) : Option (Fin 16) :=
  (indexOf fd).filter fun i => (d.doomFiles i).used

end Compat

open Compat

/-- `doom_open(path, flags)`. -/
def doomOpen (d : Compat) (path : CStr) : Except Fault Result :=
  match d.firstUnused with
  | none => .ok ⟨-1, [], [], d⟩
  | some i => do
      let name ← strcpy (d.doomFiles i).name path
      let r ← diskfsRead d.machine path 4096
      if 0 < r.ret then
        .ok ⟨Int32.ofNat (i.val + 3), r.out, [], d.withFile i ⟨name, true, 0, r.ret⟩⟩
      else
        let created := diskfsCreate d.machine path
        .ok ⟨Int32.ofNat (i.val + 3), r.out ++ created.out, [],
          { d.withFile i ⟨name, true, 0, 0⟩ with machine := created.machine }⟩

/-- `doom_read(fd, buf, count)`. -/
def doomRead (d : Compat) (fd count : Int32) : Except Fault Result :=
  match d.opened fd with
  | none => .ok ⟨-1, [], [], d⟩
  | some i => do
      let r ← diskfsRead d.machine (d.doomFiles i).path count
      .ok ⟨r.ret, r.out, r.buffer,
        if 0 < r.ret then d.moved i ((d.doomFiles i).pos + r.ret) else d⟩

/-- `doom_write(fd, buf, count)`; descriptors 1 and 2 are the console. -/
def doomWrite (d : Compat) (fd : Int32) (data : Nat → UInt8) (count : Int32) :
    Except Fault Result :=
  if fd = 1 ∨ fd = 2 then .ok ⟨count, (bytesOf data count).takeWhile (· ≠ 0), [], d⟩
  else
    match d.opened fd with
    | none => .ok ⟨-1, [], [], d⟩
    | some i => do
        let r ← diskfsWrite d.machine (d.doomFiles i).path data count
        .ok ⟨count, r.out, [],
          { d.moved i ((d.doomFiles i).pos + count) with machine := r.machine }⟩

/-- `doom_close(fd)`. -/
def doomClose (d : Compat) (fd : Int32) : Result :=
  match indexOf fd with
  | none => ⟨0, [], [], d⟩
  | some i => ⟨0, [], [], d.withFile i ⟨(d.doomFiles i).name.set 0 0, false, 0, 0⟩⟩

/-- `doom_lseek(fd, offset, whence)`. -/
def doomLseek (d : Compat) (fd offset whence : Int32) : Result :=
  match d.opened fd with
  | none => ⟨-1, [], [], d⟩
  | some i =>
      let f := d.doomFiles i
      if whence = 0 then ⟨offset, [], [], d.moved i offset⟩
      else if whence = 1 then ⟨f.pos + offset, [], [], d.moved i (f.pos + offset)⟩
      else if whence = 2 then ⟨f.size + offset, [], [], d.moved i (f.size + offset)⟩
      else ⟨-1, [], [], d⟩

/-! ## Beside a file with an offset -/

/-- A call on a descriptor. -/
inductive Op where
  | read (count : Int32) (nonneg : 0 ≤ count)
  | write (data : Nat → UInt8) (count : Int32) (nonneg : 0 ≤ count)
  | lseek (offset whence : Int32)

/-- What the call does. -/
def Op.exec (d : Compat) (fd : Int32) : Op → Except Fault Result
  | .read count _ => doomRead d fd count
  | .write data count _ => doomWrite d fd data count
  | .lseek offset whence => .ok (doomLseek d fd offset whence)

/-- `SEEK_SET`, `SEEK_CUR` and `SEEK_END`. -/
def whenceOf (whence : Int32) : Option Whence :=
  if whence = 0 then some .start
  else if whence = 1 then some .here
  else if whence = 2 then some .finish
  else none

/-- What the call should do to a file: the number it returns, the bytes it reads and the file
after it.  A seek that fails returns -1. -/
def Op.onFile (f : SeekFile UInt8) : Op → Int × List UInt8 × SeekFile UInt8
  | .read count _ =>
      let bytes := f.peek count.toInt.toNat
      (bytes.length, bytes, f.read count.toInt.toNat)
  | .write data count _ => (count.toInt, [], f.write 0 (bytesOf data count))
  | .lseek offset whence =>
      match (whenceOf whence).bind fun w => f.seek (2 ^ 31) w offset.toInt with
      | some f' => (f'.offset, [], f')
      | none => (-1, [], f)

/-- The code, a file with an offset, and whether the last call returned the same on both. -/
structure Compared where
  compat : Compat
  file : SeekFile UInt8
  agreed : Bool

/-- Both after a call of which the code's result is known. -/
def Compared.after (s : Compared) (op : Op) (r : Result) : Compared where
  compat := r.compat
  file := (op.onFile s.file).2.2
  agreed := decide (r.ret.toInt = (op.onFile s.file).1) &&
    decide (r.buffer = (op.onFile s.file).2.1)

/-- A call on both. -/
def Compared.step (fd : Int32) (s : Compared) (op : Op) : Except Fault Compared := do
  let r ← op.exec s.compat fd
  .ok (s.after op r)

/-- The bytes of a file, the position in it, and the size that `doom_open` noted. -/
structure OpenFile where
  contents : List UInt8
  pos : Int
  size : Int
  deriving DecidableEq

/-- Where `doom_lseek` counts from. -/
def OpenFile.base (f : OpenFile) : Whence → Int
  | .start => 0
  | .here => f.pos
  | .finish => f.size

/-- What the descriptor stands for, if it is in use and the file is there. -/
def Compat.openFile (d : Compat) (fd : Int32) : Option OpenFile := do
  let i ← d.opened fd
  let slot ← d.machine.view.lookup (d.doomFiles i).path
  some ⟨(d.machine.files slot).contents, (d.doomFiles i).pos.toInt, (d.doomFiles i).size.toInt⟩

/-- The last results are the same, and so are the bytes of the file and the position. -/
structure Compared.Agrees (fd : Int32) (s : Compared) : Prop where
  results : s.agreed = true
  openFile : ∃ size, s.compat.openFile fd = some ⟨s.file.contents, s.file.offset, size⟩

/-- The calls for which the position and the size noted make no difference. -/
def Op.Plain (f : OpenFile) : Op → Prop
  | .read count _ =>
      -- the bytes at the position are those the file begins with
      (f.contents.drop f.pos.toNat).take count.toInt.toNat = f.contents.take count.toInt.toNat
  | .write _ count _ =>
      -- the bytes cover the whole file, and they are not too many
      f.contents.length ≤ count.toInt ∧ count.toInt ≤ 8192 ∧ (f.pos = 0 ∨ count = 0)
  | .lseek offset whence =>
      -- the new position is a position, and the size noted is right where it is used
      ∀ w, whenceOf whence = some w →
        (w = .finish → f.size = f.contents.length) ∧
          0 ≤ f.base w + offset.toInt ∧ f.base w + offset.toInt < 2 ^ 31

/-! ## A descriptor in use -/

/-- The descriptor stands for the file in the slot. -/
structure Sound (fd : Int32) (i : Fin 16) (slot : Slot) (d : Compat) : Prop where
  opened : d.opened fd = some i
  found : d.machine.view.lookup (d.doomFiles i).path = some slot
  sized : 0 ≤ (d.machine.files slot).size ∧ (d.machine.files slot).size ≤ 8192

variable {fd : Int32} {i : Fin 16} {slot : Slot} {d : Compat}

theorem Sound.openFile (h : Sound fd i slot d) :
    d.openFile fd = some ⟨(d.machine.files slot).contents, (d.doomFiles i).pos.toInt,
      (d.doomFiles i).size.toInt⟩ := by
  simp only [Compat.openFile, h.opened, h.found, Option.bind_eq_bind, Option.bind_some]

theorem Sound.length_le (h : Sound fd i slot d) :
    (d.machine.files slot).contents.length ≤ 8192 := by
  have hsize : (d.machine.files slot).size.toInt ≤ 8192 := Int32.le_iff_toInt_le.mp h.sized.2
  simp only [File.contents, List.length_map, List.length_range]
  omega

theorem indexOf_ofNat (i : Fin 16) : indexOf (Int32.ofNat (i.val + 3)) = some i := by
  have hfd : (Int32.ofNat (i.val + 3)).toInt = i.val + 3 := Int32.toInt_ofNat_of_lt (by omega)
  rw [indexOf, dif_pos (by omega)]
  congr 1
  exact Fin.ext (by simp only; omega)

/-- A descriptor in use is not the console. -/
theorem Sound.not_console (h : Sound fd i slot d) : ¬ (fd = 1 ∨ fd = 2) := by
  have hindex : indexOf fd = some i := (Option.filter_eq_some_iff.mp h.opened).1
  rintro (rfl | rfl)
  · exact absurd hindex (by simp [indexOf])
  · exact absurd hindex (by simp [indexOf])

@[simp] theorem withFile_self (d : Compat) (i : Fin 16) (f : DoomFile) :
    (d.withFile i f).doomFiles i = f := Function.update_self ..

@[simp] theorem moved_self (d : Compat) (i : Fin 16) (pos : Int32) :
    (d.moved i pos).doomFiles i = { d.doomFiles i with pos := pos } := withFile_self ..

/-- A descriptor that was closed is not in use. -/
theorem opened_doomClose (d : Compat) (fd : Int32) : (doomClose d fd).compat.opened fd = none := by
  unfold doomClose Compat.opened
  cases indexOf fd with
  | none => rfl
  | some i => simp

/-- A descriptor stays in use when its position changes. -/
theorem opened_moved (d : Compat) (i : Fin 16) (pos : Int32) (fd : Int32) :
    (d.moved i pos).opened fd = d.opened fd := by
  have hused : (fun k => ((d.moved i pos).doomFiles k).used) = fun k => (d.doomFiles k).used := by
    funext k
    by_cases hk : k = i
    · rw [hk, moved_self]
    · simp [moved, withFile, hk]
  rw [Compat.opened, Compat.opened, hused]

theorem Sound.moved (h : Sound fd i slot d) (pos : Int32) : Sound fd i slot (d.moved i pos) where
  opened := (opened_moved d i pos fd).trans h.opened
  found := by
    rw [moved_self]
    exact h.found
  sized := h.sized

theorem Sound.store (h : Sound fd i slot d) {m : Machine} (data : Nat → UInt8) {size : Int32}
    (hlow : 0 ≤ size) (hhigh : size ≤ 8192) (hview : m.view = d.machine.view.store slot data size) :
    Sound fd i slot { d with machine := m } where
  opened := h.opened
  found := by
    rw [hview, View.lookup_store]
    exact h.found
  sized := by
    have hsize : (m.files slot).size = size := by
      rw [← m.view_files, hview]
      simp [View.store]
    rw [hsize]
    exact ⟨hlow, hhigh⟩

/-! ## What a call does -/

/-- A read returns the first bytes of the file, wherever the position is. -/
theorem Sound.read (h : Sound fd i slot d) {count : Int32} (hcount : 0 ≤ count) :
    ∃ r, doomRead d fd count = .ok r ∧
      r.buffer = (d.machine.files slot).contents.take count.toInt.toNat ∧
      r.ret.toInt = r.buffer.length ∧ r.compat = d.moved i ((d.doomFiles i).pos + r.ret) := by
  have hcount' : (0 : Int) ≤ count.toInt := Int32.le_iff_toInt_le.mp hcount
  obtain ⟨r, hread, hbuffer, hret⟩ := diskfsRead_found hcount h.found h.sized
  have hlength : r.ret.toInt = r.buffer.length := by
    rw [hbuffer, hret, List.length_take]
    omega
  rw [doomRead, h.opened]
  dsimp only
  rw [hread]
  refine ⟨_, rfl, hbuffer, hlength, ?_⟩
  dsimp only
  split
  · rfl
  · -- nothing was read, and the position is the same plus 0
    rename_i hzero
    have hnone : r.ret = 0 := by
      rw [Int32.lt_iff_toInt_lt, hlength] at hzero
      rw [← Int32.toInt_inj, hlength]
      have hempty : (0 : Int32).toInt = 0 := rfl
      omega
    rw [hnone, Int32.add_zero]
    exact (congrArg (Compat.mk d.machine) (Function.update_eq_self i d.doomFiles)).symm

/-- A write replaces the file if it is not too large. -/
theorem Sound.write (h : Sound fd i slot d) (data : Nat → UInt8) {count : Int32}
    (hcount : 0 ≤ count) :
    ∃ r, doomWrite d fd data count = .ok r ∧ r.buffer = [] ∧ r.ret = count ∧
      Sound fd i slot r.compat ∧
      (r.compat.doomFiles i).pos = (d.doomFiles i).pos + count ∧
      (r.compat.machine.files slot).contents =
        if count ≤ 8192 then bytesOf data count else (d.machine.files slot).contents := by
  have hmoved := h.moved ((d.doomFiles i).pos + count)
  rw [doomWrite, if_neg h.not_console, h.opened]
  dsimp only
  by_cases hfits : count ≤ 8192
  · obtain ⟨r, hwrite, _, hview⟩ := diskfsWrite_found h.found hfits data
    rw [hwrite]
    refine ⟨_, rfl, rfl, rfl, hmoved.store data hcount hfits hview, ?_, ?_⟩
    · exact congrArg DoomFile.pos (moved_self d i _)
    · rw [if_pos hfits, ← contents_store d.machine.view slot data hfits, ← hview]
      rfl
  · obtain ⟨r, hwrite, hsame⟩ := diskfsWrite_too_large h.found (Int32.not_le.mp hfits) data
    rw [hwrite]
    refine ⟨_, rfl, rfl, rfl, ?_, ?_, ?_⟩
    · dsimp only
      rw [hsame]
      exact hmoved
    · exact congrArg DoomFile.pos (moved_self d i _)
    · rw [if_neg hfits, ← hsame]

/-- Where a seek counts from. -/
def DoomFile.base (f : DoomFile) : Whence → Int32
  | .start => 0
  | .here => f.pos
  | .finish => f.size

theorem Sound.lseek (h : Sound fd i slot d) (offset whence : Int32) :
    doomLseek d fd offset whence =
      match whenceOf whence with
      | none => ⟨-1, [], [], d⟩
      | some w => ⟨(d.doomFiles i).base w + offset, [], [],
          d.moved i ((d.doomFiles i).base w + offset)⟩ := by
  rw [doomLseek, h.opened, whenceOf]
  dsimp only
  split
  · simp only [DoomFile.base, Int32.zero_add]
  · split
    · rfl
    · split <;> rfl

/-- No call faults, and the descriptor stays what it is. -/
theorem Sound.exists_exec (h : Sound fd i slot d) (op : Op) :
    ∃ r, op.exec d fd = .ok r ∧ Sound fd i slot r.compat := by
  cases op with
  | read count hcount =>
      obtain ⟨r, hread, _, _, hcompat⟩ := h.read hcount
      refine ⟨r, hread, ?_⟩
      rw [hcompat]
      exact h.moved _
  | write data count hcount =>
      obtain ⟨r, hwrite, _, _, hsound, _⟩ := h.write data hcount
      exact ⟨r, hwrite, hsound⟩
  | lseek offset whence =>
      refine ⟨_, rfl, ?_⟩
      rw [h.lseek]
      cases whenceOf whence with
      | none => exact h
      | some w => exact h.moved _

theorem Sound.exec (h : Sound fd i slot d) {op : Op} {r : Result} (hexec : op.exec d fd = .ok r) :
    Sound fd i slot r.compat := by
  obtain ⟨_, hr, hsound⟩ := h.exists_exec op
  obtain rfl := Except.ok.inj (hr.symm.trans hexec)
  exact hsound

/-! ## One call -/

variable {s : Compared}

/-- The call agrees if the results do, the bytes of the file and the position. -/
theorem Sound.agrees_iff (h : Sound fd i slot s.compat) :
    s.Agrees fd ↔ s.agreed = true ∧
      (s.compat.machine.files slot).contents = s.file.contents ∧
      (s.compat.doomFiles i).pos.toInt = s.file.offset := by
  constructor
  · rintro ⟨hresults, size, hfile⟩
    rw [h.openFile, Option.some.injEq, OpenFile.mk.injEq] at hfile
    exact ⟨hresults, hfile.1, hfile.2.1⟩
  · rintro ⟨hresults, hcontents, hpos⟩
    refine ⟨hresults, (s.compat.doomFiles i).size.toInt, ?_⟩
    rw [h.openFile, hcontents, hpos]

theorem agrees_after_iff {op : Op} {r : Result} (h : Sound fd i slot r.compat) :
    (s.after op r).Agrees fd ↔
      (r.ret.toInt = (op.onFile s.file).1 ∧ r.buffer = (op.onFile s.file).2.1) ∧
        (r.compat.machine.files slot).contents = (op.onFile s.file).2.2.contents ∧
        (r.compat.doomFiles i).pos.toInt = (op.onFile s.file).2.2.offset := by
  rw [Sound.agrees_iff (s := s.after op r) h]
  simp only [Compared.after, Bool.and_eq_true, decide_eq_true_eq]

/-- A read agrees exactly if the bytes at the position are those the file begins with. -/
theorem agrees_read_iff (h : Sound fd i slot s.compat) (ha : s.Agrees fd) {count : Int32}
    {hcount : 0 ≤ count} {r : Result} (hexec : (Op.read count hcount).exec s.compat fd = .ok r)
    (size : Int) :
    (s.after (.read count hcount) r).Agrees fd ↔
      (Op.read count hcount).Plain ⟨s.file.contents, s.file.offset, size⟩ := by
  obtain ⟨_, hcontents, hpos⟩ := h.agrees_iff.mp ha
  obtain ⟨_, hread, hbuffer, hret, hcompat⟩ := h.read hcount
  obtain rfl := Except.ok.inj (hexec.symm.trans hread)
  have hlength := h.length_le
  rw [hcontents] at hbuffer hlength
  rw [agrees_after_iff (h.exec hexec)]
  simp only [Op.onFile, Op.Plain, SeekFile.read, SeekFile.peek, Int.toNat_natCast]
  constructor
  · rintro ⟨⟨_, hbytes⟩, _⟩
    rw [← hbytes, hbuffer]
  · intro hplain
    have hbytes : r.buffer =
        (s.file.contents.drop s.file.offset).take count.toInt.toNat := hbuffer.trans hplain.symm
    refine ⟨⟨by rw [hret, hbytes], hbytes⟩, ?_, ?_⟩
    · rw [hcompat]
      exact hcontents
    · -- bytes were read only if the position is inside the file, so it does not overflow
      have hinside : 0 < r.buffer.length → s.file.offset < s.file.contents.length := by
        rw [hbytes, List.length_take, List.length_drop]
        omega
      have hmost : r.buffer.length ≤ s.file.contents.length := by
        rw [hbuffer, List.length_take]
        omega
      have hlimit := (s.compat.doomFiles i).pos.toInt_lt
      rw [hcompat, moved_self, toInt_add_of_bounds (by omega) (by omega), hpos, hret, ← hbytes]
      simp

/-- A write agrees exactly if it covers the whole file. -/
theorem agrees_write_iff (h : Sound fd i slot s.compat) (ha : s.Agrees fd) {data : Nat → UInt8}
    {count : Int32} {hcount : 0 ≤ count} {r : Result}
    (hexec : (Op.write data count hcount).exec s.compat fd = .ok r) (size : Int) :
    (s.after (.write data count hcount) r).Agrees fd ↔
      (Op.write data count hcount).Plain ⟨s.file.contents, s.file.offset, size⟩ := by
  obtain ⟨_, hcontents, hpos⟩ := h.agrees_iff.mp ha
  obtain ⟨_, hwrite, hbuffer, hret, _, hmoved, hstored⟩ := h.write data hcount
  obtain rfl := Except.ok.inj (hexec.symm.trans hwrite)
  have hcount' : (0 : Int) ≤ count.toInt := Int32.le_iff_toInt_le.mp hcount
  have hbytes : (bytesOf data count).length = count.toInt.toNat := by simp [bytesOf]
  have hnone : bytesOf data count = [] ↔ count = 0 := by
    have hzero : (0 : Int32).toInt = 0 := rfl
    rw [← List.length_eq_zero_iff, hbytes, ← Int32.toInt_inj]
    omega
  rw [agrees_after_iff (h.exec hexec), hstored, hmoved, hret, hbuffer, hcontents]
  simp only [Op.onFile, Op.Plain, true_and, Int.natCast_eq_zero]
  have hlimit : (8192 : Int32).toInt = 8192 := rfl
  by_cases hfits : count ≤ 8192
  · have hfits' : count.toInt ≤ 8192 := Int32.le_iff_toInt_le.mp hfits
    rw [if_pos hfits, eq_comm, SeekFile.contents_write_eq_iff, hbytes, hnone]
    constructor
    · rintro ⟨⟨hle, hwhole⟩, _⟩
      exact ⟨by omega, hfits', hwhole⟩
    · rintro ⟨hle, _, hwhole⟩
      refine ⟨⟨by omega, hwhole⟩, ?_⟩
      rw [SeekFile.write]
      split
      · rename_i hempty
        rw [hnone.mp hempty, Int32.add_zero, hpos]
      · rename_i hdata
        have hstart : s.file.offset = 0 := hwhole.resolve_right fun hz => hdata (hnone.mpr hz)
        rw [toInt_add_of_bounds (by omega) (by omega), hpos, hstart, hbytes]
        simp only
        omega
  · have hlarge : 8192 < count.toInt := by
      rw [Int32.not_le, Int32.lt_iff_toInt_lt, hlimit] at hfits
      exact hfits
    rw [if_neg hfits]
    refine iff_of_false ?_ fun hplain => by omega
    rintro ⟨hsame, _⟩
    -- the reference has become longer than the file system lets a file be
    have hne : bytesOf data count ≠ [] := by
      rw [Ne, ← List.length_eq_zero_iff, hbytes]
      omega
    have hgrown := s.file.length_contents_write 0 hne
    have hlength := h.length_le
    rw [hcontents] at hlength
    rw [← hsame, hbytes] at hgrown
    omega

/-- Counting from two places leads to the same position exactly if the places are the same. -/
theorem toInt_add_eq_iff {a b : Int32} {o : Nat} (ho : o < 2 ^ 31) (hlow : 0 ≤ o + b.toInt)
    (hhigh : o + b.toInt < 2 ^ 31) : (a + b).toInt = o + b.toInt ↔ a.toInt = o := by
  have hof : (Int32.ofNat o).toInt = o := Int32.toInt_ofNat_of_lt ho
  constructor
  · intro hsum
    have hsame : (a + b).toInt = (Int32.ofNat o + b).toInt := by
      rw [hsum, toInt_add_of_bounds (by omega) (by omega), hof]
    rw [Int32.toInt_inj, Int32.add_left_inj] at hsame
    rw [hsame, hof]
  · intro ha
    rw [toInt_add_of_bounds (by omega) (by omega), ha]

/-- Where a seek counts from is what the descriptor has for it. -/
theorem base_eq_toInt {f : DoomFile} {offset : Nat} (hpos : f.pos.toInt = offset)
    (contents : List UInt8) (w : Whence) :
    OpenFile.base ⟨contents, offset, f.size.toInt⟩ w = (f.base w).toInt := by
  cases w with
  | start => rfl
  | here => exact hpos.symm
  | finish => rfl

/-- It is where the file has it, but for the end if the size noted is wrong. -/
theorem base_eq_origin_iff {f : DoomFile} {file : SeekFile UInt8}
    (hpos : f.pos.toInt = file.offset) (w : Whence) :
    (w = .finish → f.size.toInt = file.contents.length) ↔ (f.base w).toInt = file.origin w := by
  cases w with
  | start => simp [DoomFile.base, SeekFile.origin]
  | here => simpa [DoomFile.base, SeekFile.origin] using hpos
  | finish => simp [DoomFile.base, SeekFile.origin]

/-- A seek agrees exactly if its end is a position and the size noted, where it is used, is
right. -/
theorem agrees_lseek_iff (h : Sound fd i slot s.compat) (ha : s.Agrees fd)
    (offset whence : Int32) :
    (s.after (.lseek offset whence) (doomLseek s.compat fd offset whence)).Agrees fd ↔
      (Op.lseek offset whence).Plain
        ⟨s.file.contents, s.file.offset, (s.compat.doomFiles i).size.toInt⟩ := by
  obtain ⟨_, hcontents, hpos⟩ := h.agrees_iff.mp ha
  rw [h.lseek]
  cases hwhence : whenceOf whence with
  | none =>
      rw [agrees_after_iff (r := ⟨-1, [], [], s.compat⟩) h]
      simp only [Op.onFile, Op.Plain, hwhence, Option.bind_none, reduceCtorEq, false_imp_iff,
        implies_true, iff_true]
      exact ⟨⟨rfl, trivial⟩, hcontents, hpos⟩
  | some w =>
      have hlength := h.length_le
      have hlimit := (s.compat.doomFiles i).pos.toInt_lt
      rw [hcontents] at hlength
      have ho : s.file.origin w < 2 ^ 31 := by
        cases w <;> simp only [SeekFile.origin] <;> omega
      have hbase := base_eq_toInt hpos s.file.contents w
      have hright := base_eq_origin_iff hpos w
      rw [agrees_after_iff (r := ⟨_, [], [], s.compat.moved i _⟩) (h.moved _), moved_self]
      simp only [Op.onFile, Op.Plain, hwhence, Option.some.injEq, forall_eq', Option.bind_some,
        hright, hbase, SeekFile.seek]
      by_cases hrange : 0 ≤ s.file.origin w + offset.toInt ∧
          s.file.origin w + offset.toInt < ((2 ^ 31 : Nat) : Int)
      · rw [if_pos hrange]
        have hnat : ((s.file.origin w + offset.toInt).toNat : Int) =
            s.file.origin w + offset.toInt := Int.toNat_of_nonneg hrange.1
        simp only [hnat, and_true]
        rw [toInt_add_eq_iff ho hrange.1 (by simpa using hrange.2)]
        constructor
        · rintro ⟨hsame, _⟩
          rw [hsame]
          exact ⟨rfl, hrange.1, by simpa using hrange.2⟩
        · rintro ⟨hsame, _⟩
          exact ⟨hsame, hcontents, hsame⟩
      · rw [if_neg hrange]
        refine iff_of_false ?_ ?_
        · rintro ⟨⟨hfailed, _⟩, _, hstay⟩
          simp only at hfailed hstay
          omega
        · rintro ⟨hsame, hlow, hhigh⟩
          omega

/-- The call is plain on what the descriptor stands for. -/
def Compared.Plain (fd : Int32) (s : Compared) (op : Op) : Prop :=
  ∀ f, s.compat.openFile fd = some f → op.Plain f

/-- One call agrees exactly if it is plain. -/
theorem agrees_step_iff {s' : Compared} {op : Op} (h : Sound fd i slot s.compat)
    (ha : s.Agrees fd) (hstep : s.step fd op = .ok s') :
    Sound fd i slot s'.compat ∧ (s'.Agrees fd ↔ s.Plain fd op) := by
  obtain ⟨_, hcontents, hpos⟩ := h.agrees_iff.mp ha
  obtain ⟨r, hexec, hsound⟩ := h.exists_exec op
  rw [Compared.step, hexec] at hstep
  obtain rfl := Except.ok.inj hstep
  refine ⟨hsound, ?_⟩
  simp only [Compared.Plain, h.openFile, Option.some.injEq, forall_eq', hcontents, hpos]
  cases op with
  | read count hcount => exact agrees_read_iff h ha hexec _
  | write data count hcount => exact agrees_write_iff h ha hexec _
  | lseek offset whence =>
      obtain rfl := Except.ok.inj hexec
      exact agrees_lseek_iff h ha offset whence

/-! ## From `doom_open` on -/

/-- A name that was copied is the name that is read. -/
theorem toCStr_strcpy {dst name : CharArray 256} {src : CStr} (h : strcpy dst src = .ok name) :
    name.toCStr = src.bytes := by
  unfold strcpy at h
  split at h
  · rename_i hshort
    obtain rfl := Except.ok.inj h
    have hlength : src.bytes.length = src.length := rfl
    rw [CharArray.toCStr_eq_iff _ src.noNul]
    refine ⟨by omega, fun k => ⟨fun hk => ?_, fun hk => ?_⟩⟩
    · rw [if_pos (by omega), src.byte_of_lt hk]
    · rw [if_pos (by omega), src.byte_eq_zero_iff]
      omega
  · exact nomatch h

/-- An entry for a file that exists. -/
theorem sound_withFile {f : DoomFile} (hused : f.used = true)
    (hfind : d.machine.view.lookup f.path = some slot)
    (hsized : 0 ≤ (d.machine.files slot).size ∧ (d.machine.files slot).size ≤ 8192)
    (i : Fin 16) :
    Sound (Int32.ofNat (i.val + 3)) i slot (d.withFile i f) := by
  constructor
  · rw [Compat.opened, indexOf_ofNat, Option.filter_some, withFile_self, if_pos hused]
  · rw [withFile_self]
    exact hfind
  · exact hsized

/-- The descriptor that `doom_open` returns for a file that exists. -/
theorem doomOpen_found {log : List Event} (h : History d.machine log) {path : CStr}
    (hfind : d.machine.view.lookup path = some slot) {r : Result}
    (hopen : doomOpen d path = .ok r) (hfd : r.ret ≠ -1) :
    ∃ i, Sound r.ret i slot r.compat ∧ (r.compat.doomFiles i).pos = 0 ∧
      r.compat.machine = d.machine := by
  have hsized := (h.holds slot (findFile_some hfind).used).1
  obtain ⟨read, hread, _⟩ := diskfsRead_found (n := 4096) (by decide) hfind hsized
  -- a file that is there is not created again
  have hcreate : (diskfsCreate d.machine path).machine = d.machine := by
    have hlookup : findFile d.machine.files path d.machine.currentDir = some slot := hfind
    rw [diskfsCreate, makeEntry, hlookup]
  unfold doomOpen at hopen
  cases hfree : d.firstUnused with
  | none =>
      rw [hfree] at hopen
      obtain rfl := Except.ok.inj hopen
      exact absurd rfl hfd
  | some i =>
      rw [hfree] at hopen
      dsimp only at hopen
      cases hname : strcpy (d.doomFiles i).name path with
      | error e =>
          rw [hname, error_bind] at hopen
          cases hopen
      | ok name =>
          rw [hname, hread, ok_bind, ok_bind] at hopen
          have hpath : ∀ size : Int32, DoomFile.path ⟨name, true, 0, size⟩ = path := fun size =>
            CStr.eq_of_bytes (toCStr_strcpy hname)
          have hentry : ∀ size : Int32,
              Sound (Int32.ofNat (i.val + 3)) i slot (d.withFile i ⟨name, true, 0, size⟩) := by
            intro size
            refine sound_withFile (f := ⟨name, true, 0, size⟩) rfl ?_ hsized i
            rw [hpath]
            exact hfind
          split at hopen
          · obtain rfl := Except.ok.inj hopen
            refine ⟨i, hentry read.ret, ?_, rfl⟩
            rw [withFile_self]
          · obtain rfl := Except.ok.inj hopen
            dsimp only
            rw [hcreate]
            refine ⟨i, hentry 0, ?_, rfl⟩
            rw [withFile_self]

/-- A descriptor that was just opened, beside the file at its start. -/
def justOpened (r : Result) (contents : List UInt8) : Compared := ⟨r.compat, ⟨contents, 0⟩, true⟩

/-- A file is opened, and calls on the descriptor follow.  None of them faults, and they do
throughout what they would do to a file with an offset exactly if every call was plain. -/
theorem agrees_iff_plain {log : List Event} (h : History d.machine log) {path : CStr}
    (hfind : d.machine.view.lookup path = some slot) {r : Result}
    (hopen : doomOpen d path = .ok r) (hfd : r.ret ≠ -1) (ops : List Op) :
    (∃ s, run (Compared.step r.ret) (justOpened r (d.machine.files slot).contents) ops = .ok s) ∧
      (Along (Compared.step r.ret) (Compared.Agrees r.ret)
          (justOpened r (d.machine.files slot).contents) ops ↔
        Guarded (Compared.step r.ret) (Compared.Plain r.ret)
          (justOpened r (d.machine.files slot).contents) ops) := by
  obtain ⟨i, hsound, hpos, hmachine⟩ := doomOpen_found h hfind hopen hfd
  have hstart : (justOpened r (d.machine.files slot).contents).Agrees r.ret := by
    refine (Sound.agrees_iff (s := justOpened r _) hsound).mpr ⟨rfl, ?_, ?_⟩
    · rw [justOpened, hmachine]
    · rw [justOpened, hpos]
      rfl
  constructor
  · refine exists_run_of_invariant (I := fun s => Sound r.ret i slot s.compat) ?_ hsound ops
    intro s op hs
    obtain ⟨result, hexec, hkept⟩ := hs.exists_exec op
    exact ⟨s.after op result, by rw [Compared.step, hexec, ok_bind], hkept⟩
  · refine along_iff_of_invariant
      (I := fun s : Compared => Sound r.ret i slot s.compat ∧ s.Agrees r.ret)
      (fun _ hs => hs.2) ?_ ?_
      ⟨hsound, hstart⟩
    · intro s op s' hs hplain hstep
      obtain ⟨hkept, hiff⟩ := agrees_step_iff hs.1 hs.2 hstep
      exact ⟨hkept, hiff.mpr hplain⟩
    · intro s op s' hs hstep hagrees
      exact (agrees_step_iff hs.1 hs.2 hstep).2.mp hagrees

/-- A file of two bytes, and no descriptor in use. -/
def noneOpen : Compat := ⟨writtenReply.machine, fun _ => ⟨fun _ => 0, false, 0, 0⟩⟩

theorem history_noneOpen : ∃ log, History noneOpen.machine log :=
  ⟨_, (History.fresh fresh_bareMachine).call
    (c := .write nameA (fun k => UInt8.ofNat (104 + k)) 2) (r := writtenReply)
    (show (0 : Int32) ≤ 2 by decide) rfl⟩

theorem lookup_noneOpen : noneOpen.machine.view.lookup nameA = some ⟨1, by decide⟩ := by
  decide +kernel

/-- What `doom_open` returns for the file. -/
def firstOpened : Result :=
  match doomOpen noneOpen nameA with
  | .ok r => r
  | .error _ => ⟨-1, [], [], noneOpen⟩

theorem doomOpen_noneOpen : doomOpen noneOpen nameA = .ok firstOpened := by
  have hok : (doomOpen noneOpen nameA).toOption.isSome = true := by decide +kernel
  rw [firstOpened]
  cases hopen : doomOpen noneOpen nameA with
  | ok r => rfl
  | error e =>
      rw [hopen] at hok
      exact nomatch hok

theorem ret_firstOpened : firstOpened.ret = 3 := by decide +kernel

theorem contents_noneOpen :
    (noneOpen.machine.files ⟨1, by decide⟩).contents = [104, 105] := by decide +kernel

/-- A byte is read, and the size is asked for. -/
def readThenSize : List Op := [.read 1 (by decide), .lseek 0 2]

theorem agrees_iff_plain_readThenSize :
    firstOpened.ret ≠ -1 ∧
      Along (Compared.step firstOpened.ret) (Compared.Agrees firstOpened.ret)
        (justOpened firstOpened [104, 105]) readThenSize := by
  obtain ⟨log, hlog⟩ := history_noneOpen
  have hfd : firstOpened.ret ≠ -1 := by decide +kernel
  have hiff := (agrees_iff_plain hlog lookup_noneOpen doomOpen_noneOpen hfd readThenSize).2
  rw [contents_noneOpen] at hiff
  refine ⟨hfd, hiff.mpr ?_⟩
  have hopen : (justOpened firstOpened [104, 105]).compat.openFile firstOpened.ret =
      some ⟨[104, 105], 0, 2⟩ := by decide +kernel
  have hread : (Compared.step firstOpened.ret (justOpened firstOpened [104, 105])
      (.read 1 (by decide))).toOption.map (fun s => s.compat.openFile firstOpened.ret) =
        some (some ⟨[104, 105], 1, 2⟩) := by decide +kernel
  clear hiff
  generalize justOpened firstOpened [104, 105] = start at hopen hread ⊢
  intro s₁ h₁
  refine ⟨fun f hf => ?_, fun s₂ h₂ => ⟨fun f hf => ?_, trivial⟩⟩
  · obtain rfl := Option.some.inj (hopen.symm.trans hf)
    rfl
  · rw [h₁] at hread
    obtain rfl := Option.some.inj ((Option.some.inj hread).symm.trans hf)
    intro w hw
    obtain rfl := Option.some.inj hw
    decide

/-- The second byte is asked for, and the first one is read again. -/
theorem run_readTwice :
    (run (Compared.step 3) (justOpened firstOpened [104, 105])
      [.read 1 (by decide), .read 1 (by decide)]).toOption.map Compared.agreed = some false := by
  decide +kernel

theorem not_agrees_readTwice :
    (∃ log, History noneOpen.machine log) ∧
      noneOpen.machine.view.lookup nameA = some ⟨1, by decide⟩ ∧
      (noneOpen.machine.files ⟨1, by decide⟩).contents = [104, 105] ∧
      doomOpen noneOpen nameA = .ok firstOpened ∧ firstOpened.ret = 3 ∧
      ¬ Along (Compared.step 3) (Compared.Agrees 3) (justOpened firstOpened [104, 105])
        [.read 1 (by decide), .read 1 (by decide)] := by
  refine ⟨history_noneOpen, lookup_noneOpen, contents_noneOpen, doomOpen_noneOpen,
    ret_firstOpened, fun halong => ?_⟩
  obtain ⟨s, hrun, hend⟩ := exists_run_of_map run_readTwice
  rw [(halong.last hrun).results] at hend
  exact nomatch hend

end FalastinOS.Doom
