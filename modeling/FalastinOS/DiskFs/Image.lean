/-
  DiskFs/Image.lean --- the table as bytes, and `diskfs_save` / `diskfs_load`.

  The source writes the array `files` to disk as raw memory, so its layout
  matters: a record is 32 bytes of name, 8192 bytes of data and four `int`s,
  8240 bytes in all, and the 64 records fill exactly 1030 sectors.  Records are
  not sector aligned.

  `rawOf` is the array seen through `(uint8_t*)files` and `filesOf` reads bytes
  as an array again; `filesOf_rawOf` and `rawOf_filesOf` say that they are
  inverse.  On a working drive `diskfs_save` leaves the image of the table
  (`diskfsSave_image`) and `diskfs_load` reads back the table whose image it
  finds (`diskfsLoad_of_image`).
-/
import FalastinOS.DiskFs.Table
import FalastinOS.Drivers.Ata
import FalastinOS.Foundation.Memory

set_option autoImplicit false

namespace FalastinOS.DiskFs

open FalastinOS.Foundation FalastinOS.Drivers

/-! ## The layout of a record -/

/-- `sizeof(File)`. -/
def recordSize : Nat := 8240

/-- `sizeof(files)`. -/
def totalBytes : Nat := maxFiles * recordSize

/-- `(total_bytes + 511) / 512`. -/
def totalSectors : Nat := (totalBytes + 511) / 512

/-- Byte `k` of a C `int` in memory. -/
def intByte (x : Int32) (k : Nat) : UInt8 := UInt8.ofNat (x.toUInt32.toNat / 256 ^ k)

/-- The C `int` in memory at address `a`. -/
def intAt (m : Mem) (a : Nat) : Int32 := (UInt32.ofNat (m.readLE 4 a)).toInt32

theorem intAt_of_bytes {m : Mem} {a : Nat} {x : Int32}
    (h : ∀ k, k < 4 → m (a + k) = intByte x k) : intAt m a = x := by
  have hread : m.readLE 4 a = x.toUInt32.toNat := by
    rw [Mem.readLE_of_bytes h]
    exact Nat.mod_eq_of_lt x.toUInt32.toNat_lt
  rw [intAt, hread, UInt32.ofNat_toNat, Int32.toInt32_toUInt32]

theorem intByte_intAt (m : Mem) (a : Nat) {k : Nat} (hk : k < 4) :
    intByte (intAt m a) k = m (a + k) := by
  have hlt : m.readLE 4 a < 2 ^ 32 := m.readLE_lt 4 a
  rw [intByte, intAt, UInt32.toUInt32_toInt32, UInt32.toNat_ofNat', Nat.mod_eq_of_lt hlt,
    m.byte_readLE a hk]

/-- Byte `k` of a record. -/
def File.byte (f : File) (k : Nat) : UInt8 :=
  if h : k < maxFilename then f.name ⟨k, h⟩
  else if h : k - 32 < maxFileSize then f.data ⟨k - 32, h⟩
  else if k < 8228 then intByte f.size (k - 8224)
  else if k < 8232 then intByte f.used (k - 8228)
  else if k < 8236 then intByte f.isDir (k - 8232)
  else intByte f.parent (k - 8236)

@[simp] theorem File.byte_name (f : File) (k : Fin maxFilename) : f.byte k.val = f.name k := by
  simp [File.byte]

@[simp] theorem File.byte_data (f : File) (k : Fin maxFileSize) :
    f.byte (32 + k.val) = f.data k := by
  have h : 32 + k.val - 32 < maxFileSize := by
    rw [Nat.add_sub_cancel_left]
    exact k.isLt
  rw [File.byte, dif_neg (by unfold maxFilename; omega), dif_pos h]
  exact congrArg f.data (Fin.ext (Nat.add_sub_cancel_left ..))

theorem File.byte_size (f : File) {k : Nat} (hk : k < 4) :
    f.byte (8224 + k) = intByte f.size k := by
  rw [File.byte, dif_neg (by unfold maxFilename; omega), dif_neg (by unfold maxFileSize; omega),
    if_pos (by omega), Nat.add_sub_cancel_left]

theorem File.byte_used (f : File) {k : Nat} (hk : k < 4) :
    f.byte (8228 + k) = intByte f.used k := by
  rw [File.byte, dif_neg (by unfold maxFilename; omega), dif_neg (by unfold maxFileSize; omega),
    if_neg (by omega), if_pos (by omega), Nat.add_sub_cancel_left]

theorem File.byte_isDir (f : File) {k : Nat} (hk : k < 4) :
    f.byte (8232 + k) = intByte f.isDir k := by
  rw [File.byte, dif_neg (by unfold maxFilename; omega), dif_neg (by unfold maxFileSize; omega),
    if_neg (by omega), if_neg (by omega), if_pos (by omega), Nat.add_sub_cancel_left]

theorem File.byte_parent (f : File) {k : Nat} (hk : k < 4) :
    f.byte (8236 + k) = intByte f.parent k := by
  rw [File.byte, dif_neg (by unfold maxFilename; omega), dif_neg (by unfold maxFileSize; omega),
    if_neg (by omega), if_neg (by omega), if_neg (by omega), Nat.add_sub_cancel_left]

/-- Every offset of a record belongs to one of its six fields. -/
theorem record_cases {P : Nat → Prop} (name : ∀ k : Fin maxFilename, P k.val)
    (data : ∀ k : Fin maxFileSize, P (32 + k.val)) (size : ∀ k, k < 4 → P (8224 + k))
    (used : ∀ k, k < 4 → P (8228 + k)) (isDir : ∀ k, k < 4 → P (8232 + k))
    (parent : ∀ k, k < 4 → P (8236 + k)) {k : Nat} (hk : k < recordSize) : P k := by
  unfold recordSize at hk
  by_cases h1 : k < 32
  · exact name ⟨k, h1⟩
  by_cases h2 : k < 8224
  · have := data ⟨k - 32, by unfold maxFileSize; omega⟩
    rwa [Nat.add_sub_cancel' (by omega)] at this
  by_cases h3 : k < 8228
  · have := size (k - 8224) (by omega)
    rwa [Nat.add_sub_cancel' (by omega)] at this
  by_cases h4 : k < 8232
  · have := used (k - 8228) (by omega)
    rwa [Nat.add_sub_cancel' (by omega)] at this
  by_cases h5 : k < 8236
  · have := isDir (k - 8232) (by omega)
    rwa [Nat.add_sub_cancel' (by omega)] at this
  · have := parent (k - 8236) (by omega)
    rwa [Nat.add_sub_cancel' (by omega)] at this

/-- The record whose bytes start at address `a`. -/
def File.ofBytes (m : Mem) (a : Nat) : File where
  name := fun k => m (a + k.val)
  data := fun k => m (a + (32 + k.val))
  size := intAt m (a + 8224)
  used := intAt m (a + 8228)
  isDir := intAt m (a + 8232)
  parent := intAt m (a + 8236)

/-- A record read from bytes that are its own is the record. -/
theorem File.ofBytes_of_bytes {m : Mem} {a : Nat} {f : File}
    (h : ∀ k, k < recordSize → m (a + k) = f.byte k) : File.ofBytes m a = f := by
  have hint : ∀ (off : Nat) {x : Int32}, off + 4 ≤ recordSize →
      (∀ {k : Nat}, k < 4 → f.byte (off + k) = intByte x k) → intAt m (a + off) = x := by
    intro off x hoff hx
    refine intAt_of_bytes fun k hk => ?_
    rw [Nat.add_assoc, h _ (by omega), hx hk]
  have hname : (fun k : Fin maxFilename => m (a + k.val)) = f.name := by
    funext k
    rw [h _ (Nat.lt_trans k.isLt (by decide)), File.byte_name]
  have hdata : (fun k : Fin maxFileSize => m (a + (32 + k.val))) = f.data := by
    funext k
    have hk : k.val < 8192 := k.isLt
    rw [h _ (by unfold recordSize; omega), File.byte_data]
  have hsize := hint 8224 (by decide) f.byte_size
  have hused := hint 8228 (by decide) f.byte_used
  have hisDir := hint 8232 (by decide) f.byte_isDir
  have hparent := hint 8236 (by decide) f.byte_parent
  simp only [File.ofBytes, hname, hdata, hsize, hused, hisDir, hparent]

/-- The bytes of a record read from memory are the bytes it was read from. -/
theorem File.byte_ofBytes (m : Mem) (a : Nat) {k : Nat} (hk : k < recordSize) :
    (File.ofBytes m a).byte k = m (a + k) := by
  refine record_cases (P := fun k => (File.ofBytes m a).byte k = m (a + k)) ?_ ?_ ?_ ?_ ?_ ?_ hk
  · exact fun k => File.byte_name _ k
  · exact fun k => File.byte_data _ k
  · intro k hk
    rw [File.byte_size _ hk, ← Nat.add_assoc]
    exact intByte_intAt m _ hk
  · intro k hk
    rw [File.byte_used _ hk, ← Nat.add_assoc]
    exact intByte_intAt m _ hk
  · intro k hk
    rw [File.byte_isDir _ hk, ← Nat.add_assoc]
    exact intByte_intAt m _ hk
  · intro k hk
    rw [File.byte_parent _ hk, ← Nat.add_assoc]
    exact intByte_intAt m _ hk

/-! ## The array as bytes -/

/-- `(uint8_t*)files`. -/
def rawOf (files : Files) : Mem := fun idx =>
  if h : idx / recordSize < maxFiles then (files ⟨idx / recordSize, h⟩).byte (idx % recordSize)
  else 0

/-- The array whose bytes are given. -/
def filesOf (raw : Mem) : Files := fun i => File.ofBytes raw (i.val * recordSize)

theorem rawOf_at (files : Files) (i : Slot) {k : Nat} (hk : k < recordSize) :
    rawOf files (i.val * recordSize + k) = (files i).byte k := by
  have hpos : 0 < recordSize := by decide
  have hdiv : (i.val * recordSize + k) / recordSize = i.val := by
    rw [Nat.mul_comm, Nat.mul_add_div hpos, Nat.div_eq_of_lt hk, Nat.add_zero]
  have hmod : (i.val * recordSize + k) % recordSize = k := by
    rw [Nat.mul_comm, Nat.mul_add_mod, Nat.mod_eq_of_lt hk]
  simp only [rawOf, hdiv, hmod, i.isLt, dif_pos]

/-- Bytes that agree on the array's extent are the same array. -/
theorem filesOf_eq_of_raw {raw : Mem} {files : Files}
    (h : ∀ idx, idx < totalBytes → raw idx = rawOf files idx) : filesOf raw = files := by
  funext i
  refine File.ofBytes_of_bytes fun k hk => ?_
  have hi : i.val < 64 := i.isLt
  rw [h _ (by unfold totalBytes maxFiles; unfold recordSize at *; omega), rawOf_at files i hk]

theorem filesOf_rawOf (files : Files) : filesOf (rawOf files) = files :=
  filesOf_eq_of_raw fun _ _ => rfl

theorem rawOf_filesOf (raw : Mem) {idx : Nat} (h : idx < totalBytes) :
    rawOf (filesOf raw) idx = raw idx := by
  have hslot : idx / recordSize < maxFiles := by
    rw [Nat.div_lt_iff_lt_mul (by decide)]
    exact h
  simp only [rawOf, dif_pos hslot, filesOf]
  rw [File.byte_ofBytes _ _ (Nat.mod_lt _ (by decide)), Nat.mul_comm, Nat.div_add_mod]

/-! ## Machine state and results -/

/-- The state `diskfs.c` works on: its two static variables and the drive. -/
structure Machine where
  files : Files
  currentDir : Int32
  ata : Ata

/-- What a `void` function printed, and the state it left. -/
structure Effect where
  out : List UInt8
  machine : Machine

/-- What a function returned and printed, and the state it left. -/
structure Reply where
  ret : Int32
  out : List UInt8
  machine : Machine

/-! ## `diskfs_save` -/

/-- `FS_MAGIC`. -/
def fsMagic : Nat := 0x464C5354

/-- `FS_VERSION`. -/
def fsVersion : Nat := 1

/-- `FS_START_LBA`. -/
def fsStartLba : Nat := 200

/-- A sector as memory. -/
def sectorMem (s : Sector) : Mem := fun k => if h : k < 512 then s ⟨k, h⟩ else 0

/-- The superblock sector `diskfs_save` writes. -/
def superblock : Sector := fun j =>
  ((Mem.writeLE (fun _ => 0) 4 0 fsMagic).writeLE 4 4 fsVersion) j.val

/-- `sb->magic == FS_MAGIC && sb->version == FS_VERSION`. -/
def superblockValid (s : Sector) : Bool :=
  decide ((sectorMem s).readLE 4 0 = fsMagic) && decide ((sectorMem s).readLE 4 4 = fsVersion)

/-- The inner loop of `diskfs_save`: sector `i` of the raw array. -/
def sectorOf (raw : Mem) (i : Nat) : Sector := fun j =>
  if i * 512 + j.val < totalBytes then raw (i * 512 + j.val) else 0

/-- The outer loop of `diskfs_save` from sector `i` on, `n` sectors left; false
when a write failed. -/
def saveLoop (raw : Mem) : Nat → Nat → Ata → Bool × Ata
  | 0, _, d => (true, d)
  | n + 1, i, d =>
      let w := ataWriteSector d (fsStartLba + 1 + i) (sectorOf raw i)
      if w.ret ≠ 0 then (false, w.ata) else saveLoop raw n (i + 1) w.ata

/-- `diskfs_save()`. -/
def diskfsSave (m : Machine) : Effect :=
  if !ataDrivePresent m.ata then ⟨[], m⟩
  else
    let w := ataWriteSector m.ata fsStartLba superblock
    if w.ret ≠ 0 then ⟨text "FS save: superblock write failed\n", { m with ata := w.ata }⟩
    else
      let r := saveLoop (rawOf m.files) totalSectors 0 w.ata
      if r.1 then ⟨text "Filesystem saved.\n", { m with ata := r.2 }⟩
      else ⟨text "FS save: data write failed\n", { m with ata := r.2 }⟩

@[simp] theorem diskfsSave_files (m : Machine) : (diskfsSave m).machine.files = m.files := by
  unfold diskfsSave
  dsimp only
  repeat' split
  all_goals rfl

@[simp] theorem diskfsSave_currentDir (m : Machine) :
    (diskfsSave m).machine.currentDir = m.currentDir := by
  unfold diskfsSave
  dsimp only
  repeat' split
  all_goals rfl

theorem superblockValid_superblock : superblockValid superblock = true := by decide

/-- On a present drive the loop writes its sectors up to the first write that
fails, and no other. -/
theorem saveLoop_present (raw : Mem) (n : Nat) :
    ∀ (i : Nat) (d : Ata), d.present = true → fsStartLba + 1 + i + n < 2 ^ 28 →
      saveLoop raw n i d = (decide (d.streak d.transfers n = n), { d with
        sectors := replaceSectors d.sectors (fsStartLba + 1 + i) (d.streak d.transfers n)
          fun k => sectorOf raw (i + k)
        transfers := d.transfers + min n (d.streak d.transfers n + 1) }) := by
  induction n with
  | zero =>
      intro i d _ _
      simp [saveLoop, Ata.streak, replaceSectors_zero]
  | succ n ih =>
      intro i d hd hlba
      rw [saveLoop, ataWriteSector_present hd (by omega), Ata.streak]
      by_cases hok : d.succeeds d.transfers = true
      · simp only [if_pos hok, ne_eq, not_true_eq_false, if_false]
        rw [ih (i + 1) (d.store (fsStartLba + 1 + i) (sectorOf raw i)) hd (by omega),
          Ata.streak_store, replaceSectors_succ]
        have hshift : (fun k => sectorOf raw (i + 1 + k)) = fun k => sectorOf raw (i + (k + 1)) :=
          funext fun k => by rw [Nat.add_assoc, Nat.add_comm 1 k]
        refine Prod.ext (decide_eq_decide.mpr ?_) ?_
        · show d.streak (d.transfers + 1) n = n ↔ d.streak (d.transfers + 1) n + 1 = n + 1
          omega
        · simp only [Ata.store, Ata.mk.injEq, hshift, Nat.add_zero, true_and]
          exact ⟨rfl, by omega⟩
      · simp [if_neg hok, Ata.next, replaceSectors_zero]

/-- The drive holds a valid superblock followed by the bytes of the table. -/
structure Image (d : Ata) (files : Files) : Prop where
  superblock : superblockValid (d.sectors fsStartLba) = true
  data : ∀ i, i < totalSectors → d.sectors (fsStartLba + 1 + i) = sectorOf (rawOf files) i

/-- The sectors of the file system, in order: the superblock and the table. -/
def imageSector (files : Files) : Nat → Sector
  | 0 => superblock
  | k + 1 => sectorOf (rawOf files) k

/-- A save on a present drive replaces the sectors of the file system in order,
up to the first write that fails. -/
theorem diskfsSave_present {m : Machine} (hd : m.ata.present = true) :
    (diskfsSave m).machine = { m with ata := { m.ata with
      sectors := replaceSectors m.ata.sectors fsStartLba
        (m.ata.streak m.ata.transfers (totalSectors + 1)) (imageSector m.files)
      transfers := m.ata.transfers +
        min (totalSectors + 1) (m.ata.streak m.ata.transfers (totalSectors + 1) + 1) } } := by
  rw [diskfsSave, if_neg (by simp [ataDrivePresent, hd]),
    ataWriteSector_present hd (show fsStartLba < 2 ^ 28 by decide), Ata.streak]
  by_cases hok : m.ata.succeeds m.ata.transfers = true
  · have hloop := saveLoop_present (rawOf m.files) totalSectors 0
      (m.ata.store fsStartLba superblock) hd (by decide)
    have hdata : (fun k => sectorOf (rawOf m.files) (0 + k)) =
        fun k => imageSector m.files (k + 1) := by
      funext k
      rw [Nat.zero_add, imageSector]
    rw [Ata.streak_store, hdata] at hloop
    have hmachine : ∀ (b : Bool) (x y : List UInt8) (m' : Machine),
        (if b = true then Effect.mk x m' else ⟨y, m'⟩).machine = m' := by
      intro b x y m'
      cases b <;> rfl
    simp only [if_pos hok, ne_eq, not_true_eq_false, if_false, hloop]
    rw [hmachine, replaceSectors_succ]
    simp only [Ata.store, Nat.add_zero, Machine.mk.injEq, Ata.mk.injEq, imageSector, true_and]
    omega
  · simp [if_neg hok, Ata.next, replaceSectors_zero]

theorem diskfsSave_image {m : Machine} (hd : m.ata.Working) :
    Image (diskfsSave m).machine.ata m.files := by
  have hall := hd.streak m.ata.transfers (totalSectors + 1)
  rw [diskfsSave_present hd.present, hall]
  constructor
  · have hfirst := replaceSectors_inside m.ata.sectors (imageSector m.files) fsStartLba
      (Nat.succ_pos totalSectors)
    rw [Nat.add_zero] at hfirst
    dsimp only
    rw [hfirst]
    exact superblockValid_superblock
  · intro i hi
    dsimp only
    rw [Nat.add_assoc, Nat.add_comm 1 i, replaceSectors_inside _ _ _ (Nat.succ_lt_succ hi),
      imageSector]

theorem diskfsSave_stays_working {m : Machine} (hd : m.ata.Working) :
    (diskfsSave m).machine.ata.Working := by
  rw [diskfsSave_present hd.present]
  exact ⟨hd.present, hd.bsy, hd.drq⟩

/-! ## `diskfs_load` -/

/-- The inner loop of `diskfs_load`: sector `i` into the raw array. -/
def storeSector (raw : Mem) (i : Nat) (s : Sector) : Mem := fun idx =>
  if h : i * 512 ≤ idx ∧ idx < i * 512 + 512 ∧ idx < totalBytes
  then s ⟨idx - i * 512, by omega⟩ else raw idx

/-- The outer loop of `diskfs_load` from sector `i` on, `n` sectors left; false
when a read failed, with the sectors before it already stored. -/
def loadLoop : Nat → Nat → Sector → Mem → Ata → Bool × Mem × Ata
  | 0, _, _, raw, d => (true, raw, d)
  | n + 1, i, sector, raw, d =>
      let r := ataReadSector d (fsStartLba + 1 + i) sector
      if r.ret ≠ 0 then (false, raw, r.ata)
      else loadLoop n (i + 1) r.buffer (storeSector raw i r.buffer) r.ata

/-- `diskfs_load()`: true for 1.  The local buffer starts out with unknown
bytes, which are read only after a successful read replaced them. -/
def diskfsLoad (m : Machine) : Bool × Machine :=
  let r := ataReadSector m.ata fsStartLba fun _ => 0
  if r.ret ≠ 0 then (false, { m with ata := r.ata })
  else if !superblockValid r.buffer then (false, { m with ata := r.ata })
  else
    let l := loadLoop totalSectors 0 r.buffer (rawOf m.files) r.ata
    (l.1, { m with files := filesOf l.2.1, ata := l.2.2 })

/-- The byte of the drive that belongs at index `idx` of the array. -/
def diskByte (d : Ata) (idx : Nat) : UInt8 :=
  d.sectors (fsStartLba + 1 + idx / 512) ⟨idx % 512, Nat.mod_lt _ (by decide)⟩

/-- The raw array with the bytes of the sectors `i .. j - 1` taken from the
drive. -/
def rawWithSectors (d : Ata) (i j : Nat) (raw : Mem) : Mem := fun idx =>
  if 512 * i ≤ idx ∧ idx < 512 * j ∧ idx < totalBytes then diskByte d idx else raw idx

theorem rawWithSectors_self (d : Ata) (i : Nat) (raw : Mem) : rawWithSectors d i i raw = raw := by
  funext idx
  rw [rawWithSectors, if_neg (by omega)]

/-- One sector, then the rest. -/
theorem rawWithSectors_store (d : Ata) (raw : Mem) {i j : Nat} (h : i < j) :
    rawWithSectors d (i + 1) j (storeSector raw i (d.sectors (fsStartLba + 1 + i))) =
      rawWithSectors d i j raw := by
  funext idx
  simp only [rawWithSectors, diskByte, storeSector]
  by_cases hlater : 512 * (i + 1) ≤ idx ∧ idx < 512 * j ∧ idx < totalBytes
  · rw [if_pos hlater, if_pos (by omega)]
  · rw [if_neg hlater]
    by_cases hhere : i * 512 ≤ idx ∧ idx < i * 512 + 512 ∧ idx < totalBytes
    · rw [dif_pos hhere, if_pos (by omega), show idx / 512 = i by omega]
      congr 1
      exact Fin.ext (by simp only; omega)
    · rw [dif_neg hhere, if_neg (by omega)]

/-- On a present drive the loop stores its sectors up to the first read that
fails. -/
theorem loadLoop_present (n : Nat) :
    ∀ (i : Nat) (sector : Sector) (raw : Mem) (d : Ata), d.present = true →
      fsStartLba + 1 + i + n < 2 ^ 28 →
      loadLoop n i sector raw d = (decide (d.streak d.transfers n = n),
        rawWithSectors d i (i + d.streak d.transfers n) raw,
        { d with transfers := d.transfers + min n (d.streak d.transfers n + 1) }) := by
  induction n with
  | zero =>
      intro i sector raw d _ _
      simp [loadLoop, Ata.streak, rawWithSectors_self]
  | succ n ih =>
      intro i sector raw d hd hlba
      rw [loadLoop, ataReadSector_present hd (by omega), Ata.streak]
      by_cases hok : d.succeeds d.transfers = true
      · simp only [if_pos hok, ne_eq, not_true_eq_false, if_false]
        rw [ih (i + 1) _ _ d.next hd (by omega), Ata.streak_next]
        refine Prod.ext (decide_eq_decide.mpr ?_) (Prod.ext ?_ ?_)
        · show d.streak (d.transfers + 1) n = n ↔ d.streak (d.transfers + 1) n + 1 = n + 1
          omega
        · have hstored := rawWithSectors_store d raw
            (show i < i + (d.streak (d.transfers + 1) n + 1) by omega)
          rw [← hstored, Nat.add_assoc i, Nat.add_comm 1]
          rfl
        · simp only [Ata.next, Ata.mk.injEq, true_and]
          omega
      · simp [if_neg hok, Ata.next, rawWithSectors_self]

/-- `diskfs_load` from a present drive that has our superblock: the table takes
the bytes of every data sector before the first read that fails. -/
theorem diskfsLoad_present {m : Machine} (hd : m.ata.present = true)
    (hsuper : superblockValid (m.ata.sectors fsStartLba) = true) :
    diskfsLoad m = (decide (m.ata.streak m.ata.transfers (totalSectors + 1) = totalSectors + 1),
      { m with
        files := filesOf (rawWithSectors m.ata 0
          (m.ata.streak m.ata.transfers (totalSectors + 1) - 1) (rawOf m.files))
        ata := { m.ata with
          transfers := m.ata.transfers +
            min (totalSectors + 1) (m.ata.streak m.ata.transfers (totalSectors + 1) + 1) } }) := by
  rw [diskfsLoad, ataReadSector_present hd (show fsStartLba < 2 ^ 28 by decide), Ata.streak]
  by_cases hok : m.ata.succeeds m.ata.transfers = true
  · have hloop := loadLoop_present totalSectors 0 (m.ata.sectors fsStartLba) (rawOf m.files)
      m.ata.next hd (by decide)
    rw [Ata.streak_next, Nat.zero_add] at hloop
    simp only [if_pos hok, ne_eq, not_true_eq_false, if_false, hsuper, Bool.not_true,
      Bool.false_eq_true, hloop]
    refine Prod.ext (decide_eq_decide.mpr ?_) ?_
    · show m.ata.streak (m.ata.transfers + 1) totalSectors = totalSectors ↔
        m.ata.streak (m.ata.transfers + 1) totalSectors + 1 = totalSectors + 1
      omega
    · simp only [Ata.next, Machine.mk.injEq, Ata.mk.injEq, Nat.add_sub_cancel, true_and]
      exact ⟨rfl, by omega⟩
  · simp [if_neg hok, Ata.next, rawWithSectors_self, filesOf_rawOf]

@[simp] theorem diskfsLoad_currentDir (m : Machine) :
    (diskfsLoad m).2.currentDir = m.currentDir := by
  unfold diskfsLoad
  dsimp only
  repeat' split
  all_goals rfl

/-- Without our superblock, or without a drive, `diskfs_load` fails at once. -/
theorem diskfsLoad_refused {m : Machine}
    (h : m.ata.present = false ∨ superblockValid (m.ata.sectors fsStartLba) = false) :
    ∃ t, diskfsLoad m = (false, { m with ata := { m.ata with transfers := t } }) := by
  obtain ⟨t, hata⟩ := ataReadSector_ata m.ata fsStartLba fun _ => 0
  refine ⟨t, ?_⟩
  rw [diskfsLoad, hata]
  split
  · rfl
  · rename_i hret
    have hbuffer := ataReadSector_buffer (not_not.mp hret)
    rw [Ata.lba28_of_lt (by decide)] at hbuffer
    rcases h with habsent | hsuper
    · exact absurd (by simp [ataReadSector, habsent]) hret
    · rw [hbuffer, hsuper]
      rfl

/-- A load reads; it leaves the drive as it is but for the count of transfers. -/
theorem diskfsLoad_ata (m : Machine) :
    ∃ t, (diskfsLoad m).2.ata = { m.ata with transfers := t } := by
  by_cases hready : m.ata.present = true ∧ superblockValid (m.ata.sectors fsStartLba) = true
  · exact ⟨_, by rw [diskfsLoad_present hready.1 hready.2]⟩
  · obtain ⟨t, hload⟩ := diskfsLoad_refused (m := m) (by
      rcases not_and_or.mp hready with habsent | hsuper
      · exact Or.inl (Bool.eq_false_of_not_eq_true habsent)
      · exact Or.inr (Bool.eq_false_of_not_eq_true hsuper))
    exact ⟨t, by rw [hload]⟩

/-- `diskfs_load` on any drive: the bytes of the array up to some point come from
the drive, all of them when it reports success, and then the superblock was
valid. -/
theorem diskfsLoad_spec (m : Machine) :
    ∃ j, ((diskfsLoad m).1 = true →
        j = totalSectors ∧ superblockValid (m.ata.sectors fsStartLba) = true) ∧
      (diskfsLoad m).2.files = filesOf (rawWithSectors m.ata 0 j (rawOf m.files)) := by
  by_cases hready : m.ata.present = true ∧ superblockValid (m.ata.sectors fsStartLba) = true
  · have hload := diskfsLoad_present hready.1 hready.2
    refine ⟨m.ata.streak m.ata.transfers (totalSectors + 1) - 1, fun h => ⟨?_, hready.2⟩, ?_⟩
    · rw [hload] at h
      rw [of_decide_eq_true h, Nat.add_sub_cancel]
    · rw [hload]
  · obtain ⟨t, hload⟩ := diskfsLoad_refused (m := m) (by
      rcases not_and_or.mp hready with habsent | hsuper
      · exact Or.inl (Bool.eq_false_of_not_eq_true habsent)
      · exact Or.inr (Bool.eq_false_of_not_eq_true hsuper))
    rw [hload]
    refine ⟨0, fun h => absurd h (by simp), ?_⟩
    rw [rawWithSectors_self, filesOf_rawOf]

/-- The array fills its sectors exactly. -/
theorem sectors_cover : 512 * totalSectors = totalBytes := by rfl

/-- A successful load leaves the drive an image of the table in memory. -/
theorem diskfsLoad_image {m : Machine} (h : (diskfsLoad m).1 = true) :
    Image (diskfsLoad m).2.ata (diskfsLoad m).2.files := by
  obtain ⟨j, hall, hfiles⟩ := diskfsLoad_spec m
  obtain ⟨t, hata⟩ := diskfsLoad_ata m
  obtain ⟨hj, hsuper⟩ := hall h
  rw [hata]
  refine ⟨hsuper, fun i hi => ?_⟩
  rw [hfiles, hj]
  funext k
  have hk : k.val < 512 := k.isLt
  have hcover := sectors_cover
  have hidx : i * 512 + k.val < totalBytes := by omega
  rw [sectorOf, if_pos hidx, rawOf_filesOf _ hidx, rawWithSectors, if_pos (by omega), diskByte,
    show (i * 512 + k.val) / 512 = i by omega]
  exact congrArg _ (Fin.ext (show k.val = (i * 512 + k.val) % 512 by omega))

/-- The byte of the drive at an index of the array, on a drive that holds the
image of a table. -/
theorem diskByte_of_image {d : Ata} {files : Files} (himage : Image d files) {idx : Nat}
    (hidx : idx < totalBytes) : diskByte d idx = rawOf files idx := by
  have hsector : idx / 512 < totalSectors := by
    have := sectors_cover
    omega
  have hback : idx / 512 * 512 + idx % 512 = idx := by omega
  rw [diskByte, himage.data _ hsector]
  simp only [sectorOf, hback, hidx, if_true]

/-- A successful load from a drive that holds the image of a table gives that
table. -/
theorem diskfsLoad_of_image {m : Machine} {files : Files} (himage : Image m.ata files)
    (h : (diskfsLoad m).1 = true) : (diskfsLoad m).2.files = files := by
  obtain ⟨j, hall, hfiles⟩ := diskfsLoad_spec m
  obtain ⟨hj, _⟩ := hall h
  rw [hfiles, hj]
  refine filesOf_eq_of_raw fun idx hidx => ?_
  have hcover := sectors_cover
  rw [rawWithSectors, if_pos (by omega), diskByte_of_image himage hidx]

/-- A working drive stays working, and only a bad superblock stops the load. -/
theorem diskfsLoad_working {m : Machine} (hd : m.ata.Working) :
    (diskfsLoad m).1 = superblockValid (m.ata.sectors fsStartLba) ∧
      (diskfsLoad m).2.ata.Working := by
  obtain ⟨t, hata⟩ := diskfsLoad_ata m
  refine ⟨?_, by rw [hata]; exact ⟨hd.present, hd.bsy, hd.drq⟩⟩
  cases hsuper : superblockValid (m.ata.sectors fsStartLba) with
  | false =>
      obtain ⟨t, hload⟩ := diskfsLoad_refused (Or.inr hsuper)
      rw [hload]
  | true => rw [diskfsLoad_present hd.present hsuper, hd.streak, decide_eq_true rfl]

/-! ## `diskfs_init` -/

/-- The fresh state of one record: `name[0]` is cleared, the other bytes of the
name and the data stay. -/
def File.clear (f : File) : File :=
  { f with used := 0, size := 0, name := f.name.set 0 0, isDir := 0, parent := -1 }

/-- The table `diskfs_init` makes when nothing was loaded. -/
def freshFiles (files : Files) : Files :=
  let cleared : Files := fun i => (files i).clear
  Function.update cleared rootSlot { cleared rootSlot with
    used := 1, isDir := 1, parent := -1, name := ((cleared rootSlot).name.set 0 47).set 1 0 }

/-- `diskfs_init()`. -/
def diskfsInit (m : Machine) : Effect :=
  let hello := text "Initializing filesystem...\n"
  let l := if ataDrivePresent m.ata then diskfsLoad m else (false, m)
  if l.1 then ⟨hello ++ text "Loaded filesystem from disk.\n", l.2⟩
  else
    let fresh : Machine := { l.2 with files := freshFiles l.2.files, currentDir := 0 }
    if ataDrivePresent fresh.ata then
      let saved := diskfsSave fresh
      ⟨hello ++ text "Fresh filesystem, saving to disk.\n" ++ saved.out, saved.machine⟩
    else ⟨hello ++ text "No disk, using RAM only.\n", fresh⟩

end FalastinOS.DiskFs
