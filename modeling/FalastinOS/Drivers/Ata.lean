/-
  Drivers/Ata.lean --- the sector interface of `ata.c`.

  The drive is hardware, so it is a parameter: a medium that maps block numbers
  to sectors, and for every transfer the answers it gives to the two polls of
  the driver.  `ata_read_sector` and `ata_write_sector` follow the source: each
  gives up with -1 before any data moves when no drive was detected, when the
  busy poll times out, or when the drive does not raise DRQ.  The block number
  is sent as 28 bits.
-/
import Mathlib.Algebra.Group.Nat.Defs
import Mathlib.Logic.Function.Basic

set_option autoImplicit false

namespace FalastinOS.Drivers

/-- The 512 bytes of a sector. -/
abbrev Sector : Type := Fin 512 → UInt8

/-- The drive and the driver's `ata_present` flag. -/
structure Ata where
  /-- `ata_present`, set by `ata_init` when the drive answered IDENTIFY. -/
  present : Bool
  /-- The medium, by block number. -/
  sectors : Nat → Sector
  /-- Does `ata_poll_bsy` time out on the given transfer? -/
  bsyTimeout : Nat → Bool
  /-- Does `ata_poll_drq` report an error or a timeout on the given transfer? -/
  drqError : Nat → Bool
  /-- Transfers attempted so far. -/
  transfers : Nat

namespace Ata

/-- The drive after one more transfer attempt. -/
def next (d : Ata) : Ata := { d with transfers := d.transfers + 1 }

/-- The drive after a transfer that stored one sector. -/
def store (d : Ata) (lba : Nat) (s : Sector) : Ata :=
  { d with sectors := Function.update d.sectors lba s, transfers := d.transfers + 1 }

/-- The block number as the four address registers carry it. -/
def lba28 (lba : Nat) : Nat := lba % 2 ^ 28

theorem lba28_of_lt {lba : Nat} (h : lba < 2 ^ 28) : lba28 lba = lba :=
  Nat.mod_eq_of_lt h

/-- A present drive on which every transfer succeeds. -/
structure Working (d : Ata) : Prop where
  present : d.present = true
  bsy : ∀ k, d.bsyTimeout k = false
  drq : ∀ k, d.drqError k = false

end Ata

/-- What `ata_read_sector` returns and leaves in its buffer. -/
structure ReadReply where
  ret : Int32
  buffer : Sector
  ata : Ata

/-- `ata_read_sector(lba, buffer)`. -/
def ataReadSector (d : Ata) (lba : Nat) (buffer : Sector) : ReadReply :=
  if !d.present then ⟨-1, buffer, d⟩
  else if d.bsyTimeout d.transfers then ⟨-1, buffer, d.next⟩
  else if d.drqError d.transfers then ⟨-1, buffer, d.next⟩
  else ⟨0, d.sectors (Ata.lba28 lba), d.next⟩

/-- What `ata_write_sector` returns. -/
structure WriteReply where
  ret : Int32
  ata : Ata

/-- `ata_write_sector(lba, buffer)`.  The final cache flush is polled but its
outcome is not looked at. -/
def ataWriteSector (d : Ata) (lba : Nat) (buffer : Sector) : WriteReply :=
  if !d.present then ⟨-1, d⟩
  else if d.bsyTimeout d.transfers then ⟨-1, d.next⟩
  else if d.drqError d.transfers then ⟨-1, d.next⟩
  else ⟨0, d.store (Ata.lba28 lba) buffer⟩

/-- `ata_drive_present()`. -/
def ataDrivePresent (d : Ata) : Bool := d.present

/-- A read only counts as a transfer. -/
theorem ataReadSector_ata (d : Ata) (lba : Nat) (buffer : Sector) :
    ∃ t, (ataReadSector d lba buffer).ata = { d with transfers := t } := by
  unfold ataReadSector
  repeat' split
  · exact ⟨d.transfers, rfl⟩
  · exact ⟨d.transfers + 1, rfl⟩
  · exact ⟨d.transfers + 1, rfl⟩
  · exact ⟨d.transfers + 1, rfl⟩

/-- A read that reports success returned the sector. -/
theorem ataReadSector_buffer {d : Ata} {lba : Nat} {buffer : Sector}
    (h : (ataReadSector d lba buffer).ret = 0) :
    (ataReadSector d lba buffer).buffer = d.sectors (Ata.lba28 lba) := by
  by_cases hp : d.present = true
  · by_cases hb : d.bsyTimeout d.transfers = true
    · exact absurd h (by simp [ataReadSector, hp, hb])
    · by_cases hd : d.drqError d.transfers = true
      · exact absurd h (by simp [ataReadSector, hp, hb, hd])
      · simp [ataReadSector, hp, hb, hd]
  · exact absurd h (by simp [ataReadSector, hp])

/-! ## Failing transfers

On a present drive a transfer fails or succeeds by its number alone, so what a
loop of transfers does is settled by how many succeed in a row. -/

namespace Ata

/-- Does transfer `k` succeed? -/
def succeeds (d : Ata) (k : Nat) : Bool := !d.bsyTimeout k && !d.drqError k

/-- How many of the `n` transfers from number `t` on succeed before one fails. -/
def streak (d : Ata) : Nat → Nat → Nat
  | _, 0 => 0
  | t, n + 1 => if d.succeeds t then d.streak (t + 1) n + 1 else 0

theorem streak_le (d : Ata) (t n : Nat) : d.streak t n ≤ n := by
  induction n generalizing t with
  | zero => exact Nat.le_refl 0
  | succ n ih =>
      rw [streak]
      split
      · exact Nat.succ_le_succ (ih (t + 1))
      · exact Nat.zero_le _

/-- A streak that ends early ends with a failing transfer. -/
theorem not_succeeds_streak (d : Ata) {t n : Nat} (h : d.streak t n < n) :
    d.succeeds (t + d.streak t n) = false := by
  induction n generalizing t with
  | zero => exact absurd h (Nat.not_lt_zero _)
  | succ n ih =>
      rw [streak] at h ⊢
      split at h
      · rename_i hok
        have hlater := ih (Nat.lt_of_succ_lt_succ h)
        rwa [if_pos hok, Nat.add_comm _ 1, ← Nat.add_assoc]
      · rename_i hfails
        rw [if_neg hfails]
        exact (Bool.not_eq_true _).mp hfails

/-- The streak is unbroken when every transfer succeeds. -/
theorem streak_eq_iff (d : Ata) (t n : Nat) :
    d.streak t n = n ↔ ∀ k, k < n → d.succeeds (t + k) = true := by
  induction n generalizing t with
  | zero => simp [streak]
  | succ n ih =>
      rw [streak]
      constructor
      · intro h k hk
        split at h
        · rename_i hok
          cases k with
          | zero => exact hok
          | succ k =>
              have hlater := (ih (t + 1)).mp (Nat.succ.inj h) k (by omega)
              rwa [Nat.add_assoc, Nat.add_comm 1] at hlater
        · exact absurd h (by omega)
      · intro h
        have hfirst : d.succeeds t = true := h 0 (by omega)
        rw [if_pos hfirst, (ih (t + 1)).mpr fun k hk => ?_]
        rw [Nat.add_assoc, Nat.add_comm 1]
        exact h (k + 1) (by omega)

/-- The streak depends on the drive's failures only. -/
theorem streak_congr (d d' : Ata) (hbsy : d'.bsyTimeout = d.bsyTimeout)
    (hdrq : d'.drqError = d.drqError) (t n : Nat) : d'.streak t n = d.streak t n := by
  induction n generalizing t with
  | zero => rfl
  | succ n ih =>
      have hok : d'.succeeds t = d.succeeds t := by simp only [succeeds, hbsy, hdrq]
      simp only [streak, hok, ih]

@[simp] theorem streak_store (d : Ata) (lba : Nat) (s : Sector) (t n : Nat) :
    (d.store lba s).streak t n = d.streak t n :=
  streak_congr d (d.store lba s) rfl rfl t n

@[simp] theorem streak_next (d : Ata) (t n : Nat) : d.next.streak t n = d.streak t n :=
  streak_congr d d.next rfl rfl t n

end Ata

/-- A medium on which the `n` sectors from `first` on are replaced by those of
`f`. -/
def replaceSectors (sectors : Nat → Sector) (first n : Nat) (f : Nat → Sector) : Nat → Sector :=
  fun lba => if first ≤ lba ∧ lba < first + n then f (lba - first) else sectors lba

theorem replaceSectors_inside (sectors : Nat → Sector) (f : Nat → Sector) (first : Nat)
    {n k : Nat} (h : k < n) : replaceSectors sectors first n f (first + k) = f k := by
  rw [replaceSectors, if_pos (by omega), Nat.add_sub_cancel_left]

theorem replaceSectors_outside (sectors : Nat → Sector) (f : Nat → Sector) {first n lba : Nat}
    (h : lba < first ∨ first + n ≤ lba) : replaceSectors sectors first n f lba = sectors lba := by
  rw [replaceSectors, if_neg (by omega)]

theorem replaceSectors_zero (sectors : Nat → Sector) (first : Nat) (f : Nat → Sector) :
    replaceSectors sectors first 0 f = sectors :=
  funext fun lba => replaceSectors_outside sectors f (by omega)

/-- One sector, then the rest. -/
theorem replaceSectors_succ (sectors : Nat → Sector) (first n : Nat) (f : Nat → Sector) :
    replaceSectors sectors first (n + 1) f =
      replaceSectors (Function.update sectors first (f 0)) (first + 1) n fun k => f (k + 1) := by
  funext lba
  unfold replaceSectors
  by_cases hhere : lba = first
  · subst hhere
    rw [if_pos (by omega), if_neg (by omega), Function.update_self, Nat.sub_self]
  · by_cases hlater : first + 1 ≤ lba ∧ lba < first + 1 + n
    · rw [if_pos (by omega), if_pos hlater]
      congr 1
      omega
    · rw [if_neg (by omega), if_neg hlater, Function.update_of_ne hhere]

theorem ataReadSector_present {d : Ata} (h : d.present = true) {lba : Nat} (hlba : lba < 2 ^ 28)
    (buffer : Sector) : ataReadSector d lba buffer =
      if d.succeeds d.transfers then ⟨0, d.sectors lba, d.next⟩ else ⟨-1, buffer, d.next⟩ := by
  cases hb : d.bsyTimeout d.transfers <;> cases hd : d.drqError d.transfers <;>
    simp [ataReadSector, Ata.succeeds, h, hb, hd, Ata.lba28_of_lt hlba]

theorem ataWriteSector_present {d : Ata} (h : d.present = true) {lba : Nat} (hlba : lba < 2 ^ 28)
    (buffer : Sector) : ataWriteSector d lba buffer =
      if d.succeeds d.transfers then ⟨0, d.store lba buffer⟩ else ⟨-1, d.next⟩ := by
  cases hb : d.bsyTimeout d.transfers <;> cases hd : d.drqError d.transfers <;>
    simp [ataWriteSector, Ata.succeeds, h, hb, hd, Ata.lba28_of_lt hlba]

/-! ## A working drive -/

namespace Ata

theorem Working.next {d : Ata} (h : d.Working) : d.next.Working :=
  ⟨h.present, h.bsy, h.drq⟩

theorem Working.store {d : Ata} (h : d.Working) (lba : Nat) (s : Sector) :
    (d.store lba s).Working :=
  ⟨h.present, h.bsy, h.drq⟩

theorem Working.succeeds {d : Ata} (h : d.Working) (k : Nat) : d.succeeds k = true := by
  simp [Ata.succeeds, h.bsy, h.drq]

theorem Working.streak {d : Ata} (h : d.Working) (t n : Nat) : d.streak t n = n :=
  (streak_eq_iff d t n).mpr fun _ _ => h.succeeds _

end Ata

/-- On a working drive a read returns the sector. -/
theorem ataReadSector_working {d : Ata} (h : d.Working) {lba : Nat} (hlba : lba < 2 ^ 28)
    (buffer : Sector) : ataReadSector d lba buffer = ⟨0, d.sectors lba, d.next⟩ := by
  rw [ataReadSector_present h.present hlba, if_pos (h.succeeds _)]

/-- On a working drive a write stores the sector and nothing else. -/
theorem ataWriteSector_working {d : Ata} (h : d.Working) {lba : Nat} (hlba : lba < 2 ^ 28)
    (buffer : Sector) : ataWriteSector d lba buffer = ⟨0, d.store lba buffer⟩ := by
  rw [ataWriteSector_present h.present hlba, if_pos (h.succeeds _)]

end FalastinOS.Drivers
