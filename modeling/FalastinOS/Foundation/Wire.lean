/-
  Foundation/Wire.lean --- bytes on the wire: network byte order, the Internet
  checksum, and the messages of RFC 1035.

  A step decoder takes a list of bytes, consumes a prefix of it and returns the
  rest.  Domain names are sequences of labels, each behind its length, ended by a
  zero or by a two-byte pointer to another place in the message; a pointer is
  decoded but not followed, which is what finding the end of a name takes.

  The encoding of a name is `encodeLabels`; `decodeName_encodeLabels` is its round
  trip.  `onesSum_mod` reduces a question about the Internet checksum to an
  ordinary sum.

  Nothing here mentions a particular program.
-/
import Mathlib.Data.Nat.ModEq

set_option autoImplicit false

namespace FalastinOS.Foundation.Wire

/-- A step decoder. -/
abbrev Step (α : Type) : Type := List UInt8 → Option (α × List UInt8)

/-! ## Words in network byte order -/

/-- The word whose bytes are `hi` and `lo`. -/
def word (hi lo : UInt8) : Nat := 256 * hi.toNat + lo.toNat

/-- The word at index `i` of a packet. -/
def wordAt (bytes : List UInt8) (i : Nat) : Nat := word (bytes.getD i 0) (bytes.getD (i + 1) 0)

/-- The 32 bits at index `i` of a packet. -/
def longAt (bytes : List UInt8) (i : Nat) : Nat := 65536 * wordAt bytes i + wordAt bytes (i + 2)

/-- Sixteen bits, most significant byte first. -/
def decodeWord : Step Nat
  | hi :: lo :: rest => some (word hi lo, rest)
  | _ => none

/-- The next `n` bytes. -/
def decodeBytes (n : Nat) : Step (List UInt8) := fun bytes =>
  if n ≤ bytes.length then some (bytes.take n, bytes.drop n) else none

/-- `n` items in a row. -/
def decodeMany {α : Type} (item : Step α) : Nat → Step (List α)
  | 0, bytes => some ([], bytes)
  | n + 1, bytes => do
      let (first, bytes) ← item bytes
      let (others, bytes) ← decodeMany item n bytes
      pure (first :: others, bytes)

/-! ## The Internet checksum -/

/-- Addition of words with the carry brought around. -/
def onesAdd (a b : Nat) : Nat := if a + b < 65536 then a + b else a + b - 65535

/-- The words of a block of bytes; an odd last byte is padded with zero. -/
def words : List UInt8 → List Nat
  | hi :: lo :: rest => word hi lo :: words rest
  | [b] => [word b 0]
  | [] => []

/-- The one's complement sum of a block. -/
def onesSum (bytes : List UInt8) : Nat := (words bytes).foldl onesAdd 0

/-- A block that includes its checksum is accepted when it sums to all ones. -/
def ChecksumVerifies (bytes : List UInt8) : Prop := onesSum bytes = 0xFFFF

instance (bytes : List UInt8) : Decidable (ChecksumVerifies bytes) :=
  inferInstanceAs (Decidable (_ = _))

theorem onesAdd_mod (a b : Nat) : onesAdd a b % 65535 = (a + b) % 65535 := by
  unfold onesAdd
  split <;> omega

theorem foldl_onesAdd_mod (ws : List Nat) (a : Nat) :
    ws.foldl onesAdd a % 65535 = (a + ws.sum) % 65535 := by
  induction ws generalizing a with
  | nil => simp
  | cons w ws ih =>
      rw [List.foldl_cons, ih, List.sum_cons, Nat.add_mod, onesAdd_mod, ← Nat.add_mod,
        Nat.add_assoc]

/-- Modulo 65535 the one's complement sum is the sum. -/
theorem onesSum_mod (bytes : List UInt8) : onesSum bytes % 65535 = (words bytes).sum % 65535 := by
  rw [onesSum, foldl_onesAdd_mod, Nat.zero_add]

/-- A block whose words sum to less than all ones is not accepted. -/
theorem not_checksumVerifies {bytes : List UInt8} (hpos : 0 < (words bytes).sum)
    (hlt : (words bytes).sum < 65535) : ¬ ChecksumVerifies bytes := by
  intro h
  have hmod := onesSum_mod bytes
  rw [h, Nat.mod_eq_of_lt hlt] at hmod
  omega

/-! ## Domain names -/

/-- A name as it stands in a message: labels, and the pointer it ends with if it
does not end with the root. -/
structure Name where
  labels : List (List UInt8)
  pointer : Option Nat
  deriving DecidableEq

/-- The pointer whose first byte is `b`. -/
def decodePointer (b : UInt8) : Step Name
  | [] => none
  | lo :: rest => some (⟨[], some (256 * (b.toNat - 192) + lo.toNat)⟩, rest)

/-- A name, up to its end. -/
def decodeName : Step Name
  | [] => none
  | b :: rest =>
      if b = 0 then some (⟨[], none⟩, rest)
      else if b.toNat < 64 then
        if b.toNat ≤ rest.length then
          match decodeName (rest.drop b.toNat) with
          | none => none
          | some (name, tail) =>
              some (⟨rest.take b.toNat :: name.labels, name.pointer⟩, tail)
        else none
      else if b.toNat < 192 then none
      else decodePointer b rest
termination_by bytes => bytes.length
decreasing_by simp only [List.length_drop, List.length_cons]; omega

/-- A label that can be encoded. -/
def ValidLabel (label : List UInt8) : Prop := 1 ≤ label.length ∧ label.length ≤ 63

/-- Labels, each behind its length, without the final zero. -/
def encodeLabels (labels : List (List UInt8)) : List UInt8 :=
  labels.flatMap fun label => UInt8.ofNat label.length :: label

theorem encodeLabels_cons (label : List UInt8) (labels : List (List UInt8)) :
    encodeLabels (label :: labels) =
      UInt8.ofNat label.length :: (label ++ encodeLabels labels) := by
  rw [encodeLabels, List.flatMap_cons, List.cons_append]
  rfl

/-- The length byte of a label, which is not the zero that ends a name. -/
theorem ValidLabel.lengthByte {label : List UInt8} (h : ValidLabel label) :
    (UInt8.ofNat label.length).toNat = label.length ∧ UInt8.ofNat label.length ≠ 0 := by
  obtain ⟨hlow, hhigh⟩ := h
  have hbyte : (UInt8.ofNat label.length).toNat = label.length := by
    rw [UInt8.toNat_ofNat']
    omega
  refine ⟨hbyte, fun hzero => ?_⟩
  rw [hzero, UInt8.toNat_zero] at hbyte
  omega

/-- An encoded name decodes to its labels and leaves the rest. -/
theorem decodeName_encodeLabels {labels : List (List UInt8)}
    (h : ∀ label ∈ labels, ValidLabel label) (rest : List UInt8) :
    decodeName (encodeLabels labels ++ 0 :: rest) = some (⟨labels, none⟩, rest) := by
  induction labels with
  | nil =>
      rw [encodeLabels, List.flatMap_nil, List.nil_append, decodeName, if_pos rfl]
  | cons label labels ih =>
      obtain ⟨hlow, hhigh⟩ := h label List.mem_cons_self
      obtain ⟨hbyte, hne⟩ := (h label List.mem_cons_self).lengthByte
      rw [encodeLabels_cons, List.cons_append, List.append_assoc, decodeName, if_neg hne, hbyte,
        if_pos (by omega), if_pos (by rw [List.length_append]; omega), List.drop_left,
        ih fun l hl => h l (List.mem_cons_of_mem _ hl), List.take_left]

/-! ## Messages -/

/-- The header of a message. -/
structure Header where
  id : Nat
  flags : Nat
  qdcount : Nat
  ancount : Nat
  nscount : Nat
  arcount : Nat
  deriving DecidableEq

/-- The flag RD. -/
def Header.recursionDesired (h : Header) : Bool := h.flags.testBit 8

/-- The twelve bytes of the header. -/
def decodeHeader : Step Header := fun bytes => do
  let (id, bytes) ← decodeWord bytes
  let (flags, bytes) ← decodeWord bytes
  let (qdcount, bytes) ← decodeWord bytes
  let (ancount, bytes) ← decodeWord bytes
  let (nscount, bytes) ← decodeWord bytes
  let (arcount, bytes) ← decodeWord bytes
  pure (⟨id, flags, qdcount, ancount, nscount, arcount⟩, bytes)

/-- An entry of the question section. -/
structure Question where
  name : Name
  qtype : Nat
  qclass : Nat
  deriving DecidableEq

/-- One question. -/
def decodeQuestion : Step Question := fun bytes => do
  let (name, bytes) ← decodeName bytes
  let (qtype, bytes) ← decodeWord bytes
  let (qclass, bytes) ← decodeWord bytes
  pure (⟨name, qtype, qclass⟩, bytes)

/-- A resource record. -/
structure Record where
  name : Name
  rtype : Nat
  rclass : Nat
  ttl : List UInt8
  rdata : List UInt8
  deriving DecidableEq

/-- One resource record. -/
def decodeRecord : Step Record := fun bytes => do
  let (name, bytes) ← decodeName bytes
  let (rtype, bytes) ← decodeWord bytes
  let (rclass, bytes) ← decodeWord bytes
  let (ttl, bytes) ← decodeBytes 4 bytes
  let (rdlength, bytes) ← decodeWord bytes
  let (rdata, bytes) ← decodeBytes rdlength bytes
  pure (⟨name, rtype, rclass, ttl, rdata⟩, bytes)

/-- The header and the question section. -/
def decodeQuestions : Step (Header × List Question) := fun bytes => do
  let (header, bytes) ← decodeHeader bytes
  let (questions, bytes) ← decodeMany decodeQuestion header.qdcount bytes
  pure ((header, questions), bytes)

/-- The first record of the answer section, if the message has one and it lies
inside. -/
def firstAnswer (bytes : List UInt8) : Option Record := do
  let ((header, _), bytes) ← decodeQuestions bytes
  if header.ancount = 0 then none
  else
    let (record, _) ← decodeRecord bytes
    pure record

end FalastinOS.Foundation.Wire
