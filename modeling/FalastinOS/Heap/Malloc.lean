/-
  Heap/Malloc.lean --- the allocator of `malloc.c`.

  A block is a header of 16 bytes (size, free flag, next pointer, magic) followed
  by its data.  The functions work on byte memory; pointers and sizes are 32-bit
  words, and every sum the code forms is taken modulo 2^32 as the machine does.

  The two loops follow `next` pointers found in memory.  Nothing in the code
  bounds them, so they are given fuel and have no result when it runs out.
-/
import FalastinOS.Foundation.Memory
import FalastinOS.Libc.Memory

set_option autoImplicit false

namespace FalastinOS.Heap

open FalastinOS.Foundation FalastinOS.Libc

/-- `HEAP_START`. -/
def heapStart : Nat := 0x800000

/-- `HEAP_SIZE`. -/
def heapSize : Nat := 0x400000

/-- `HEADER_SIZE`. -/
def headerSize : Nat := 16

/-- `MIN_SPLIT`. -/
def minSplit : Nat := 32

/-- `BLOCK_MAGIC`. -/
def blockMagic : Nat := 0xDEADBEEF

/-- A value as a 32-bit word. -/
def word (x : Nat) : Nat := x % 2 ^ 32

/-! ## The fields of a header -/

/-- `block->size`. -/
def size (m : Mem) (block : Nat) : Nat := m.readLE 4 block

/-- `block->free`. -/
def isFree (m : Mem) (block : Nat) : Nat := m.readLE 4 (block + 4)

/-- `block->next`. -/
def next (m : Mem) (block : Nat) : Nat := m.readLE 4 (block + 8)

/-- `block->magic`. -/
def magic (m : Mem) (block : Nat) : Nat := m.readLE 4 (block + 12)

/-- `block->size = v`. -/
def setSize (m : Mem) (block v : Nat) : Mem := m.writeLE 4 block v

/-- `block->free = v`. -/
def setFree (m : Mem) (block v : Nat) : Mem := m.writeLE 4 (block + 4) v

/-- `block->next = v`. -/
def setNext (m : Mem) (block v : Nat) : Mem := m.writeLE 4 (block + 8) v

/-- `block->magic = v`. -/
def setMagic (m : Mem) (block v : Nat) : Mem := m.writeLE 4 (block + 12) v

/-! ## The functions -/

/-- Memory and the two static variables. -/
structure HeapState where
  mem : Mem
  /-- `heap_start_ptr` -/
  start : Nat
  /-- `heap_ready` -/
  ready : Bool

/-- `heap_init()`. -/
def heapInit (h : HeapState) : HeapState :=
  let m := setSize h.mem heapStart (heapSize - headerSize)
  let m := setFree m heapStart 1
  let m := setNext m heapStart 0
  let m := setMagic m heapStart blockMagic
  ⟨m, heapStart, true⟩

/-- The stores of `merge_free` by which block `cur` absorbs the next one. -/
def absorb (m : Mem) (cur : Nat) : Mem :=
  let m := setSize m cur (word (size m cur + word (headerSize + size m (next m cur))))
  setNext m cur (next m (next m cur))

/-- The loop of `merge_free` at block `cur`. -/
def mergeLoop : Nat → Mem → Nat → Option Mem
  | 0, _, _ => none
  | fuel + 1, m, cur =>
      if cur = 0 ∨ next m cur = 0 then some m
      else if isFree m cur ≠ 0 ∧ isFree m (next m cur) ≠ 0 then mergeLoop fuel (absorb m cur) cur
      else mergeLoop fuel m (next m cur)

/-- `merge_free()`. -/
def mergeFree (fuel : Nat) (h : HeapState) : Option HeapState :=
  (mergeLoop fuel h.mem h.start).map fun m => { h with mem := m }

/-- `(size + 7) & ~7`. -/
def roundUp (size : Nat) : Nat := word (size + 7) / 8 * 8

/-- The stores of `malloc` that split block `cur`. -/
def split (m : Mem) (cur n : Nat) : Mem :=
  let newb := word (cur + headerSize + n)
  let m := setSize m newb (word (size m cur + (2 ^ 32 - n) + (2 ^ 32 - headerSize)))
  let m := setFree m newb 1
  let m := setNext m newb (next m cur)
  let m := setMagic m newb blockMagic
  let m := setNext m cur newb
  setSize m cur n

/-- How the search of `malloc` ends. -/
inductive Exit where
  /-- a block was found; its address -/
  | found (block : Nat)
  /-- a header without the magic number -/
  | corrupted
  /-- the end of the list -/
  | outOfMemory
  deriving DecidableEq, Repr

/-- The loop of `malloc` at block `cur`, for `n` bytes after rounding. -/
def mallocLoop (n : Nat) : Nat → Mem → Nat → Option (Exit × Mem)
  | 0, _, _ => none
  | fuel + 1, m, cur =>
      if cur = 0 then some (.outOfMemory, m)
      else if magic m cur ≠ blockMagic then some (.corrupted, m)
      else if isFree m cur ≠ 0 ∧ n ≤ size m cur then
        let m := if word (word (n + headerSize) + minSplit) ≤ size m cur then split m cur n else m
        some (.found cur, setFree m cur 0)
      else mallocLoop n fuel m (next m cur)

/-- What an allocator function returns: the pointer, whether `malloc` left
through its corruption branch, and the heap. -/
structure Reply where
  ptr : Nat
  corrupted : Bool
  heap : HeapState

/-- `malloc(size)`. -/
def malloc (fuel : Nat) (h : HeapState) (size : Nat) : Option Reply :=
  if h.ready = false ∨ size = 0 then some ⟨0, false, h⟩
  else
    match mallocLoop (roundUp size) fuel h.mem h.start with
    | none => none
    | some (.found block, m) => some ⟨word (block + headerSize), false, { h with mem := m }⟩
    | some (.corrupted, m) => some ⟨0, true, { h with mem := m }⟩
    | some (.outOfMemory, m) => some ⟨0, false, { h with mem := m }⟩

/-- `free(ptr)`. -/
def free (fuel : Nat) (h : HeapState) (ptr : Nat) : Option Reply :=
  if ptr = 0 then some ⟨0, false, h⟩
  else
    let block := word (ptr + (2 ^ 32 - headerSize))
    if magic h.mem block ≠ blockMagic then some ⟨0, false, h⟩
    else (mergeFree fuel { h with mem := setFree h.mem block 1 }).map fun h => ⟨0, false, h⟩

/-- `calloc(count, size)`. -/
def calloc (fuel : Nat) (h : HeapState) (count size : Nat) : Option Reply :=
  let total := word (count * size)
  match malloc fuel h total with
  | none => none
  | some r =>
      if r.ptr = 0 then some r
      else some { r with heap := { r.heap with mem := memset r.heap.mem r.ptr 0 total } }

/-- `realloc(ptr, size)`. -/
def realloc (fuel : Nat) (h : HeapState) (ptr newSize : Nat) : Option Reply :=
  if ptr = 0 then malloc fuel h newSize
  else if newSize = 0 then free fuel h ptr
  else
    let block := word (ptr + (2 ^ 32 - headerSize))
    if newSize ≤ size h.mem block then some ⟨ptr, false, h⟩
    else
      match malloc fuel h newSize with
      | none => none
      | some r =>
          if r.ptr = 0 then some r
          else
            let m := memcpy r.heap.mem r.ptr ptr (size r.heap.mem block)
            match free fuel { r.heap with mem := m } ptr with
            | none => none
            | some f => some ⟨r.ptr, r.corrupted, f.heap⟩

end FalastinOS.Heap
