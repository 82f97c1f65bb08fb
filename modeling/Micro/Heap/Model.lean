import Micro.Lib.Word

/-!
# The kernel heap

The heap is one mapped region covered by blocks.  Each block starts with a
32-byte `struct block` header that links it to its two neighbours; the payload
handed to callers follows the header.  Memory is modelled as a store of headers
indexed by address, and pointers are addresses, with `0` for `NULL`.

The spin lock around the allocator makes every call atomic and is not
represented.
-/

namespace Micro.Heap

open Lib

/-- The `struct block` header, 32 bytes long.  The C `int used` only ever holds
0 and 1. -/
structure Block where
  next : Nat
  prev : Nat
  used : Bool
  size : Nat
  deriving DecidableEq, Repr

/-- Header memory together with the `first` and `last` pointers. -/
structure HeapState where
  mem : Nat → Block
  first : Nat
  last : Nat

/-- Assign fields of the header at an address. -/
def HeapState.assign (heap : HeapState) (address : Nat) (change : Block → Block) : HeapState :=
  { heap with mem := Function.update heap.mem address (change (heap.mem address)) }

/-- Merge `b2` into `b1`; both are free, adjacent and in ascending order. -/
def combine (heap : HeapState) (b1 b2 : Nat) : HeapState :=
  let heap := heap.assign b1 fun block =>
    { block with size := addWord block.size (addWord (heap.mem b2).size 32) }
  let heap := heap.assign b1 fun block => { block with next := (heap.mem b2).next }
  if (heap.mem b1).next ≠ 0 then
    heap.assign (heap.mem b1).next fun block => { block with prev := b1 }
  else
    { heap with last := b1 }

/-- Cut a block after `n` payload bytes and link the remainder in as a new free
block. -/
def split (heap : HeapState) (b n : Nat) : HeapState :=
  let new := addWord (addWord b 32) n
  let heap := heap.assign new fun block =>
    { block with
      used := false
      size := subWord (subWord (heap.mem b).size n) 32 }
  let heap := heap.assign b fun block => { block with size := n }
  let heap := heap.assign new fun block => { block with next := (heap.mem b).next }
  let heap := heap.assign b fun block => { block with next := new }
  let heap := heap.assign new fun block => { block with prev := b }
  if (heap.mem new).next ≠ 0 then
    heap.assign (heap.mem new).next fun block => { block with prev := new }
  else
    { heap with last := new }

/-- Round a request up to a multiple of 32, wrapping like `size_t`. -/
def roundRequest (n : Nat) : Nat :=
  if n % 32 ≠ 0 then addWord n (32 - n % 32) else n

/-- The first-fit search of `kmalloc`.  `none` means that the fuel ran out before
the `while` loop ended; a result of `0` is the `NULL` path behind `ud2`, which
leaves the heap alone. -/
def kmallocScan (heap : HeapState) (n : Nat) : Nat → Nat → Option (Nat × HeapState)
  | 0, _ => none
  | fuel + 1, curr =>
      if curr = 0 then
        some (0, heap)
      else if (heap.mem curr).used = false ∧ n < (heap.mem curr).size then
        let heap := split heap curr n
        some (addWord curr 32, heap.assign curr fun block => { block with used := true })
      else if (heap.mem curr).used = false ∧ (heap.mem curr).size = n then
        some (addWord curr 32, heap.assign curr fun block => { block with used := true })
      else
        kmallocScan heap n fuel (heap.mem curr).next

/-- More `while` iterations than the region has 32-byte slots. -/
abbrev scanFuel : Nat := 1280003

section

variable (heap : HeapState)

/-- `kmalloc`: the returned pointer and the heap after the call. -/
def kmalloc (n : Nat) : Option (Nat × HeapState) :=
  if n = 0 then
    some (0, heap)
  else
    kmallocScan heap (roundRequest n) scanFuel heap.first

/-- Merge a block with its successor if that one is free: the last statement of
`kfree`. -/
def combineNext (block : Nat) : HeapState :=
  if (heap.mem block).next ≠ 0 ∧ (heap.mem (heap.mem block).next).used = false then
    combine heap block (heap.mem block).next
  else
    heap

/-- Clear `used` and merge the block with a free neighbour on either side. -/
def freeBlock (block : Nat) : HeapState :=
  let heap := heap.assign block fun header => { header with used := false }
  if (heap.mem block).prev ≠ 0 ∧ (heap.mem (heap.mem block).prev).used = false then
    combineNext (combine heap (heap.mem block).prev block) (heap.mem block).prev
  else
    combineNext heap block

/-- `kfree` of a payload pointer. -/
def kfree (ptr : Nat) : HeapState :=
  freeBlock heap (subWord ptr 32)

end

/-- The state left by `heap_init`: one free block covering the region mapped at
`start`, with whatever headers memory held elsewhere. -/
def heapInit (memory : Nat → Block) (start : Nat) : HeapState where
  mem := Function.update memory start
    { next := 0, prev := 0, used := false, size := 10000 * 4096 }
  first := start
  last := start

end Micro.Heap
