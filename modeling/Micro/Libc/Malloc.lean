import Micro.Heap.Model
import Micro.Lib.Bytes

/-!
# The allocator of the C library

`malloc.c` of the C library is the allocator of the kernel once more, on memory that
`mmap` gave the program, with `realloc` and `calloc` on top.  `realloc` copies as many bytes
as the old block has, whatever the size of the new one, so here headers are not kept apart
from payloads: both are bytes of the same memory.

Memory is flat up to the address `stop`: a fill, a copy or a new header that leaves it faults.
`mmap` gives the program 0x100000 bytes; the first header and the block of 0x100000 bytes behind
it take 32 more.
-/

namespace Micro.Libc

open Lib Heap

/-- Memory, the address behind what can be accessed of it, and the `first` and `last`
pointers. -/
structure LibcHeap where
  bytes : Buf
  stop : Nat
  first : Nat
  last : Nat

namespace LibcHeap

variable (heap : LibcHeap)

/-! The fields of the `struct block` at an address: two pointers, an `int`, four bytes of
padding and a `size_t`. -/

def next (b : Nat) : Nat := le64 heap.bytes b
def prev (b : Nat) : Nat := le64 heap.bytes (b + 8)
def used (b : Nat) : Nat := le32 heap.bytes (b + 16)
def size (b : Nat) : Nat := le64 heap.bytes (b + 24)

/-- Store bytes at an address. -/
def write (address : Nat) (values : List UInt8) : LibcHeap :=
  { heap with bytes := put heap.bytes address values }

def setNext (b value : Nat) : LibcHeap := heap.write b (bytes64 value)
def setPrev (b value : Nat) : LibcHeap := heap.write (b + 8) (bytes64 value)
def setUsed (b value : Nat) : LibcHeap := heap.write (b + 16) (bytes32 value)
def setSize (b value : Nat) : LibcHeap := heap.write (b + 24) (bytes64 value)

end LibcHeap

def memset (heap : LibcHeap) (dst : Nat) (c : UInt8) (n : Nat) : Option LibcHeap :=
  if dst + n ≤ heap.stop then some (heap.write dst (List.replicate n c)) else none

/-- The loop of `memcpy`, with the bytes still to be copied. -/
def copyBytes : Nat → Buf → (dst src : Nat) → Buf
  | 0, bytes, _, _ => bytes
  | n + 1, bytes, dst, src =>
      copyBytes n (Function.update bytes dst (bytes src)) (dst + 1) (src + 1)

def memcpy (heap : LibcHeap) (dst src n : Nat) : Option LibcHeap :=
  if dst + n ≤ heap.stop ∧ src + n ≤ heap.stop then
    some { heap with bytes := copyBytes n heap.bytes dst src }
  else none

def combine (heap : LibcHeap) (b1 b2 : Nat) : LibcHeap :=
  let heap := heap.setSize b1 (addWord (heap.size b1) (addWord (heap.size b2) 32))
  let heap := heap.setNext b1 (heap.next b2)
  if heap.next b1 ≠ 0 then heap.setPrev (heap.next b1) b1 else { heap with last := b1 }

def split (heap : LibcHeap) (b n : Nat) : Option LibcHeap := do
  let new := addWord (addWord b 32) n
  let heap ← memset heap new 0 32
  let heap := heap.setUsed new 0
  let heap := heap.setSize new (subWord (subWord (heap.size b) n) 32)
  let heap := heap.setSize b n
  let heap := heap.setNext new (heap.next b)
  let heap := heap.setNext b new
  let heap := heap.setPrev new b
  some (if heap.next new ≠ 0 then heap.setPrev (heap.next new) new else { heap with last := new })

/-- The search of `malloc`.  `none` means that `split` faulted or that the fuel ran out before
the `while` loop ended. -/
def mallocScan (heap : LibcHeap) (n : Nat) : Nat → Nat → Option (Nat × LibcHeap)
  | 0, _ => none
  | fuel + 1, curr =>
      if curr = 0 then
        some (0, heap)
      else if heap.used curr = 0 ∧ n < heap.size curr then
        (split heap curr n).map fun heap => (addWord curr 32, heap.setUsed curr 1)
      else if heap.used curr = 0 ∧ heap.size curr = n then
        some (addWord curr 32, heap.setUsed curr 1)
      else
        mallocScan heap n fuel (heap.next curr)

/-- More iterations than the region has 32-byte slots. -/
abbrev searchFuel : Nat := 32771

section

variable (heap : LibcHeap)

/-- `malloc`: the returned pointer and the heap after the call. -/
def malloc (n : Nat) : Option (Nat × LibcHeap) :=
  if n = 0 then some (0, heap) else mallocScan heap (roundRequest n) searchFuel heap.first

/-- The last statement of `free`. -/
def combineNext (block : Nat) : LibcHeap :=
  if heap.next block ≠ 0 ∧ heap.used (heap.next block) = 0 then
    combine heap block (heap.next block)
  else heap

/-- `free` of a block -/
def freeBlock (block : Nat) : LibcHeap :=
  let heap := heap.setUsed block 0
  if heap.prev block ≠ 0 ∧ heap.used (heap.prev block) = 0 then
    combineNext (combine heap (heap.prev block) block) (heap.prev block)
  else combineNext heap block

def free (ptr : Nat) : LibcHeap :=
  if ptr = 0 then heap else freeBlock heap (subWord ptr 32)

def realloc (ptr size : Nat) : Option (Nat × LibcHeap) :=
  if size = 0 then some (0, free heap ptr)
  else do
    let (new, heap) ← malloc heap size
    if new = 0 then some (0, heap)
    else if ptr = 0 then some (new, heap)
    else
      let osize := heap.size (subWord ptr 32)
      let heap ← memcpy heap new ptr osize
      some (new, free heap ptr)

def calloc (nitems size : Nat) : Option (Nat × LibcHeap) := do
  let (p, heap) ← malloc heap (nitems * size % 2 ^ 64)
  if p = 0 then some (0, heap)
  else
    let heap ← memset heap p 0 (nitems * size % 2 ^ 64)
    some (p, heap)

end

/-- `__malloc_init`, when `mmap` returned `start`.  `last` is set by the first `split`. -/
def mallocInit (bytes : Buf) (start stop : Nat) : LibcHeap :=
  let heap : LibcHeap := { bytes, stop, first := start, last := 0 }
  let heap := heap.setNext start 0
  let heap := heap.setPrev start 0
  let heap := heap.setSize start 0x100000
  heap.setUsed start 0

end Micro.Libc
