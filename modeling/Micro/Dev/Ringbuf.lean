import Mathlib.Data.List.Basic
import Micro.Lib.Circular
import Micro.Lib.Run
import Micro.Lib.Word

/-!
# Ring buffers

`kern/ringbuf.c`: a buffer of bytes with a read and a write index that wrap at its
end.  The two indices are equal both when the buffer is empty and when it is full;
the flag `full` tells the two apart.  A write to a full buffer overwrites the oldest
byte.
-/

namespace Micro.Dev

open Lib List Function

structure Ringbuf where
  read : Nat
  write : Nat
  size : Nat
  buffer : Nat → UInt8
  full : Bool

/-- `ringbuf_create`; `memory` is what `kmalloc` finds in the buffer -/
def ringbufCreate (memory : Nat → UInt8) (size : Nat) : Ringbuf :=
  { read := 0, write := 0, size, buffer := memory, full := false }

def ringbufInc (buf : Ringbuf) : Ringbuf :=
  let read :=
    if buf.full then (if buf.read + 1 = buf.size then 0 else buf.read + 1) else buf.read
  let write := if buf.write + 1 = buf.size then 0 else buf.write + 1
  { buf with read, write, full := write == read }

def ringbufDec (buf : Ringbuf) : Ringbuf :=
  { buf with
    read := if buf.read + 1 = buf.size then 0 else buf.read + 1
    full := false }

/-- `ringbuf_read`: the bytes read and the buffer left -/
def ringbufRead : Nat → Ringbuf → List UInt8 × Ringbuf
  | 0, buf => ([], buf)
  | size + 1, buf =>
      let rest := ringbufRead size (ringbufDec buf)
      (buf.buffer buf.read :: rest.1, rest.2)

def storeByte (buf : Ringbuf) (byte : UInt8) : Ringbuf :=
  { buf with buffer := Function.update buf.buffer buf.write byte }

def ringbufWrite (buf : Ringbuf) : List UInt8 → Ringbuf
  | [] => buf
  | byte :: bytes => ringbufWrite (ringbufInc (storeByte buf byte)) bytes

def ringbufSize (buf : Ringbuf) : Nat :=
  if buf.full then buf.size
  else if buf.read ≤ buf.write then subWord buf.write buf.read
  else subWord (addWord buf.size buf.write) buf.read

/-- What a read of the whole buffer returns. -/
def ringbufContents (buf : Ringbuf) : List UInt8 := (ringbufRead (ringbufSize buf) buf).1

/-! ## The queue in the buffer -/

/-- The buffer holds a queue: its bytes are in consecutive slots from the read index
on, and the write index is the slot after them. -/
structure Holds (buf : Ringbuf) (queue : List UInt8) : Prop where
  word : buf.size < 2 ^ 64
  inside : buf.read < buf.size
  bound : queue.length ≤ buf.size
  next : buf.write = slot buf.size buf.read queue.length
  full : buf.full = true ↔ queue.length = buf.size
  bytes : ∀ offset (inQueue : offset < queue.length),
    buf.buffer (slot buf.size buf.read offset) = queue[offset]

namespace Holds

variable {buf : Ringbuf} {queue : List UInt8}

theorem write_lt (holds : Holds buf queue) : buf.write < buf.size := by
  rw [holds.next]
  exact slot_lt holds.inside holds.bound

theorem size_eq (holds : Holds buf queue) : ringbufSize buf = queue.length := by
  obtain ⟨_, _, bound, next, full, _⟩ := holds
  unfold ringbufSize
  split
  · rename_i isFull
    exact (full.mp isFull).symm
  · rename_i notFull
    have below : queue.length < buf.size :=
      Nat.lt_of_le_of_ne bound fun same => notFull (full.mpr same)
    unfold slot at next
    simp only [subWord, addWord]
    split at next <;> split <;> omega

theorem create (memory : Nat → UInt8) {size : Nat} (pos : 1 ≤ size)
    (word : size < 2 ^ 64) : Holds (ringbufCreate memory size) [] where
  word := word
  inside := pos
  bound := Nat.zero_le _
  next := (slot_zero pos).symm
  full := ⟨fun flag => absurd flag Bool.false_ne_true,
    fun same => absurd same (Nat.ne_of_lt pos)⟩
  bytes := fun _ inQueue => absurd inQueue (Nat.not_lt_zero _)

theorem pop {byte : UInt8} (holds : Holds buf (byte :: queue)) :
    buf.buffer buf.read = byte ∧ Holds (ringbufDec buf) queue := by
  obtain ⟨word, inside, bound, next, full, bytes⟩ := holds
  have room : queue.length < buf.size := bound
  constructor
  · have first := bytes 0 (Nat.zero_lt_succ _)
    rw [slot_zero inside] at first
    exact first
  · constructor
    case word => exact word
    case inside => exact nextSlot_lt inside
    case bound => exact Nat.le_of_lt room
    case next => exact next.trans (slot_nextSlot room).symm
    case full =>
      simp only [ringbufDec, Bool.false_eq_true, false_iff]
      exact Nat.ne_of_lt room
    case bytes =>
      intro offset inQueue
      have shifted : slot buf.size (nextSlot buf.size buf.read) offset =
          slot buf.size buf.read (offset + 1) :=
        slot_nextSlot (Nat.lt_trans inQueue room)
      exact (congrArg buf.buffer shifted).trans (bytes (offset + 1) (Nat.succ_lt_succ inQueue))

/-- Storing a byte while there is room appends it. -/
theorem push_room (holds : Holds buf queue) (room : queue.length < buf.size) (byte : UInt8) :
    Holds (ringbufInc (storeByte buf byte)) (queue ++ [byte]) := by
  obtain ⟨word, inside, bound, next, full, bytes⟩ := holds
  have notFull : buf.full = false := by
    rw [← Bool.not_eq_true, full]
    exact Nat.ne_of_lt room
  have sameRead : (ringbufInc (storeByte buf byte)).read = buf.read := by
    simp [ringbufInc, storeByte, notFull]
  have newWrite : (ringbufInc (storeByte buf byte)).write =
      slot buf.size buf.read (queue.length + 1) := by
    rw [← nextSlot_slot inside room, ← next]
    rfl
  constructor
  case word => exact word
  case inside =>
    rw [sameRead]
    exact inside
  case bound =>
    simp only [length_append]
    exact room
  case next =>
    rw [newWrite, sameRead]
    simp [ringbufInc, storeByte]
  case full =>
    have isFull : (ringbufInc (storeByte buf byte)).full =
        (slot buf.size buf.read (queue.length + 1) == buf.read) := by
      rw [← newWrite, ← sameRead]
      rfl
    simp only [isFull, beq_iff_eq, length_append]
    change _ ↔ queue.length + 1 = buf.size
    unfold slot
    split <;> omega
  case bytes =>
    intro offset inQueue
    rw [sameRead]
    change update buf.buffer buf.write byte (slot buf.size buf.read offset) = _
    simp only [length_append, length_singleton] at inQueue
    by_cases old : offset < queue.length
    · have elsewhere : slot buf.size buf.read offset ≠ buf.write := by
        rw [next]
        intro same
        exact Nat.ne_of_lt old (slot_inj (Nat.lt_trans old room) room same)
      rw [update_of_ne elsewhere, bytes offset old, getElem_append_left old]
    · have newest : offset = queue.length := by omega
      subst newest
      rw [← next]
      simp

/-- Storing a byte in a full buffer drops the oldest. -/
theorem push_full {oldest : UInt8} (holds : Holds buf (oldest :: queue))
    (isFull : (oldest :: queue).length = buf.size) (byte : UInt8) :
    Holds (ringbufInc (storeByte buf byte)) (queue ++ [byte]) := by
  -- Both indices move on, as if the oldest byte had been read first.
  obtain ⟨_, popped⟩ := holds.pop
  have flag : buf.full = true := holds.full.mpr isFull
  have room := holds.bound
  have pushed := popped.push_room room byte
  have same : ringbufInc (storeByte buf byte) = ringbufInc (storeByte (ringbufDec buf) byte) := by
    simp only [storeByte, flag]
    rfl
  rw [same]
  exact pushed

theorem push (holds : Holds buf queue) (byte : UInt8) :
    Holds (ringbufInc (storeByte buf byte)) (keepLast buf.size (queue ++ [byte])) := by
  by_cases room : queue.length < buf.size
  · have fits : (queue ++ [byte]).length ≤ buf.size := by
      simp only [length_append]
      exact room
    rw [keepLast_of_le fits]
    exact holds.push_room room byte
  · have isFull : queue.length = buf.size := Nat.le_antisymm holds.bound (Nat.not_lt.mp room)
    cases queue with
    | nil => exact absurd isFull (Nat.ne_of_lt (Nat.lt_of_le_of_lt (Nat.zero_le _) holds.inside))
    | cons oldest queue =>
      have kept : keepLast buf.size (oldest :: queue ++ [byte]) = queue ++ [byte] := by
        simp [keepLast, ← isFull]
      rw [kept]
      exact holds.push_full isFull byte

/-- `ringbuf_write` appends and keeps the last bytes that fit. -/
theorem write (holds : Holds buf queue) (bytes : List UInt8) :
    Holds (ringbufWrite buf bytes) (keepLast buf.size (queue ++ bytes)) ∧
      (ringbufWrite buf bytes).size = buf.size := by
  induction bytes generalizing buf queue with
  | nil =>
    rw [append_nil, keepLast_of_le holds.bound]
    exact ⟨holds, rfl⟩
  | cons byte bytes ih =>
    obtain ⟨written, sameSize⟩ := ih (holds.push byte)
    have sizes : (ringbufInc (storeByte buf byte)).size = buf.size := rfl
    rw [sizes, keepLast_append, append_assoc] at written
    exact ⟨written, sameSize⟩

variable (holds : Holds buf queue)
include holds

/-- `ringbuf_read` takes bytes from the front. -/
theorem read {size : Nat} (available : size ≤ queue.length) :
    (ringbufRead size buf).1 = queue.take size ∧
      Holds (ringbufRead size buf).2 (queue.drop size) ∧
      (ringbufRead size buf).2.size = buf.size := by
  induction size generalizing buf queue with
  | zero => exact ⟨rfl, holds, rfl⟩
  | succ size ih =>
    cases queue with
    | nil => exact absurd available (Nat.not_succ_le_zero size)
    | cons _ queue =>
      obtain ⟨first, popped⟩ := holds.pop
      obtain ⟨taken, left, sameSize⟩ := ih popped (Nat.le_of_succ_le_succ available)
      refine ⟨?_, left, sameSize⟩
      simp only [ringbufRead, take_succ_cons]
      rw [first, taken]

theorem contents_eq : ringbufContents buf = queue := by
  obtain ⟨taken, _⟩ := holds.read (Nat.le_of_eq holds.size_eq)
  rw [ringbufContents, taken, holds.size_eq, take_length]

theorem write_fits (bytes : List UInt8) (fits : queue.length + bytes.length ≤ buf.size) :
    Holds (ringbufWrite buf bytes) (queue ++ bytes) ∧ (ringbufWrite buf bytes).size = buf.size := by
  have written := holds.write bytes
  rw [keepLast_of_le (by rw [length_append]; exact fits)] at written
  exact written

end Holds

/-! ## Refinement -/

inductive RingCall where
  | write (bytes : List UInt8)
  | read (size : Nat)
  deriving DecidableEq, Repr

/-- One call on a ring buffer, with the bytes that all reads so far have returned. -/
def ringStep (state : Ringbuf × List (List UInt8)) : RingCall →
    Option (Ringbuf × List (List UInt8))
  | .write bytes => some (ringbufWrite state.1 bytes, state.2)
  | .read size =>
      let done := ringbufRead size state.1
      some (done.2, state.2 ++ [done.1])

/-- A read asks for no more than there is. -/
def Available (state : Ringbuf × List (List UInt8)) : RingCall → Prop
  | .write _ => True
  | .read size => size ≤ ringbufSize state.1

/-- A queue of at most `bound` bytes, with the bytes that all reads so far have
returned: a write keeps the last `bound` bytes, a read takes the first ones. -/
def queueStep (bound : Nat) (state : List UInt8 × List (List UInt8)) : RingCall →
    Option (List UInt8 × List (List UInt8))
  | .write bytes => some (keepLast bound (state.1 ++ bytes), state.2)
  | .read size =>
      if size ≤ state.1.length then
        some (state.1.drop size, state.2 ++ [state.1.take size])
      else none

/-- A ring buffer and a queue that have returned the same bytes. -/
def Refines (bound : Nat) (state : Ringbuf × List (List UInt8))
    (spec : List UInt8 × List (List UInt8)) : Prop :=
  state.1.size = bound ∧ Holds state.1 spec.1 ∧ state.2 = spec.2

theorem ringStep_refines {bound : Nat} (state : Ringbuf × List (List UInt8))
    (spec : List UInt8 × List (List UInt8)) (call : RingCall)
    (refines : Refines bound state spec) (available : Available state call) :
    ∃ next nextSpec, ringStep state call = some next ∧
      queueStep bound spec call = some nextSpec ∧ Refines bound next nextSpec := by
  obtain ⟨_, ran⟩ := state
  obtain ⟨queue, _⟩ := spec
  obtain ⟨isBound, holds, sameReturned⟩ := refines
  subst isBound sameReturned
  cases call with
  | write bytes =>
    obtain ⟨written, sameSize⟩ := holds.write bytes
    exact ⟨_, _, rfl, rfl, sameSize, written, rfl⟩
  | read size =>
    have inQueue : size ≤ queue.length := by
      rw [← holds.size_eq]
      exact available
    obtain ⟨taken, left, sameSize⟩ := holds.read inQueue
    refine ⟨_, _, rfl, if_pos inQueue, sameSize, left, ?_⟩
    exact congrArg (fun bytes => ran ++ [bytes]) taken

/-- Every sequence of writes and of reads of available bytes behaves as the bounded
queue does, with the indices in range and the flag telling whether the queue is full. -/
theorem ringbuf_refines_queue (memory : Nat → UInt8) (size : Nat) (positive : 1 ≤ size)
    (word : size < 2 ^ 64) (calls : List RingCall)
    (available : Permitted ringStep Available (ringbufCreate memory size, []) calls) :
    ∃ buf queue returned,
      drive ringStep (ringbufCreate memory size, []) calls = some (buf, returned) ∧
      drive (queueStep size) ([], []) calls = some (queue, returned) ∧
      queue.length = ringbufSize buf ∧ queue.length ≤ size ∧
      buf.read < size ∧ buf.write < size ∧ (buf.full = true ↔ queue.length = size) := by
  have start : Refines size (ringbufCreate memory size, []) ([], []) :=
    ⟨rfl, .create memory positive word, rfl⟩
  obtain ⟨⟨buf, returned⟩, ⟨queue, _⟩, driven, drivenSpec, sameSize, holds, same⟩ :=
    drive_simulates ringStep_refines calls _ _ start available
  subst sameSize same
  exact ⟨buf, queue, returned, driven, drivenSpec, holds.size_eq.symm, holds.bound, holds.inside,
    holds.write_lt, holds.full⟩

/-- A write longer than the buffer, and a read of part of what is left. -/
theorem ringbuf_refines_queue_overwrite :
    ∃ buf queue returned,
      drive ringStep (ringbufCreate (fun _ => 0) 3, []) [.write [1, 2, 3, 4], .read 2] =
        some (buf, returned) ∧
      drive (queueStep 3) ([], []) [.write [1, 2, 3, 4], .read 2] = some (queue, returned) ∧
      queue = [4] ∧ returned = [[2, 3]] ∧ queue.length = ringbufSize buf := by
  have available : Permitted ringStep Available (ringbufCreate (fun _ => 0) 3, [])
      [.write [1, 2, 3, 4], .read 2] := by
    refine ⟨trivial, fun _ stepped => ⟨?_, fun _ _ => trivial⟩⟩
    cases stepped
    change 2 ≤ ringbufSize _
    decide +kernel
  obtain ⟨buf, queue, returned, driven, drivenSpec, sameLength, _⟩ :=
    ringbuf_refines_queue (fun _ => 0) 3 (by decide) (by decide)
      [.write [1, 2, 3, 4], .read 2] available
  have result : drive (queueStep 3) ([], []) [.write [1, 2, 3, 4], .read 2] =
      some ([4], [[2, 3]]) := by
    decide
  cases drivenSpec.symm.trans result
  exact ⟨buf, [4], [[2, 3]], driven, drivenSpec, rfl, rfl, sameLength⟩

end Micro.Dev
