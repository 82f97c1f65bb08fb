/-!
# Circular buffers and bounded queues

A circular buffer of `size` slots holds a queue in consecutive slots, counted from
the slot of the oldest element and wrapping at the end.  The queue it implements is
bounded: appending beyond the bound drops the oldest elements.
-/

namespace Micro.Lib

open List

universe u

variable {α : Type u}

/-- The slot `offset` places after `start`. -/
def slot (size start offset : Nat) : Nat :=
  if start + offset < size then start + offset else start + offset - size

def nextSlot (size index : Nat) : Nat := if index + 1 = size then 0 else index + 1

section Slots

variable {size start offset other : Nat}

theorem slot_nextSlot (bound : offset < size) :
    slot size (nextSlot size start) offset = slot size start (offset + 1) := by
  unfold nextSlot slot
  split <;> split <;> split <;> omega

section

variable (inside : start < size)
include inside

theorem slot_lt (bound : offset ≤ size) : slot size start offset < size := by
  unfold slot
  split <;> omega

@[simp] theorem slot_zero : slot size start 0 = start := by
  simp [slot, inside]

theorem nextSlot_slot (bound : offset < size) :
    nextSlot size (slot size start offset) = slot size start (offset + 1) := by
  unfold nextSlot slot
  split <;> split <;> split <;> omega

theorem nextSlot_lt : nextSlot size start < size := by
  unfold nextSlot
  split <;> omega

end

theorem slot_inj (left : offset < size) (right : other < size)
    (same : slot size start offset = slot size start other) : offset = other := by
  unfold slot at same
  split at same <;> split at same <;> omega

end Slots

/-! ## Bounded queues -/

/-- The last `bound` elements. -/
def keepLast (bound : Nat) (queue : List α) : List α := queue.drop (queue.length - bound)

theorem keepLast_of_le {bound : Nat} {queue : List α} (fits : queue.length ≤ bound) :
    keepLast bound queue = queue := by
  simp [keepLast, Nat.sub_eq_zero_of_le fits]

/-- Appending in two portions is appending at once. -/
theorem keepLast_append (bound : Nat) (queue rest : List α) :
    keepLast bound (keepLast bound queue ++ rest) = keepLast bound (queue ++ rest) := by
  rcases Nat.le_total queue.length bound with fits | _
  · rw [keepLast_of_le fits]
  · have prefixDropped : keepLast bound queue ++ rest =
        (queue ++ rest).drop (queue.length - bound) := by
      rw [drop_append_of_le_length (Nat.sub_le _ _)]
      rfl
    rw [prefixDropped]
    unfold keepLast
    rw [drop_drop, length_drop, length_append]
    congr 1
    omega

end Micro.Lib
