import Micro.Heap.Payloads

/-!
# The extent of the heap

`heap_init` maps 10000 pages and gives the first block all of them as payload, although its
header stands in them too.  The blocks therefore always cover 32 bytes more than what is
mapped.  Splitting and merging move these bytes from one block to another: they are at the
end of the last block.
-/

namespace Micro.Heap

open Lib

/-- The header and the payload of a block lie in the pages that `heap_init` mapped. -/
def Inside (start : Nat) (heap : HeapState) (block : Nat) : Prop :=
  ∀ address, block ≤ address → address < block + 32 + (heap.mem block).size →
    start ≤ address ∧ address < start + 10000 * 4096

/-- Behind every cell but the last there is room for another header. -/
theorem Cells.inside_iff {start : Nat} {session : Session} {before after : List Cell}
    {cell : Cell} (sound : Cells start session (before ++ cell :: after)) :
    Inside start session.heap (start + span before) ↔
      (session.heap.mem (start + span before)).next ≠ 0 := by
  have total := sound.total
  simp only [span_append] at total
  rw [Inside, sound.repr.header]
  cases after with
  | nil =>
    simp only [headPointer, ne_eq, not_true_eq_false, iff_false]
    intro inside
    have last := inside (start + 10000 * 4096)
    simp only [span] at total
    omega
  | cons _ _ =>
    simp only [headPointer, span] at total ⊢
    constructor
    · omega
    · omega

/-- After every history of allocations and of frees of live pointers, each block lies inside
the pages that `heap_init` mapped exactly when it is not the last one. -/
theorem heap_inside_iff (memory : Nat → Block) (start : Nat) (positive : 0 < start)
    (region : start + (32 + 10000 * 4096) < 2 ^ 64) (calls : List Call)
    (disciplined : Permitted Session.call Disciplined (initial memory start) calls) :
    ∃ session blocks, drive Session.call (initial memory start) calls = some session ∧
      Walk session.heap.mem session.heap.first blocks ∧
      ∀ block ∈ blocks, Inside start session.heap block ↔ (session.heap.mem block).next ≠ 0 := by
  obtain ⟨session, cells, driven, sound⟩ := disciplined_run memory positive region disciplined
  refine ⟨session, addresses start cells, driven, sound.repr.walk, fun block member => ?_⟩
  obtain ⟨_, _, _, rfl, rfl⟩ := mem_addresses member
  exact sound.inside_iff

/-- Two requests at the base of the kernel heap window. -/
theorem heap_inside_requests :
    ∃ session blocks, drive Session.call (initial blankMemory 0xffffffffc0000000)
        [.kmalloc 100, .kmalloc 4096] = some session ∧
      Walk session.heap.mem session.heap.first blocks ∧
      ∀ block ∈ blocks,
        Inside 0xffffffffc0000000 session.heap block ↔ (session.heap.mem block).next ≠ 0 :=
  heap_inside_iff blankMemory 0xffffffffc0000000 (by decide) (by decide) _
    ⟨trivial, fun _ _ => ⟨trivial, fun _ _ => trivial⟩⟩

/-- A request for the whole heap is granted, and the block it gets is the only one; its last
bytes are not mapped. -/
theorem heap_outside :
    ∃ session, drive Session.call (initial blankMemory 0xffffffffc0000000)
        [.kmalloc 40960000] = some session ∧
      Walk session.heap.mem session.heap.first [0xffffffffc0000000] ∧
      ¬ ∀ block ∈ [0xffffffffc0000000], Inside 0xffffffffc0000000 session.heap block := by
  refine ⟨_, rfl, ?_, ?_⟩
  · exact .visit (by decide) Walk.stop
  · intro inside
    have last := inside 0xffffffffc0000000 (by simp) (0xffffffffc0000000 + 40960000)
      (by decide) (by decide)
    exact absurd last.2 (by decide)

end Micro.Heap
