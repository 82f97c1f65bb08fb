import Micro.Heap.Layout

/-!
# Edits of a laid-out heap

Each pointer edit of the allocator is a local change of the cell list: flipping
the `used` flag of one cell, cutting one cell in two, or joining two neighbours.
`Represents` ties a heap to its cell list; the three edit lemmas say that the
relinking of `split` and `combine` realises exactly these list edits.
-/

namespace Micro.Heap

open Lib Function

/-- A heap stores `cells` from `start` on, with the region below `2 ^ 64`. -/
structure Represents (start : Nat) (heap : HeapState) (cells : List Cell) : Prop where
  first : heap.first = start
  last : heap.last = lastAddress 0 start cells
  laid : Laid heap.mem 0 start 0 cells
  nonempty : cells ≠ []
  positive : 0 < start
  bound : start + span cells < 2 ^ 64

@[simp] theorem assign_mem (heap : HeapState) (address : Nat) (change : Block → Block) :
    (heap.assign address change).mem = update heap.mem address (change (heap.mem address)) := rfl

@[simp] theorem assign_last (heap : HeapState) (address : Nat)
    (change : Block → Block) : (heap.assign address change).last = heap.last := rfl

variable {start : Nat} {heap : HeapState} {before after : List Cell} {cell : Cell}
  {address value : Nat} {mem : Nat → Block}

section

variable (repr : Represents start heap (before ++ cell :: after))
include repr

theorem Represents.cell_bound : start + span before + 32 + cell.size + span after < 2 ^ 64 := by
  have bound := repr.bound
  simp only [span_append, span] at bound
  omega

theorem Represents.header :
    heap.mem (start + span before) =
      { next := headPointer (start + span before + 32 + cell.size) 0 after
        prev := lastAddress 0 start before
        used := cell.used
        size := cell.size } :=
  ((laid_append _ _ _ _ _ _).mp repr.laid).2.1

/-- Rebuild a representation whose memory changed only at or after one cell. -/
theorem Represents.rebuild {heap' : HeapState} {tail : List Cell} (tailNonempty : tail ≠ [])
    (sameSpan : span tail = span (cell :: after)) (first : heap'.first = heap.first)
    (last : heap'.last = lastAddress (lastAddress 0 start before) (start + span before) tail)
    (agree : ∀ a, a < start + span before → heap'.mem a = heap.mem a)
    (laidTail : Laid heap'.mem (lastAddress 0 start before) (start + span before) 0 tail) :
    Represents start heap' (before ++ tail) where
  first := first.trans repr.first
  last := by rw [lastAddress_append]; exact last
  laid := by
    have laid := (laid_append _ _ _ _ _ _).mp repr.laid
    refine (laid_append _ _ _ _ _ _).mpr ⟨?_, laidTail⟩
    obtain ⟨_, _, rfl⟩ := List.exists_cons_of_ne_nil tailNonempty
    exact laid.1.transport fun a _ upper => agree a upper
  nonempty := by simp [tailNonempty]
  positive := repr.positive
  bound := by
    have bound := repr.bound
    simp only [span_append] at bound ⊢
    rw [sameSpan]
    exact bound

theorem Represents.setUsed (used : Bool) :
    Represents start
      (heap.assign (start + span before) fun block => { block with used := used })
      (before ++ { cell with used := used } :: after) := by
  have header := repr.header
  have laid := ((laid_append _ _ _ _ _ _).mp repr.laid).2
  refine repr.rebuild (by simp) rfl rfl ?_ ?_ ⟨?_, ?_⟩
  · rw [assign_last, repr.last, lastAddress_append]
    rfl
  · intro a _
    exact update_of_ne (by omega) _ _
  · simp [header]
  · refine laid.2.transport fun a _ _ => ?_
    exact update_of_ne (by omega) _ _

end

/-- Memory after the conditional update of a neighbour's `prev` link. -/
def withPrev (mem : Nat → Block) (address value : Nat) : Nat → Block :=
  if address = 0 then mem
  else Function.update mem address { mem address with prev := value }

theorem withPrev_of_ne {a : Nat} (differs : address = 0 ∨ a ≠ address) :
    withPrev mem address value a = mem a := by
  unfold withPrev
  split
  · rfl
  · rename_i nonzero
    rcases differs with zero | differs
    · exact absurd zero nonzero
    · exact update_of_ne differs _ _

theorem withPrev_self (nonzero : address ≠ 0) :
    withPrev mem address value address = { mem address with prev := value } := by
  simp [withPrev, nonzero]

theorem Laid.relink {mem' : Nat → Block} {old : Nat} {cells : List Cell} (pos : 0 < address)
    (laid : Laid mem old address 0 cells)
    (agree : ∀ a, address ≤ a → mem' a = withPrev mem (headPointer address 0 cells) value a) :
    Laid mem' value address 0 cells := by
  cases cells with
  | nil => trivial
  | cons _ _ =>
    rcases laid with ⟨headLaid, tailLaid⟩
    constructor
    · rw [agree address (Nat.le_refl _)]
      change withPrev mem address value address = _
      rw [withPrev_self (by omega), headLaid]
    · apply tailLaid.transport
      intro a _ _
      rw [agree a (by omega)]
      apply withPrev_of_ne
      apply Or.inr
      change a ≠ address
      omega

/-- The `next` link of a laid-out cell is null or lies behind the cell. -/
theorem headPointer_cases (address : Nat) (cells : List Cell) :
    headPointer address 0 cells = 0 ∨ headPointer address 0 cells = address := by
  cases cells with
  | nil => exact .inl rfl
  | cons _ _ => exact .inr rfl

/-- Memory after `split`, when the new header address does not wrap and no two
of the three headers written coincide. -/
theorem split_mem {b n : Nat}
    (size : n + 32 ≤ (heap.mem b).size)
    (bound : b + 32 + (heap.mem b).size ≤ 2 ^ 64)
    (nextFar : (heap.mem b).next = 0 ∨ b + 32 + n < (heap.mem b).next) :
    (split heap b n).mem =
      update
        (update
          (withPrev heap.mem (heap.mem b).next (b + 32 + n))
          b { heap.mem b with size := n, next := b + 32 + n })
        (b + 32 + n)
        { next := (heap.mem b).next
          prev := b
          used := false
          size := (heap.mem b).size - n - 32 } := by
  have payload : addWord b 32 = b + 32 := addWord_of_lt (by omega)
  have address : addWord (addWord b 32) n = b + 32 + n := by
    rw [payload]
    exact addWord_of_lt (by omega)
  have shrunk : subWord (heap.mem b).size n = (heap.mem b).size - n :=
    subWord_of_le (by omega) (by omega)
  have rest : subWord (subWord (heap.mem b).size n) 32 = (heap.mem b).size - n - 32 := by
    rw [shrunk]
    exact subWord_of_le (by omega) (by omega)
  have newNe : b + 32 + n ≠ b := by omega
  funext a
  simp only [split, address, rest, withPrev]
  rcases nextFar with isLast | nextFar
  · simp only [assign_mem, update_of_ne newNe, update_of_ne newNe.symm, isLast]
    by_cases atNew : a = b + 32 + n
    · subst atNew
      simp
    · by_cases atOld : a = b
      · subst atOld
        simp [newNe.symm]
      · simp [atNew, atOld]
  · have nextNew : (heap.mem b).next ≠ b + 32 + n := by omega
    have nextOld : (heap.mem b).next ≠ b := by omega
    have nextNonzero : (heap.mem b).next ≠ 0 := by omega
    simp only [assign_mem, update_self, update_of_ne newNe,
      update_of_ne newNe.symm, ne_eq, nextNonzero, not_false_eq_true, if_true]
    by_cases atNext : a = (heap.mem b).next
    · rw [atNext]
      simp [nextNew, nextOld]
    · by_cases atNew : a = b + 32 + n
      · subst atNew
        simp [nextNew.symm]
      · by_cases atOld : a = b
        · subst atOld
          simp [newNe.symm, atNext]
        · simp [atNew, atOld, atNext]

@[simp] theorem split_first (b n : Nat) : (split heap b n).first = heap.first := by
  unfold split
  dsimp only
  split <;> rfl

theorem split_last (b n : Nat) (size : n + 32 ≤ (heap.mem b).size)
    (bound : b + 32 + (heap.mem b).size ≤ 2 ^ 64) :
    (split heap b n).last = if (heap.mem b).next = 0 then b + 32 + n else heap.last := by
  have payload : addWord b 32 = b + 32 := addWord_of_lt (by omega)
  have address : addWord (addWord b 32) n = b + 32 + n := by
    rw [payload]
    exact addWord_of_lt (by omega)
  have newNe : b + 32 + n ≠ b := by omega
  simp only [split, address]
  by_cases isLast : (heap.mem b).next = 0 <;>
    simp [isLast, newNe, newNe.symm]

section

variable (repr : Represents start heap (before ++ cell :: after))
include repr

/-- The `last` pointer after a cell was replaced by `tail`: it moves only when
nothing follows the replaced cell. -/
theorem Represents.last_of_replaced :
    heap.last = lastAddress (start + span before) (start + span before + 32 + cell.size) after := by
  rw [repr.last, lastAddress_append]
  rfl

theorem Represents.afterSplit {n : Nat} (fits : n + 32 ≤ cell.size) :
    Represents start (split heap (start + span before) n)
      (before ++ { cell with size := n } ::
        { size := cell.size - n - 32, used := false } :: after) := by
  have header := repr.header
  have bound := repr.cell_bound
  have laid := ((laid_append _ _ _ _ _ _).mp repr.laid).2
  have link := headPointer_cases (start + span before + 32 + cell.size) after
  have size : n + 32 ≤ (heap.mem (start + span before)).size := by
    rw [header]
    exact fits
  have region : start + span before + 32 + (heap.mem (start + span before)).size ≤ 2 ^ 64 := by
    rw [header]
    exact (by omega : start + span before + 32 + cell.size ≤ 2 ^ 64)
  have nextFar : (heap.mem (start + span before)).next = 0 ∨
      start + span before + 32 + n < (heap.mem (start + span before)).next := by
    rw [header]
    dsimp only
    omega
  have memory := split_mem size region nextFar
  have finalPointer := split_last _ _ size region
  rw [header] at memory finalPointer
  dsimp only at memory finalPointer
  have second : start + span before + 32 + n + 32 + (cell.size - n - 32) =
      start + span before + 32 + cell.size := by omega
  apply repr.rebuild (by simp)
  · simp only [span]
    omega
  · exact split_first _ _
  · rw [finalPointer, repr.last_of_replaced]
    cases after with
    | nil => rfl
    | cons _ _ =>
      change (if start + span before + 32 + cell.size = 0 then _ else _) = _
      rw [if_neg (by omega)]
      simp only [lastAddress, second]
  · intro a _
    rw [memory, update_of_ne (by omega), update_of_ne (by omega)]
    apply withPrev_of_ne
    omega
  · refine ⟨?_, ?_, ?_⟩
    · rw [memory, update_of_ne (by omega), update_self]
      rfl
    · rw [memory, update_self]
      rw [second]
    · rw [second]
      apply Laid.relink (by omega) laid.2
      intro a _
      rw [memory, update_of_ne (by omega), update_of_ne (by omega)]

end

/-- Memory after `combine`, when the joined size does not wrap. -/
theorem combine_mem (heap : HeapState) {b1 b2 : Nat} (ordered : b1 < b2)
    (size : (heap.mem b1).size + (heap.mem b2).size + 32 < 2 ^ 64)
    (nextFar : (heap.mem b2).next = 0 ∨ b2 < (heap.mem b2).next) :
    (combine heap b1 b2).mem =
      update (withPrev heap.mem (heap.mem b2).next b1) b1 { heap.mem b1 with
          size := (heap.mem b1).size + (heap.mem b2).size + 32
          next := (heap.mem b2).next } := by
  have second : addWord (heap.mem b2).size 32 = (heap.mem b2).size + 32 := addWord_of_lt (by omega)
  have joined : addWord (heap.mem b1).size (addWord (heap.mem b2).size 32) =
      (heap.mem b1).size + (heap.mem b2).size + 32 := by
    rw [addWord_of_lt (by omega)]
    omega
  have otherNe : b2 ≠ b1 := by omega
  funext a
  simp only [combine, assign_mem, joined, update_self, update_of_ne otherNe, withPrev]
  rcases nextFar with isLast | nextFar
  · simp [isLast]
  · have nextNe : (heap.mem b2).next ≠ b1 := by omega
    have nextNonzero : (heap.mem b2).next ≠ 0 := by omega
    simp only [ne_eq, nextNonzero]
    by_cases atNext : a = (heap.mem b2).next
    · rw [atNext]
      simp [nextNe]
    · by_cases atFirst : a = b1
      · subst atFirst
        simp [atNext, joined]
      · simp [atNext, atFirst]

@[simp] theorem combine_first (b1 b2 : Nat) : (combine heap b1 b2).first = heap.first := by
  unfold combine
  dsimp only
  split <;> rfl

theorem combine_last (heap : HeapState) {b1 b2 : Nat} (ordered : b1 < b2) :
    (combine heap b1 b2).last = if (heap.mem b2).next = 0 then b1 else heap.last := by
  have otherNe : b2 ≠ b1 := by omega
  simp only [combine, assign_mem, update_of_ne otherNe]
  by_cases isLast : (heap.mem b2).next = 0 <;> simp [isLast]

theorem Represents.afterCombine {cell' : Cell}
    (repr : Represents start heap (before ++ cell :: cell' :: after)) :
    Represents start
      (combine heap (start + span before) (start + span before + 32 + cell.size))
      (before ++ { cell with size := cell.size + cell'.size + 32 } :: after) := by
  have split : before ++ cell :: cell' :: after = (before ++ [cell]) ++ cell' :: after := by simp
  have repr' := split ▸ repr
  have header := repr.header
  have header' := repr'.header
  have bound := repr'.cell_bound
  have laid := ((laid_append _ _ _ _ _ _).mp repr.laid).2
  have link := headPointer_cases (start + span before + 32 + cell.size + 32 + cell'.size) after
  have spanBefore : start + span (before ++ [cell]) = start + span before + 32 + cell.size := by
    simp only [span_append, span]
    omega
  rw [spanBefore] at header' bound
  have memory := combine_mem heap
    (show start + span before < start + span before + 32 + cell.size by omega)
    (by rw [header, header']; dsimp only; omega)
    (by rw [header']; dsimp only; omega)
  have finalPointer := combine_last heap
    (show start + span before < start + span before + 32 + cell.size by omega)
  rw [header, header'] at memory
  rw [header'] at finalPointer
  dsimp only at memory finalPointer
  have joined : start + span before + 32 + (cell.size + cell'.size + 32) =
      start + span before + 32 + cell.size + 32 + cell'.size := by omega
  apply repr.rebuild (by simp)
  · simp only [span]
    omega
  · exact combine_first _ _
  · rw [finalPointer, repr.last_of_replaced]
    cases after with
    | nil => rfl
    | cons _ _ =>
      change (if start + span before + 32 + cell.size + 32 + cell'.size = 0 then _ else _) = _
      rw [if_neg (by omega)]
      simp only [lastAddress, joined]
  · intro a _
    rw [memory, update_of_ne (by omega)]
    apply withPrev_of_ne
    omega
  · constructor
    · rw [memory, update_self]
      rw [joined]
    · rw [joined]
      apply Laid.relink (by omega) laid.2.2
      intro a _
      rw [memory, update_of_ne (by omega)]

end Micro.Heap
