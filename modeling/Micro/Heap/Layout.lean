import Micro.Heap.Model

/-!
# Laid-out heaps

A heap is described abstractly by the list of its cells in address order.  The
addresses follow from the sizes, so two cells can neither overlap nor leave a
gap.  `Laid` states that a stretch of header memory stores a list of cells with
the links the allocator expects, and the lemmas here split a stretch at a cell
and transport it to a memory that agrees on its addresses.
-/

namespace Micro.Heap

open List

/-- One block without its links. -/
structure Cell where
  size : Nat
  used : Bool
  deriving DecidableEq, Repr

/-- Bytes covered by a list of cells, headers included. -/
def span : List Cell → Nat
  | [] => 0
  | cell :: cells => 32 + cell.size + span cells

/-- Address of the last cell laid out from `address`, or `before` if there is
none. -/
def lastAddress (before address : Nat) : List Cell → Nat
  | [] => before
  | cell :: cells => lastAddress address (address + 32 + cell.size) cells

/-- Pointer to the first cell laid out from `address`, or `after` if there is
none. -/
def headPointer (address after : Nat) : List Cell → Nat
  | [] => after
  | _ :: _ => address

/-- Header memory stores `cells` from `address` on, preceded by the block
`before` and followed by the block `after`. -/
def Laid (mem : Nat → Block) (before address after : Nat) : List Cell → Prop
  | [] => True
  | cell :: cells =>
      mem address =
          { next := headPointer (address + 32 + cell.size) after cells
            prev := before
            used := cell.used
            size := cell.size } ∧
        Laid mem address (address + 32 + cell.size) after cells

@[simp] theorem span_append (left right : List Cell) :
    span (left ++ right) = span left + span right := by
  induction left with
  | nil => simp [span]
  | cons _ _ _ =>
    simp only [cons_append, span]
    omega

theorem headPointer_append (address after : Nat) (left right : List Cell) :
    headPointer address after (left ++ right) =
      headPointer address (headPointer (address + span left) after right) left := by
  cases left with
  | nil => simp [headPointer, span]
  | cons _ _ => rfl

theorem lastAddress_append (before address : Nat) (left right : List Cell) :
    lastAddress before address (left ++ right) =
      lastAddress (lastAddress before address left) (address + span left) right := by
  induction left generalizing before address with
  | nil => simp [lastAddress, span]
  | cons _ _ ih =>
    simp only [cons_append, lastAddress, span, ih]
    congr 1
    omega

theorem laid_append (mem : Nat → Block) (before address after : Nat) (left right : List Cell) :
    Laid mem before address after (left ++ right) ↔
      Laid mem before address
          (headPointer (address + span left) after right) left ∧
        Laid mem (lastAddress before address left) (address + span left) after right := by
  induction left generalizing before address with
  | nil => simp [Laid, lastAddress, span]
  | cons cell cells ih =>
    have shift : address + 32 + cell.size + span cells =
        address + (32 + cell.size + span cells) := by omega
    simp only [cons_append, Laid, lastAddress, span, ih, headPointer_append, shift, and_assoc]

theorem Laid.transport {mem mem' : Nat → Block} {before address after : Nat}
    {cells : List Cell} (laid : Laid mem before address after cells)
    (agree : ∀ a, address ≤ a → a < address + span cells → mem' a = mem a) :
    Laid mem' before address after cells := by
  induction cells generalizing before address with
  | nil => trivial
  | cons _ cells ih =>
    simp only [span] at agree
    refine ⟨?_, ih laid.2 ?_⟩
    · rw [agree address (Nat.le_refl _) (by omega)]
      exact laid.1
    · intro a _ _
      exact agree a (by omega) (by omega)

end Micro.Heap
