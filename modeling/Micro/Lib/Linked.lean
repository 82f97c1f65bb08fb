import Mathlib.Data.List.Induction
import Mathlib.Data.List.Nodup

/-!
# Doubly linked lists

Nodes in a store point to their neighbours in both directions.  `Linked` says that a list
of addresses with their elements is linked from one end to the other, between two pointers
that stand for what lies outside.  A list splits at every position, and inserting or
removing a node only relinks its two neighbours.
-/

namespace Micro.Lib

open Function List

universe u v

variable {Addr : Type u} {α : Type v} {before after : Option Addr}
  {left right cells : List (Addr × α)}

/-- A node with the pointers to its neighbours. -/
structure Node (Addr : Type u) (α : Type v) where
  next : Option Addr
  prev : Option Addr
  data : α

/-- The nodes there are, by address. -/
abbrev Nodes (Addr : Type u) (α : Type v) := Addr → Option (Node Addr α)

variable {nodes : Nodes Addr α}

/-- The pointer to the first of some nodes, or to what follows them. -/
def firstOf (after : Option Addr) : List (Addr × α) → Option Addr
  | [] => after
  | cell :: _ => some cell.1

/-- The pointer to the last of some nodes, or to what precedes them. -/
def lastOf (before : Option Addr) : List (Addr × α) → Option Addr
  | [] => before
  | cell :: cells => lastOf (some cell.1) cells

/-- The nodes are linked in both directions, between `before` and `after`. -/
def Linked (nodes : Nodes Addr α) (before after : Option Addr) : List (Addr × α) → Prop
  | [] => True
  | cell :: cells =>
      nodes cell.1 = some ⟨firstOf after cells, before, cell.2⟩ ∧
        Linked nodes (some cell.1) after cells

/-- What is found by following pointers to the end. -/
inductive Follows (nodes : Nodes Addr α) (step : Node Addr α → Option Addr) :
    Option Addr → List α → Prop where
  | stop : Follows nodes step none []
  | visit {addr : Addr} {node : Node Addr α} {items : List α} :
      nodes addr = some node → Follows nodes step (step node) items →
      Follows nodes step (some addr) (node.data :: items)

section Ends

theorem firstOf_append : firstOf after (left ++ right) = firstOf (firstOf after right) left := by
  cases left with
  | nil => rfl
  | cons _ left => rfl

theorem lastOf_append : lastOf before (left ++ right) = lastOf (lastOf before left) right := by
  induction left generalizing before with
  | nil => rfl
  | cons _ left ih => exact ih

theorem firstOf_eq_none : firstOf none left = none ↔ left = [] := by
  cases left with
  | nil => simp [firstOf]
  | cons _ left => simp [firstOf]

theorem lastOf_concat (cell : Addr × α) : lastOf before (left ++ [cell]) = some cell.1 := by
  rw [lastOf_append]
  rfl

theorem lastOf_eq_none : lastOf none left = none ↔ left = [] := by
  cases left using reverseRecOn with
  | nil => simp [lastOf]
  | append_singleton left _ => simp [lastOf_concat]

end Ends

section Linked

variable {other : Nodes Addr α}

theorem linked_append : Linked nodes before after (left ++ right) ↔
    Linked nodes before (firstOf after right) left ∧ Linked nodes (lastOf before left) after right := by
  induction left generalizing before with
  | nil => simp [Linked, lastOf]
  | cons _ left ih => simp only [cons_append, Linked, lastOf, firstOf_append, ih, and_assoc]

theorem Linked.transport (linked : Linked nodes before after cells)
    (agree : ∀ cell ∈ cells, other cell.1 = nodes cell.1) : Linked other before after cells := by
  induction cells generalizing before with
  | nil => trivial
  | cons cell cells ih =>
    obtain ⟨here, rest⟩ := linked
    simp only [forall_mem_cons] at agree
    exact ⟨agree.1.trans here, ih rest agree.2⟩

theorem Linked.node (linked : Linked nodes before after cells) {cell : Addr × α} (mem : cell ∈ cells) :
    ∃ node, nodes cell.1 = some node := by
  induction cells generalizing before with
  | nil => cases mem
  | cons _ cells ih =>
    obtain ⟨here, rest⟩ := linked
    rcases mem_cons.mp mem with rfl | later
    · exact ⟨_, here⟩
    · exact ih rest later

theorem Linked.follows_next (linked : Linked nodes before none cells) :
    Follows nodes Node.next (firstOf none cells) (cells.map Prod.snd) := by
  induction cells generalizing before with
  | nil => exact .stop
  | cons _ cells ih =>
    obtain ⟨here, rest⟩ := linked
    exact .visit here (ih rest)

theorem Linked.follows_prev (linked : Linked nodes none after cells) :
    Follows nodes Node.prev (lastOf none cells) (cells.map Prod.snd).reverse := by
  induction cells using reverseRecOn generalizing after with
  | nil => exact .stop
  | append_singleton cells _ ih =>
    obtain ⟨front, here, _⟩ := linked_append.mp linked
    rw [lastOf_concat, map_append, reverse_append]
    exact .visit here (ih front)

end Linked

section Edits

variable [DecidableEq Addr]

theorem Linked.assign {addr : Addr} (linked : Linked nodes before after cells)
    (outside : addr ∉ cells.map Prod.fst) (node : Option (Node Addr α)) :
    Linked (Function.update nodes addr node) before after cells := by
  apply linked.transport
  intro cell mem
  apply update_of_ne
  rintro rfl
  exact outside (mem_map_of_mem mem)

/-- Assign the `next` pointer of a node. -/
def setNext (nodes : Nodes Addr α) (addr : Addr) (next : Option Addr) : Option (Nodes Addr α) :=
  (nodes addr).map fun node => Function.update nodes addr (some { node with next := next })

/-- Assign the `prev` pointer of a node. -/
def setPrev (nodes : Nodes Addr α) (addr : Addr) (prev : Option Addr) : Option (Nodes Addr α) :=
  (nodes addr).map fun node => Function.update nodes addr (some { node with prev := prev })

theorem Linked.setPrev_first {cell : Addr × α} (linked : Linked nodes before after (cell :: cells))
    (nodup : ((cell :: cells).map Prod.fst).Nodup) (prev : Option Addr) :
    ∃ changed, setPrev nodes cell.1 prev = some changed ∧
      Linked changed prev after (cell :: cells) ∧ ∀ addr, addr ≠ cell.1 → changed addr = nodes addr := by
  obtain ⟨here, rest⟩ := linked
  exact ⟨_, by rw [setPrev, here, Option.map_some],
    ⟨update_self _ _ _, rest.assign (nodup_cons.mp nodup).1 _⟩, fun _ ne => update_of_ne ne _ _⟩

theorem Linked.setNext_last {cell : Addr × α} (linked : Linked nodes before after (cells ++ [cell]))
    (nodup : ((cells ++ [cell]).map Prod.fst).Nodup) (next : Option Addr) :
    ∃ changed, setNext nodes cell.1 next = some changed ∧
      Linked changed before next (cells ++ [cell]) ∧
      ∀ addr, addr ≠ cell.1 → changed addr = nodes addr := by
  obtain ⟨front, here, _⟩ := linked_append.mp linked
  refine ⟨_, by rw [setNext, here, Option.map_some], ?_, fun _ ne => update_of_ne ne _ _⟩
  rw [map_append, nodup_append] at nodup
  refine linked_append.mpr ⟨front.assign (fun mem => ?_) _, update_self _ _ _, trivial⟩
  exact nodup.2.2 cell.1 mem cell.1 (by simp) rfl

end Edits

end Micro.Lib
