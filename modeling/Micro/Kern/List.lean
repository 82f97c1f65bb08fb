import Mathlib.Data.Fintype.Fin
import Micro.Lib.Linked
import Micro.Lib.Run
import Micro.Kern.Types

/-!
# The kernel's linked lists

`struct list` and its nodes in memory.  A pointer is `none` for `NULL`; a call is `none`
where the source follows a null pointer or one to memory that holds no node, or does not
return.  The address `kmalloc` gives a new node is an argument of the call.
-/

namespace Micro.Kern

open Lib List Option Function

/-- An address of kernel memory. -/
abbrev Addr := Fin (2 ^ 64)

variable {before after : Option Addr} {new : Addr}

/-- `struct list` and the nodes in memory, those of other lists among them. -/
structure LinkedList (α : Type) where
  nodes : Nodes Addr α
  head : Option Addr
  tail : Option Addr
  size : Nat

namespace LinkedList

variable {α : Type}

def listCreate (nodes : Nodes Addr α) : LinkedList α := ⟨nodes, none, none, 0⟩

section

variable (self : LinkedList α)

/-- `if (node) node->next = target; else self->head = target;` -/
def linkNext (node target : Option Addr) : Option (LinkedList α) :=
  match node with
  | some addr => (setNext self.nodes addr target).map fun nodes => { self with nodes := nodes }
  | none => some { self with head := target }

/-- `if (node) node->prev = target; else self->tail = target;` -/
def linkPrev (node target : Option Addr) : Option (LinkedList α) :=
  match node with
  | some addr => (setPrev self.nodes addr target).map fun nodes => { self with nodes := nodes }
  | none => some { self with tail := target }

def kmallocNode (new : Addr) (node : Node Addr α) : LinkedList α :=
  { self with nodes := Function.update self.nodes new (some node) }

def kfreeNode (addr : Addr) : Option (LinkedList α × Option α) :=
  (self.nodes addr).map fun node =>
    ({ self with nodes := Function.update self.nodes addr none }, some node.data)

def listEnqueue (new : Addr) (data : α) : Option (LinkedList α × Option α) :=
  let self := self.kmallocNode new ⟨none, self.tail, data⟩
  (self.linkNext self.tail (some new)).map fun self =>
    ({ self with tail := some new, size := (self.size + 1) % 2 ^ 64 }, some data)

def listDequeue : Option (LinkedList α × Option α) :=
  match self.head with
  | none => some (self, none)
  | some old =>
      (self.nodes old).bind fun node =>
        let self := { self with head := node.next }
        (self.linkPrev self.head none).bind fun self =>
          { self with size := (self.size + (2 ^ 64 - 1)) % 2 ^ 64 }.kfreeNode old

def listPopBack : Option (LinkedList α × Option α) :=
  match self.tail with
  | none => some (self, none)
  | some old =>
      (self.nodes old).bind fun node =>
        let self := { self with tail := node.prev }
        (self.linkNext self.tail none).bind fun self =>
          { self with size := (self.size + (2 ^ 64 - 1)) % 2 ^ 64 }.kfreeNode old

end

/-- The loop of `list_clear`.  Dequeuing an empty list does not change its size, so that the
loop goes on for ever then. -/
def clearLoop : (fuel : Nat) → LinkedList α → Option (LinkedList α)
  | 0, _ => none
  | fuel + 1, self =>
      if self.size = 0 then some self
      else self.listDequeue.bind fun dequeued => clearLoop fuel dequeued.1

/-- `list_clear`; a round that does not count `size` down is repeated for ever -/
def listClear (self : LinkedList α) : Option (LinkedList α) := clearLoop (self.size + 1) self

/-- The node at a position, reached by following `next` from a pointer. -/
def nodeAt (nodes : Nodes Addr α) : (i : Nat) → Option Addr → Option (Option Addr)
  | 0, pointer => some pointer
  | i + 1, pointer => (pointer.bind nodes).bind fun node => nodeAt nodes i node.next

section

variable (self : LinkedList α)

/-- `_list_get_impl` with the dereference that follows it -/
def listGetImpl (i : Nat) : Option (Addr × Node Addr α) :=
  (nodeAt self.nodes i self.head).bind fun pointer =>
    pointer.bind fun addr => (self.nodes addr).map fun node => (addr, node)

def listSet (i : Nat) (data : α) : Option (LinkedList α × Option α) :=
  (self.listGetImpl i).map fun found =>
    (self.kmallocNode found.1 { found.2 with data := data }, some data)

def listRemove (i : Nat) : Option (LinkedList α × Option α) :=
  (self.listGetImpl i).bind fun found =>
    (self.linkPrev found.2.next found.2.prev).bind fun self =>
      (self.nodes found.1).bind fun lnode =>
        (self.linkNext lnode.prev lnode.next).bind fun self => self.kfreeNode found.1

def listInsertAfter (new : Addr) (i : UInt32) (data : α) : Option (LinkedList α × Option α) :=
  (self.listGetImpl i.toNat).bind fun found =>
    let self := self.kmallocNode new ⟨found.2.next, some found.1, data⟩
    (self.linkPrev found.2.next (some new)).bind fun self =>
      (self.linkNext (some found.1) (some new)).map fun self => (self, some data)

def listInsertBefore (new : Addr) (i : UInt32) (data : α) : Option (LinkedList α × Option α) :=
  (self.listGetImpl i.toNat).bind fun found =>
    let self := self.kmallocNode new ⟨some found.1, found.2.prev, data⟩
    (self.linkNext found.2.prev (some new)).bind fun self =>
      (self.linkPrev (some found.1) (some new)).map fun self => (self, some data)

end

/-! ## Shape -/

/-- The list is made of these nodes, in order. -/
structure Shape (list : LinkedList α) (cells : List (Addr × α)) : Prop where
  linked : Linked list.nodes none none cells
  head : list.head = firstOf none cells
  tail : list.tail = lastOf none cells
  nodup : (cells.map Prod.fst).Nodup
  nonnull : ∀ cell ∈ cells, cell.1 ≠ 0

theorem shape_create (nodes : Nodes Addr α) : Shape (listCreate nodes) [] :=
  ⟨trivial, rfl, rfl, nodup_nil, by simp⟩

section Links

variable {self : LinkedList α} {cells : List (Addr × α)}

theorem linkNext_spec (linked : Linked self.nodes none after cells) (isHead : self.head = firstOf after cells)
    (nodup : (cells.map Prod.fst).Nodup) (target : Option Addr) :
    ∃ changed, self.linkNext (lastOf none cells) target = some { self with
        nodes := changed, head := firstOf target cells } ∧
      Linked changed none target cells ∧
      ∀ addr, addr ∉ cells.map Prod.fst → changed addr = self.nodes addr := by
  cases cells using reverseRecOn with
  | nil => exact ⟨self.nodes, rfl, trivial, fun _ _ => rfl⟩
  | append_singleton cells cell =>
    obtain ⟨changed, isSet, linked', others⟩ := linked.setNext_last nodup target
    have sameHead : self.head = firstOf target (cells ++ [cell]) := by
      rw [isHead, firstOf_append, firstOf_append]
      rfl
    refine ⟨changed, ?_, linked', fun addr outside => others addr fun same => outside ?_⟩
    · rw [lastOf_concat, linkNext, isSet, map_some, ← sameHead]
    · simp [same]

theorem linkPrev_spec (linked : Linked self.nodes before none cells) (isTail : self.tail = lastOf before cells)
    (nodup : (cells.map Prod.fst).Nodup) (target : Option Addr) :
    ∃ changed, self.linkPrev (firstOf none cells) target = some { self with
        nodes := changed, tail := lastOf target cells } ∧
      Linked changed target none cells ∧
      ∀ addr, addr ∉ cells.map Prod.fst → changed addr = self.nodes addr := by
  cases cells with
  | nil => exact ⟨self.nodes, rfl, trivial, fun _ _ => rfl⟩
  | cons _ cells =>
    obtain ⟨changed, isSet, linked', others⟩ := linked.setPrev_first nodup target
    refine ⟨changed, ?_, linked', fun addr outside => others addr fun same => outside ?_⟩
    · rw [firstOf, linkPrev, isSet, map_some, lastOf, isTail, lastOf]
    · simp [same]

end Links

section Splice

variable {self : LinkedList α} {left right : List (Addr × α)}

theorem not_mem_of_nodup (nodup : ((left ++ right).map Prod.fst).Nodup) {cell : Addr × α}
    (mem : cell ∈ left) : cell.1 ∉ right.map Prod.fst := by
  rw [map_append, nodup_append] at nodup
  exact fun inRight => nodup.2.2 cell.1 (mem_map_of_mem mem) cell.1 inRight rfl

theorem Shape.halves (shape : Shape self (left ++ right)) :
    Linked self.nodes none (firstOf none right) left ∧
      Linked self.nodes (lastOf none left) none right ∧
      self.head = firstOf (firstOf none right) left ∧ self.tail = lastOf (lastOf none left) right := by
  obtain ⟨front, rear⟩ := linked_append.mp shape.linked
  exact ⟨front, rear, by rw [shape.head, firstOf_append], by rw [shape.tail, lastOf_append]⟩

theorem relink_spec (front : Linked self.nodes none after left)
    (rear : Linked self.nodes before none right) (isHead : self.head = firstOf after left)
    (isTail : self.tail = lastOf before right) (nodup : ((left ++ right).map Prod.fst).Nodup)
    (next prev : Option Addr) :
    ∃ nodes, (self.linkNext (lastOf none left) next).bind (fun self =>
        self.linkPrev (firstOf none right) prev) = some { self with
          nodes := nodes, head := firstOf next left, tail := lastOf prev right } ∧
      Linked nodes none next left ∧ Linked nodes prev none right ∧
      ∀ addr, addr ∉ (left ++ right).map Prod.fst → nodes addr = self.nodes addr := by
  have parts := nodup
  rw [map_append, nodup_append] at parts
  obtain ⟨nodes, isNext, front, sameNext⟩ := linkNext_spec front isHead parts.1 next
  have rear : Linked nodes before none right := by
    apply rear.transport
    exact fun cell mem => sameNext _ fun inLeft =>
      parts.2.2 cell.1 inLeft cell.1 (mem_map_of_mem mem) rfl
  obtain ⟨nodes', isPrev, rear, samePrev⟩ := @linkPrev_spec _ _ { self with
    nodes := nodes, head := firstOf next left } _ rear isTail parts.2.1 prev
  refine ⟨nodes', ?_, ?_, rear, fun addr outside => ?_⟩
  · rw [isNext, bind_some, isPrev]
  · apply front.transport
    exact fun cell mem => samePrev _ (not_mem_of_nodup nodup mem)
  · rw [map_append, mem_append, not_or] at outside
    exact (samePrev addr outside.2).trans (sameNext addr outside.1)

theorem Shape.insert (shape : Shape self (left ++ right)) (nonnull : new ≠ 0)
    (fresh : self.nodes new = none) (data : α) :
    ∃ changed : LinkedList α, changed.size = self.size ∧ Shape changed (left ++ (new, data) :: right) ∧
      ((self.kmallocNode new ⟨firstOf none right, lastOf none left, data⟩).linkNext (lastOf none left)
        (some new)).bind (fun self => self.linkPrev (firstOf none right) (some new)) = some changed := by
  obtain ⟨front, rear, isHead, isTail⟩ := shape.halves
  have isNew : new ∉ (left ++ right).map Prod.fst := by
    intro mem
    obtain ⟨cell, isCell, rfl⟩ := mem_map.mp mem
    obtain ⟨node, isNode⟩ := shape.linked.node isCell
    exact some_ne_none node (isNode.symm.trans fresh)
  have apart := isNew
  rw [map_append, mem_append, not_or] at apart
  obtain ⟨nodes, relinked, front, rear, others⟩ := @relink_spec _ _ _ (self.kmallocNode new
    ⟨firstOf none right, lastOf none left, data⟩) left right (front.assign apart.1 _)
    (rear.assign apart.2 _) isHead isTail shape.nodup (some new) (some new)
  refine ⟨{ self with nodes := nodes, head := firstOf (some new) left, tail := lastOf (some new) right },
    rfl, ⟨?_, ?_, ?_, ?_, ?_⟩, relinked⟩
  · refine linked_append.mpr ⟨front, ?_, rear⟩
    exact (others new isNew).trans (update_self _ _ _)
  · rw [firstOf_append]
    rfl
  · rw [lastOf_append]
    rfl
  · rw [map_append, map_cons, nodup_middle, ← map_append]
    exact nodup_cons.mpr ⟨isNew, shape.nodup⟩
  · have old := shape.nonnull
    simp only [forall_mem_append, forall_mem_cons] at old ⊢
    exact ⟨old.1, nonnull, old.2⟩

theorem Shape.unlink {cell : Addr × α} (shape : Shape self (left ++ cell :: right)) :
    self.nodes cell.1 = some ⟨firstOf none right, lastOf none left, cell.2⟩ ∧
    ∃ unlinked changed : LinkedList α, unlinked.size = self.size ∧ changed.size = self.size ∧
      Shape changed (left ++ right) ∧
      (self.linkNext (lastOf none left) (firstOf none right)).bind (fun self =>
        self.linkPrev (firstOf none right) (lastOf none left)) = some unlinked ∧
      unlinked.kfreeNode cell.1 = some (changed, some cell.2) := by
  obtain ⟨front, ⟨here, rear⟩, isHead, isTail⟩ := shape.halves
  refine ⟨here, ?_⟩
  have nodup := shape.nodup
  rw [map_append, map_cons, nodup_middle, ← map_append, nodup_cons] at nodup
  obtain ⟨nodes, relinked, front, rear, others⟩ := relink_spec front rear isHead isTail nodup.2
    (firstOf none right) (lastOf none left)
  have apart := nodup.1
  rw [map_append, mem_append, not_or] at apart
  let unlinked := { self with
    nodes := nodes, head := firstOf (firstOf none right) left, tail := lastOf (lastOf none left) right }
  refine ⟨unlinked, { unlinked with nodes := update nodes cell.1 none }, rfl, rfl, ?_, relinked, ?_⟩
  · refine ⟨?_, firstOf_append.symm, lastOf_append.symm, nodup.2, ?_⟩
    · exact linked_append.mpr ⟨front.assign apart.1 _, rear.assign apart.2 _⟩
    · have old := shape.nonnull
      simp only [forall_mem_append, forall_mem_cons] at old ⊢
      exact ⟨old.1, old.2.2⟩
  · have isNode : unlinked.nodes cell.1 = _ := (others _ nodup.1).trans here
    rw [kfreeNode, isNode, map_some]

theorem linkPrev_linkNext (self : LinkedList α) (node other next prev : Option Addr) :
    (self.linkPrev other prev).bind (fun self => self.linkNext node next) =
      (self.linkNext node next).bind fun self => self.linkPrev other prev := by
  cases node with
  | none =>
    cases other with
    | none => rfl
    | some addr' => simp [linkNext, linkPrev, map_eq_bind, Option.bind_assoc]
  | some addr =>
    cases other with
    | none => simp [linkNext, linkPrev, map_eq_bind, Option.bind_assoc]
    | some addr' =>
      simp only [linkNext, linkPrev, setNext, setPrev]
      by_cases same : addr' = addr
      · subst same
        cases isNode : self.nodes addr' with
        | none => simp
        | some node => simp
      · have ne : addr ≠ addr' := Ne.symm same
        cases isNode : self.nodes addr with
        | none =>
          cases isOther : self.nodes addr' with
          | none => simp
          | some node' => simp [isNode, update_of_ne ne]
        | some node =>
          cases isOther : self.nodes addr' with
          | none => simp [isOther, update_of_ne same]
          | some node' =>
            simp [isNode, isOther, update_of_ne ne, update_of_ne same, update_comm ne]

end Splice

/-! ## The calls -/

section Calls

variable {self : LinkedList α} {left right cells : List (Addr × α)} {addr : Addr} {cell : Addr × α}
  {changed : LinkedList α} {nodes : Nodes Addr α} {i : UInt32}

theorem Shape.resize (shape : Shape self cells) (size : Nat) : Shape { self with size := size } cells :=
  ⟨shape.linked, shape.head, shape.tail, shape.nodup, shape.nonnull⟩

theorem nodeAt_linked (linked : Linked nodes before after (left ++ cell :: right)) :
    nodeAt nodes left.length (firstOf after (left ++ cell :: right)) = some (some cell.1) := by
  induction left generalizing before with
  | nil => rfl
  | cons other left ih =>
    obtain ⟨here, rest⟩ := linked
    have step : nodeAt nodes (left.length + 1) (some other.1) =
        nodeAt nodes left.length (firstOf after (left ++ cell :: right)) := by
      simp only [nodeAt, bind_some, here]
      rfl
    exact step.trans (ih rest)

theorem Shape.listGetImpl (shape : Shape self (left ++ cell :: right)) :
    self.listGetImpl left.length =
      some (cell.1, ⟨firstOf none right, lastOf none left, cell.2⟩) := by
  rw [LinkedList.listGetImpl, shape.head, nodeAt_linked shape.linked, bind_some, bind_some,
    shape.unlink.1, map_some]

/-- There is a node at the position. -/
def InList (self : LinkedList α) (i : Nat) : Prop :=
  ∃ addr, nodeAt self.nodes i self.head = some (some addr)

theorem lt_of_nodeAt {i : Nat} (linked : Linked nodes before none cells)
    (found : nodeAt nodes i (firstOf none cells) = some (some addr)) : i < cells.length := by
  induction cells generalizing i before with
  | nil =>
    cases i with
    | zero => cases found
    | succ i => cases found
  | cons _ cells ih =>
    obtain ⟨here, rest⟩ := linked
    cases i with
    | zero => exact Nat.zero_lt_succ _
    | succ i =>
      simp only [firstOf, nodeAt, bind_some, here] at found
      exact Nat.succ_lt_succ (ih rest found)

theorem Shape.split (shape : Shape self cells) {i : Nat} (inList : InList self i) :
    ∃ left cell right, cells = left ++ cell :: right ∧ left.length = i := by
  obtain ⟨_, found⟩ := inList
  rw [shape.head] at found
  have inside := lt_of_nodeAt shape.linked found
  refine ⟨cells.take i, cells[i], cells.drop (i + 1), ?_, ?_⟩
  · rw [getElem_cons_drop, take_append_drop]
  · rw [length_take]
    exact Nat.min_eq_left (Nat.le_of_lt inside)

theorem Shape.listEnqueue (shape : Shape self cells) (nonnull : new ≠ 0)
    (fresh : self.nodes new = none) (data : α) :
    ∃ changed, self.listEnqueue new data = some (changed, some data) ∧
      Shape changed (cells ++ [(new, data)]) ∧ changed.size = (self.size + 1) % 2 ^ 64 := by
  rw [← append_nil cells] at shape
  obtain ⟨changed, sameSize, shape', linked⟩ := shape.insert nonnull fresh data
  obtain ⟨middle, isMiddle, isChanged⟩ := bind_eq_some_iff.mp linked
  obtain rfl := some.inj isChanged
  have isTail := shape.tail
  rw [append_nil] at isTail
  refine ⟨_, ?_, shape'.resize ((middle.size + 1) % 2 ^ 64), ?_⟩
  · simp only [LinkedList.listEnqueue, isTail]
    have sameTail : (self.kmallocNode new ⟨none, lastOf none cells, data⟩).tail = lastOf none cells := isTail
    rw [sameTail]
    have found : (self.kmallocNode new ⟨none, lastOf none cells, data⟩).linkNext (lastOf none cells)
        (some new) = some middle := isMiddle
    rw [found]
    rfl
  · have same : middle.size = self.size := sameSize
    rw [same]

theorem kfreeNode_resize {data : Option α} (freed : self.kfreeNode addr = some (changed, data))
    (size : Nat) :
    { self with size := size }.kfreeNode addr = some ({ changed with size := size }, data) := by
  obtain ⟨_, isNode, isFreed⟩ := map_eq_some_iff.mp freed
  obtain ⟨rfl, rfl⟩ := Prod.mk.inj isFreed
  simp only [kfreeNode, isNode, map_some]

theorem Shape.listDequeue (shape : Shape self (cell :: cells)) :
    ∃ changed, self.listDequeue = some (changed, some cell.2) ∧ Shape changed cells ∧
      changed.size = (self.size + (2 ^ 64 - 1)) % 2 ^ 64 := by
  obtain ⟨here, unlinked, changed, sameSize, _, shape', relinked, freed⟩ :=
    @Shape.unlink _ self [] cells cell shape
  have relinked : { self with head := firstOf none cells }.linkPrev (firstOf none cells) none =
      some unlinked := relinked
  refine ⟨_, ?_, shape'.resize ((unlinked.size + (2 ^ 64 - 1)) % 2 ^ 64), by rw [sameSize]⟩
  have isHead : self.head = some cell.1 := shape.head
  simp only [LinkedList.listDequeue, isHead, here, bind_some, relinked]
  exact kfreeNode_resize freed _

theorem Shape.listPopBack (shape : Shape self (cells ++ [cell])) :
    ∃ changed, self.listPopBack = some (changed, some cell.2) ∧ Shape changed cells ∧
      changed.size = (self.size + (2 ^ 64 - 1)) % 2 ^ 64 := by
  obtain ⟨here, unlinked, changed, sameSize, _, shape', relinked, freed⟩ := shape.unlink
  rw [← linkPrev_linkNext] at relinked
  have relinked : { self with tail := lastOf none cells }.linkNext (lastOf none cells) none =
      some unlinked := relinked
  rw [append_nil] at shape'
  refine ⟨_, ?_, shape'.resize ((unlinked.size + (2 ^ 64 - 1)) % 2 ^ 64), by rw [sameSize]⟩
  simp only [LinkedList.listPopBack, shape.tail, lastOf_concat, here, bind_some, relinked]
  exact kfreeNode_resize freed _

theorem linkPrev_nodes {target : Option Addr}
    (relinked : self.linkPrev (firstOf none right) target = some changed)
    (outside : addr ∉ right.map Prod.fst) : changed.nodes addr = self.nodes addr := by
  cases right with
  | nil =>
    obtain rfl := some.inj relinked
    rfl
  | cons _ right =>
    obtain ⟨nodes, isSet, rfl⟩ := map_eq_some_iff.mp relinked
    obtain ⟨_, _, rfl⟩ := map_eq_some_iff.mp isSet
    exact update_of_ne (fun same => outside (by simp [same])) _ _

section

variable (shape : Shape self (left ++ cell :: right))
include shape

theorem Shape.listRemove :
    ∃ changed, self.listRemove left.length = some (changed, some cell.2) ∧
      Shape changed (left ++ right) ∧ changed.size = self.size := by
  obtain ⟨here, _, changed, _, sameSize, shape', relinked, freed⟩ := shape.unlink
  refine ⟨changed, ?_, shape', sameSize⟩
  rw [← linkPrev_linkNext] at relinked
  obtain ⟨middle, isMiddle, isUnlinked⟩ := bind_eq_some_iff.mp relinked
  have same : middle.nodes cell.1 = self.nodes cell.1 := by
    apply linkPrev_nodes isMiddle
    have nodup := shape.nodup
    rw [map_append, nodup_append, map_cons, nodup_cons] at nodup
    exact nodup.2.1.1
  rw [LinkedList.listRemove, shape.listGetImpl, bind_some, isMiddle, bind_some, same, here,
    bind_some, isUnlinked, bind_some, freed]

section

variable (nonnull : new ≠ 0) (fresh : self.nodes new = none) (isIndex : left.length = i.toNat)
  (data : α)
include nonnull fresh isIndex data

theorem Shape.listInsertAfter :
    ∃ changed, self.listInsertAfter new i data = some (changed, some data) ∧
      Shape changed (left ++ cell :: (new, data) :: right) ∧ changed.size = self.size := by
  have found := shape.listGetImpl
  rw [append_cons] at shape
  obtain ⟨changed, sameSize, shape', linked⟩ := shape.insert nonnull fresh data
  rw [← linkPrev_linkNext, lastOf_concat] at linked
  rw [← append_cons] at shape'
  refine ⟨changed, ?_, shape', sameSize⟩
  obtain ⟨_, isMiddle, isChanged⟩ := bind_eq_some_iff.mp linked
  simp only [LinkedList.listInsertAfter, ← isIndex, found, bind_some]
  rw [isMiddle, bind_some, isChanged, map_some]

theorem Shape.listInsertBefore :
    ∃ changed, self.listInsertBefore new i data = some (changed, some data) ∧
      Shape changed (left ++ (new, data) :: cell :: right) ∧ changed.size = self.size := by
  obtain ⟨changed, sameSize, shape', linked⟩ := shape.insert nonnull fresh data
  refine ⟨changed, ?_, shape', sameSize⟩
  obtain ⟨middle, isMiddle, isChanged⟩ := bind_eq_some_iff.mp linked
  have isChanged : middle.linkPrev (some cell.1) (some new) = some changed := isChanged
  have isMiddle : (self.kmallocNode new ⟨some cell.1, lastOf none left, data⟩).linkNext
      (lastOf none left) (some new) = some middle := isMiddle
  simp only [LinkedList.listInsertBefore, ← isIndex, shape.listGetImpl, bind_some]
  rw [isMiddle, bind_some, isChanged, map_some]

end

theorem Shape.listSet (data : α) :
    ∃ changed, self.listSet left.length data = some (changed, some data) ∧
      Shape changed (left ++ (cell.1, data) :: right) ∧ changed.size = self.size := by
  obtain ⟨front, rear, isHead, isTail⟩ := shape.halves
  have nodup := shape.nodup
  rw [map_append, map_cons, nodup_middle, ← map_append, nodup_cons] at nodup
  have apart := nodup.1
  rw [map_append, mem_append, not_or] at apart
  refine ⟨self.kmallocNode cell.1 ⟨firstOf none right, lastOf none left, data⟩, ?_, ?_, rfl⟩
  · rw [LinkedList.listSet, shape.listGetImpl, map_some]
  refine ⟨?_, ?_, ?_, ?_, ?_⟩
  · exact linked_append.mpr
      ⟨front.assign apart.1 _, update_self _ _ _, rear.2.assign apart.2 _⟩
  · rw [firstOf_append]
    exact isHead
  · rw [lastOf_append]
    exact isTail
  · have old := shape.nodup
    simp only [map_append] at old ⊢
    exact old
  · have old := shape.nonnull
    simp only [forall_mem_append, forall_mem_cons] at old ⊢
    exact old

end

variable (shape : Shape self cells)
include shape

theorem Shape.length_lt : cells.length < 2 ^ 64 := by
  have nodup : (0 :: cells.map Prod.fst).Nodup := by
    refine nodup_cons.mpr ⟨fun mem => ?_, shape.nodup⟩
    obtain ⟨cell, isCell, isNull⟩ := mem_map.mp mem
    exact shape.nonnull cell isCell isNull
  have bound := nodup.length_le_card
  rw [Fintype.card_fin, length_cons, length_map] at bound
  exact bound

theorem clearLoop_le (le : self.size ≤ cells.length) :
    ∃ changed, clearLoop (self.size + 1) self = some changed ∧
      Shape changed (cells.drop self.size) ∧ changed.size = 0 := by
  induction cells generalizing self with
  | nil =>
    have empty : self.size = 0 := Nat.le_zero.mp le
    exact ⟨self, by rw [clearLoop, if_pos empty], by simpa using shape, empty⟩
  | cons _ cells ih =>
    have small := shape.length_lt
    rw [length_cons] at le small
    cases isSize : self.size with
    | zero => exact ⟨self, by rw [clearLoop, if_pos isSize], by simpa using shape, isSize⟩
    | succ size =>
      obtain ⟨next, dequeued, shape', nextSize⟩ := shape.listDequeue
      have nextSize : next.size = size := by omega
      obtain ⟨changed, cleared, shapeLast, empty⟩ := ih shape' (by omega)
      rw [nextSize] at cleared shapeLast
      refine ⟨changed, ?_, shapeLast, empty⟩
      rw [clearLoop, if_neg (by omega), dequeued]
      exact cleared

/-- The loop of `list_clear` does not end when `size` exceeds the number of nodes. -/
theorem clearLoop_gt {fuel : Nat} (more : cells.length < self.size) (small : self.size < 2 ^ 64) :
    clearLoop fuel self = none := by
  induction fuel generalizing cells self with
  | zero => rfl
  | succ fuel ih =>
    rw [clearLoop, if_neg (by omega)]
    cases cells with
    | nil =>
      have isHead : self.head = none := shape.head
      simp only [LinkedList.listDequeue, isHead]
      exact ih shape more small
    | cons _ cells =>
      obtain ⟨_, dequeued, shape', _⟩ := shape.listDequeue
      rw [length_cons] at more
      rw [dequeued]
      exact ih shape' (by simp only; omega) (by simp only; omega)

end Calls

/-! ## Sequences of calls -/

variable {self : LinkedList α} {cells : List (Addr × α)}

inductive Call (α : Type) where
  | enqueue (new : Addr) (data : α)
  | dequeue
  | popBack
  | set (i : Nat) (data : α)
  | insertBefore (new : Addr) (i : UInt32) (data : α)
  | insertAfter (new : Addr) (i : UInt32) (data : α)
  | remove (i : Nat)
  | clear

variable {request : Call α}

/-- Execute one call: the list afterwards and what is returned. -/
def call (self : LinkedList α) : Call α → Option (LinkedList α × Option α)
  | .enqueue new data => self.listEnqueue new data
  | .dequeue => self.listDequeue
  | .popBack => self.listPopBack
  | .set i data => self.listSet i data
  | .insertBefore new i data => self.listInsertBefore new i data
  | .insertAfter new i data => self.listInsertAfter new i data
  | .remove i => self.listRemove i
  | .clear => self.listClear.map fun cleared => (cleared, none)

/-- `kmalloc` gives memory that holds no node, and positions are those of nodes. -/
def Valid (self : LinkedList α) : Call α → Prop
  | .enqueue new _ => new ≠ 0 ∧ self.nodes new = none
  | .insertBefore new i _ => (new ≠ 0 ∧ self.nodes new = none) ∧ InList self i.toNat
  | .insertAfter new i _ => (new ≠ 0 ∧ self.nodes new = none) ∧ InList self i.toNat
  | .set i _ => InList self i
  | .remove i => InList self i
  | _ => True

/-- What the calls do to a sequence, and return. -/
def Call.apply (items : List α) : Call α → List α × Option α
  | .enqueue _ data => (items ++ [data], some data)
  | .dequeue => (items.tail, items.head?)
  | .popBack => (items.dropLast, items.getLast?)
  | .set i data => (items.set i data, some data)
  | .insertBefore _ i data => (items.insertIdx i.toNat data, some data)
  | .insertAfter _ i data => (items.insertIdx (i.toNat + 1) data, some data)
  | .remove i => (items.eraseIdx i, items[i]?)
  | .clear => ([], none)

def Call.count (size nodes : Nat) : Call α → Nat
  | .enqueue _ _ => (size + 1) % 2 ^ 64
  | .dequeue => if nodes = 0 then size else (size + (2 ^ 64 - 1)) % 2 ^ 64
  | .popBack => if nodes = 0 then size else (size + (2 ^ 64 - 1)) % 2 ^ 64
  | _ => size

/-- Every call but `list_clear` does to the nodes what it does to the sequence. -/
theorem call_spec (shape : Shape self cells) (valid : Valid self request)
    (notClear : request ≠ .clear) :
    ∃ changed cells', self.call request =
        some (changed, (request.apply (cells.map Prod.snd)).2) ∧
      Shape changed cells' ∧ cells'.map Prod.snd = (request.apply (cells.map Prod.snd)).1 ∧
      changed.size = request.count self.size cells.length := by
  cases request with
  | enqueue new data =>
    obtain ⟨changed, done, shape', size⟩ := shape.listEnqueue valid.1 valid.2 data
    exact ⟨changed, _, done, shape', by simp [Call.apply], size⟩
  | dequeue =>
    cases cells with
    | nil =>
      have isHead : self.head = none := shape.head
      refine ⟨self, [], ?_, shape, by simp [Call.apply], by simp [Call.count]⟩
      simp [call, listDequeue, isHead, Call.apply]
    | cons cell cells =>
      obtain ⟨changed, done, shape', size⟩ := shape.listDequeue
      refine ⟨changed, cells, ?_, shape', by simp [Call.apply], by simpa [Call.count] using size⟩
      simpa [call, Call.apply] using done
  | popBack =>
    cases cells using reverseRecOn with
    | nil =>
      have isTail : self.tail = none := shape.tail
      refine ⟨self, [], ?_, shape, by simp [Call.apply], by simp [Call.count]⟩
      simp [call, listPopBack, isTail, Call.apply]
    | append_singleton cells cell =>
      obtain ⟨changed, done, shape', size⟩ := shape.listPopBack
      refine ⟨changed, cells, ?_, shape', by simp [Call.apply], by simpa [Call.count] using size⟩
      simpa [call, Call.apply] using done
  | set i data =>
    obtain ⟨left, cell, right, rfl, rfl⟩ := shape.split valid
    obtain ⟨changed, done, shape', size⟩ := shape.listSet data
    refine ⟨changed, _, done, shape', ?_, size⟩
    simp [Call.apply]
  | insertBefore new i data =>
    obtain ⟨left, cell, right, rfl, isIndex⟩ := shape.split valid.2
    obtain ⟨changed, done, shape', size⟩ := shape.listInsertBefore valid.1.1 valid.1.2 isIndex data
    refine ⟨changed, _, done, shape', ?_, size⟩
    have inserted := KList.insertIdx_append (left.map Prod.snd) ((cell :: right).map Prod.snd) data
    rw [length_map, isIndex] at inserted
    simpa [Call.apply] using inserted.symm
  | insertAfter new i data =>
    obtain ⟨left, cell, right, rfl, isIndex⟩ := shape.split valid.2
    obtain ⟨changed, done, shape', size⟩ := shape.listInsertAfter valid.1.1 valid.1.2 isIndex data
    refine ⟨changed, _, done, shape', ?_, size⟩
    have inserted := KList.insertIdx_append ((left ++ [cell]).map Prod.snd) (right.map Prod.snd) data
    rw [length_map, length_append, isIndex] at inserted
    simpa [Call.apply] using inserted.symm
  | remove i =>
    obtain ⟨left, cell, right, rfl, rfl⟩ := shape.split valid
    obtain ⟨changed, done, shape', size⟩ := shape.listRemove
    refine ⟨changed, _, ?_, shape', ?_, size⟩
    · simpa [call, Call.apply] using done
    · simp [Call.apply, eraseIdx_append_of_length_le]
  | clear => exact absurd rfl notClear

/-! ## The calls as operations on a sequence -/

/-- The list as a sequence: what following the pointers from either end visits. -/
structure Holds (list : LinkedList α) (items : List α) : Prop where
  forward : Follows list.nodes Node.next list.head items
  backward : Follows list.nodes Node.prev list.tail items.reverse
  head : list.head = none ↔ items = []
  tail : list.tail = none ↔ items = []

theorem Shape.holds (shape : Shape self cells) : Holds self (cells.map Prod.snd) where
  forward := by
    rw [shape.head]
    exact shape.linked.follows_next
  backward := by
    rw [shape.tail]
    exact shape.linked.follows_prev
  head := by rw [shape.head, firstOf_eq_none, map_eq_nil_iff]
  tail := by rw [shape.tail, lastOf_eq_none, map_eq_nil_iff]

/-- A call, with the values returned so far. -/
def step (state : LinkedList α × List (Option α)) (request : Call α) :
    Option (LinkedList α × List (Option α)) :=
  (state.1.call request).map fun done => (done.1, state.2 ++ [done.2])

/-- A call on a sequence, with the values returned so far. -/
def specStep (state : List α × List (Option α)) (request : Call α) : List α × List (Option α) :=
  ((request.apply state.1).1, state.2 ++ [(request.apply state.1).2])

/-- A call at a valid position, other than `list_clear`. -/
def Linking (state : LinkedList α × List (Option α)) (request : Call α) : Prop :=
  Valid state.1 request ∧ request ≠ .clear

/-- From `list_create` on, the calls at valid positions act on the list as the operations on
sequences do, and return what they return. -/
theorem calls_refine_sequence (nodes : Nodes Addr α) (calls : List (Call α))
    (linking : Permitted step Linking (listCreate nodes, []) calls) :
    ∃ final returned, drive step (listCreate nodes, []) calls = some (final, returned) ∧
      Holds final (calls.foldl specStep ([], [])).1 ∧
      returned = (calls.foldl specStep ([], [])).2 := by
  have simulated : ∀ (state : LinkedList α × List (Option α)) (spec : List α × List (Option α))
      (request : Call α),
      (∃ cells, Shape state.1 cells ∧ spec = (cells.map Prod.snd, state.2)) →
      Linking state request → ∃ next nextSpec, step state request = some next ∧
        some (specStep spec request) = some nextSpec ∧
        ∃ cells, Shape next.1 cells ∧ nextSpec = (cells.map Prod.snd, next.2) := by
    intro state spec request related linking
    obtain ⟨cells, shape, rfl⟩ := related
    obtain ⟨changed, cells', done, shape', items, -⟩ := call_spec shape linking.1 linking.2
    refine ⟨(changed, state.2 ++ [(request.apply (cells.map Prod.snd)).2]), _, ?_, rfl, cells',
      shape', ?_⟩
    · simp only [step, done, map_some]
    · simp only [specStep, items]
  obtain ⟨final, spec, driven, drivenSpec, cells, shape, isSpec⟩ :=
    drive_simulates simulated calls _ ([], []) ⟨[], shape_create nodes, rfl⟩ linking
  rw [drive_some, some.injEq] at drivenSpec
  rw [drivenSpec, isSpec]
  exact ⟨final.1, final.2, driven, shape.holds, rfl⟩

/-- Two elements are enqueued, a third is put between them, and the first is removed. -/
theorem calls_refine_sequence_four :
    ∃ final returned, drive step (listCreate fun _ => none, [])
        [.enqueue 1 'a', .enqueue 2 'c', .insertBefore 3 1 'b', .remove 0] =
          some (final, returned) ∧
      Holds final ['b', 'c'] ∧ returned = [some 'a', some 'c', some 'b', some 'a'] := by
  refine calls_refine_sequence (fun _ => none) _ ⟨⟨⟨by decide, rfl⟩, nofun⟩, ?_⟩
  intro _ isOne
  cases isOne
  refine ⟨⟨⟨by decide, by decide⟩, nofun⟩, ?_⟩
  intro _ isTwo
  cases isTwo
  refine ⟨⟨⟨⟨by decide, by decide⟩, ?_⟩, nofun⟩, ?_⟩
  · exact ⟨2, by decide⟩
  intro _ isThree
  cases isThree
  refine ⟨⟨⟨1, by decide⟩, nofun⟩, ?_⟩
  exact fun _ _ => trivial

/-! ## The lists of the other modules -/

variable {list : KList α}

/-- The nodes and the `size` of a list are those of the sequence that stands for it elsewhere. -/
def Represents (self : LinkedList α) (list : KList α) : Prop :=
  ∃ cells, Shape self cells ∧ list = ⟨cells.map Prod.snd, self.size⟩

section

variable (represents : Represents self list)
include represents

/-- Every call but `list_clear` does to both what it does to the sequence and its size; for
`KList.enqueue`, `KList.remove` and `KList.insertBefore` this is what they are. -/
theorem Represents.call (valid : Valid self request) (notClear : request ≠ .clear) :
    ∃ changed, (self.call request).map Prod.fst = some changed ∧ Represents changed
      ⟨(request.apply list.items).1, request.count list.size list.items.length⟩ := by
  obtain ⟨_, shape, rfl⟩ := represents
  obtain ⟨changed, cells', done, shape', items, size⟩ := call_spec shape valid notClear
  refine ⟨changed, congrArg (Option.map Prod.fst) done, cells', shape', ?_⟩
  rw [items, size, length_map]

/-- `KList.clear` is `list_clear`, and `none` where its loop does not end. -/
theorem represents_clear (small : self.size < 2 ^ 64) : match list.clear with
    | some kept => ∃ cleared, self.listClear = some cleared ∧ Represents cleared kept
    | none => ∀ fuel, clearLoop fuel self = none := by
  obtain ⟨cells, shape, rfl⟩ := represents
  unfold KList.clear
  by_cases enough : self.size ≤ cells.length
  · rw [if_pos (by simpa using enough)]
    obtain ⟨cleared, done, shape', zero⟩ := clearLoop_le shape enough
    exact ⟨cleared, done, _, shape', by rw [zero, map_drop]⟩
  · rw [if_neg (by simpa using enough)]
    exact fun fuel => clearLoop_gt shape (Nat.lt_of_not_le enough) small

end

def twoNodes (size : Nat) : LinkedList Char where
  nodes := fun addr =>
    if addr = 1 then some ⟨some 2, none, 'a'⟩
    else if addr = 2 then some ⟨none, some 1, 'b'⟩ else none
  head := some 1
  tail := some 2
  size := size

/-- One of the nodes is counted, or one more than there are. -/
theorem represents_clear_two :
    (∃ cleared, (twoNodes 1).listClear = some cleared ∧ Represents cleared ⟨['b'], 0⟩) ∧
      ∀ fuel, clearLoop fuel (twoNodes 3) = none := by
  have represents : ∀ size, Represents (twoNodes size) ⟨['a', 'b'], size⟩ :=
    fun _ => ⟨[(1, 'a'), (2, 'b')], ⟨⟨rfl, rfl, trivial⟩, rfl, rfl, by decide, by decide⟩, rfl⟩
  exact ⟨represents_clear (represents 1) (by decide), represents_clear (represents 3) (by decide)⟩

/-! ## The size of a list -/

/-- The calls that count the nodes they add or take. -/
def Call.Counted : Call α → Prop
  | .insertBefore _ _ _ => False
  | .insertAfter _ _ _ => False
  | .remove _ => False
  | _ => True

/-- On a list whose `size` is the number of its nodes, the counted calls are the ones after
which it still is. -/
theorem count_eq_length_iff {cells' : List (Addr × α)} (shape : Shape self cells)
    (valid : Valid self request) (notClear : request ≠ .clear) (small : cells'.length < 2 ^ 64)
    (items : cells'.map Prod.snd = (request.apply (cells.map Prod.snd)).1) :
    request.count cells.length cells.length = cells'.length ↔ request.Counted := by
  have length := congrArg length items
  rw [length_map] at length
  cases request with
  | enqueue new data =>
    simp only [Call.apply, length_append, length_map, length_singleton] at length
    simp only [Call.count, Call.Counted, iff_true]
    omega
  | dequeue =>
    simp only [Call.apply, length_tail, length_map] at length
    simp only [Call.count, Call.Counted, iff_true]
    split <;> omega
  | popBack =>
    simp only [Call.apply, length_dropLast, length_map] at length
    simp only [Call.count, Call.Counted, iff_true]
    split <;> omega
  | set i data =>
    simp only [Call.apply, length_set, length_map] at length
    simp only [Call.Counted, iff_true]
    exact length.symm
  | insertBefore new i data =>
    obtain ⟨left, cell, right, rfl, isIndex⟩ := shape.split valid.2
    rw [Call.apply, length_insertIdx_of_le_length (by simp; omega), length_map] at length
    simp only [Call.count, Call.Counted, iff_false]
    omega
  | insertAfter new i data =>
    obtain ⟨left, cell, right, rfl, isIndex⟩ := shape.split valid.2
    rw [Call.apply, length_insertIdx_of_le_length (by simp; omega), length_map] at length
    simp only [Call.count, Call.Counted, iff_false]
    omega
  | remove i =>
    obtain ⟨left, cell, right, rfl, isIndex⟩ := shape.split valid
    rw [Call.apply, length_eraseIdx_of_lt (by simp; omega), length_map] at length
    simp only [Call.count, Call.Counted, iff_false]
    rw [length_append, length_cons] at length ⊢
    omega
  | clear => exact absurd rfl notClear

/-- A list made of as many nodes as its `size` says. -/
def Sized (self : LinkedList α) : Prop := ∃ cells, Shape self cells ∧ self.size = cells.length

theorem Sized.listClear (sized : Sized self) :
    ∃ cleared, self.listClear = some cleared ∧ Shape cleared [] ∧ cleared.size = 0 := by
  obtain ⟨_, shape, size⟩ := sized
  obtain ⟨cleared, done, empty, zero⟩ := clearLoop_le shape size.le
  rw [size, drop_length] at empty
  exact ⟨cleared, done, empty, zero⟩

theorem Sized.call {self : LinkedList α} (sized : Sized self) {request : Call α}
    (valid : Valid self request) (counted : request.Counted) :
    ∃ changed, (self.call request).map Prod.fst = some changed ∧ Sized changed := by
  by_cases isClear : request = .clear
  · obtain ⟨cleared, done, empty, zero⟩ := sized.listClear
    subst isClear
    refine ⟨cleared, ?_, [], empty, zero⟩
    simp only [LinkedList.call, done, map_some]
  · obtain ⟨_, shape, size⟩ := sized
    obtain ⟨changed, cells', done, shape', items, count⟩ := call_spec shape valid isClear
    refine ⟨changed, by rw [done, map_some], cells', shape', ?_⟩
    rw [count, size]
    exact (count_eq_length_iff shape valid isClear shape'.length_lt items).mpr counted

/-- In every run from `list_create` of calls at valid positions in which nothing is removed
from or inserted into the middle, `size` is the number of nodes reached from `head`, and
`list_clear` returns with an empty list. -/
theorem counted_calls_keep_size (nodes : Nodes Addr α) (calls : List (Call α))
    (permitted : Permitted (fun self request => (call self request).map Prod.fst)
      (fun self request => Valid self request ∧ request.Counted) (listCreate nodes) calls) :
    ∃ final, drive (fun self request => (call self request).map Prod.fst) (listCreate nodes)
        calls = some final ∧
      (∃ items, Follows final.nodes Node.next final.head items ∧ final.size = items.length) ∧
      ∃ cleared, final.listClear = some cleared ∧ Holds cleared [] ∧ cleared.size = 0 := by
  obtain ⟨final, driven, sized⟩ := drive_total
    (fun self request (sized : Sized self) valid => sized.call valid.1 valid.2)
    calls (listCreate nodes) ⟨[], shape_create nodes, rfl⟩ permitted
  obtain ⟨cleared, done, empty, zero⟩ := sized.listClear
  obtain ⟨cells, shape, size⟩ := sized
  refine ⟨final, driven, ⟨cells.map Prod.snd, shape.holds.forward, ?_⟩, cleared, done, empty.holds,
    zero⟩
  rw [size, length_map]

/-- Two elements are enqueued and the first is dequeued. -/
theorem counted_calls_keep_size_three :
    ∃ final, drive (fun self request => (call self request).map Prod.fst)
        (listCreate fun _ => none) [.enqueue 1 'a', .enqueue 2 'b', .dequeue] = some final ∧
      (∃ items, Follows final.nodes Node.next final.head items ∧ final.size = items.length) ∧
      ∃ cleared, final.listClear = some cleared ∧ Holds cleared [] ∧ cleared.size = 0 := by
  refine counted_calls_keep_size (fun _ => none) _ ⟨⟨⟨by decide, rfl⟩, trivial⟩, ?_⟩
  intro _ isOne
  cases isOne
  refine ⟨⟨⟨by decide, by decide⟩, trivial⟩, ?_⟩
  exact fun _ _ => ⟨⟨trivial, trivial⟩, fun _ _ => trivial⟩

/-- One element is enqueued and removed: no node is reached from `head`, `size` is one, and the
loop of `list_clear` does not end. -/
theorem remove_keeps_size :
    ∃ final, drive (fun self request => (call self request).map Prod.fst)
        (listCreate fun _ => none) [.enqueue 1 'a', .remove 0] = some final ∧
      Valid (listCreate fun _ => none) (.enqueue 1 'a') ∧
      (∀ one, (call (listCreate fun _ => none) (.enqueue 1 'a')).map Prod.fst = some one →
        Valid one (.remove 0)) ∧
      final.head = none ∧ final.size = 1 ∧ ∀ fuel, clearLoop fuel final = none := by
  refine ⟨_, rfl, ⟨by decide, rfl⟩, ?_, rfl, rfl, fun fuel => ?_⟩
  · intro one isOne
    cases isOne
    exact ⟨1, by decide⟩
  · apply clearLoop_gt ((shape_create _).resize 1)
    · exact Nat.zero_lt_one
    · decide

end LinkedList

end Micro.Kern
