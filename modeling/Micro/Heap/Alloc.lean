import Mathlib.Data.List.Basic
import Micro.Heap.Edits

/-!
# Allocation and release on cells

`allocate` and `release` say what `kmalloc` and `kfree` do to the cell list:
first fit with the remainder cut off, and merging with a free neighbour on
either side.  The refinement theorems at the end connect them to the pointer
code, for any heap whose sizes are multiples of 32.
-/

namespace Micro.Heap

open Lib List Option

variable {cell : Cell} {after before cells cells' : List Cell} {n offset : Nat}

/-- First fit.  The result is the offset of the chosen header from the first
cell and the cell list afterwards. -/
def allocate (n : Nat) : List Cell → Option (Nat × List Cell)
  | [] => none
  | cell :: cells =>
      if cell.used = false ∧ n < cell.size then
        some (0, { size := n, used := true } ::
          { size := cell.size - n - 32, used := false } :: cells)
      else if cell.used = false ∧ cell.size = n then
        some (0, { cell with used := true } :: cells)
      else
        (allocate n cells).map fun result =>
          (32 + cell.size + result.1, cell :: result.2)

/-- Join a free cell with the cell behind it if that one is free too. -/
def mergeNext (cell : Cell) : List Cell → List Cell
  | [] => [cell]
  | next :: rest =>
      if next.used = false then
        { cell with size := cell.size + next.size + 32 } :: rest
      else
        cell :: next :: rest

/-- Join a free cell with the cell in front of it if that one is free too. -/
def mergePrev (before : List Cell) (cell : Cell) : List Cell × Cell :=
  match before.getLast? with
  | none => (before, cell)
  | some previous =>
      if previous.used = false then
        (before.dropLast, { previous with size := previous.size + cell.size + 32 })
      else
        (before, cell)

/-- Free a cell standing between `before` and `after`. -/
def release (before : List Cell) (cell : Cell) (after : List Cell) : List Cell :=
  let merged := mergePrev before { cell with used := false }
  merged.1 ++ mergeNext merged.2 after

/-- Payload pointers of the cells in use, in address order. -/
def usedAt (address : Nat) : List Cell → List Nat
  | [] => []
  | cell :: cells =>
      if cell.used = true then
        (address + 32) :: usedAt (address + 32 + cell.size) cells
      else
        usedAt (address + 32 + cell.size) cells

/-- Payload pointers and sizes of the cells in use, in address order. -/
def payloads (address : Nat) : List Cell → List (Nat × Nat)
  | [] => []
  | cell :: cells =>
      if cell.used = true then
        (address + 32, cell.size) :: payloads (address + 32 + cell.size) cells
      else
        payloads (address + 32 + cell.size) cells

/-- Every size is a multiple of 32. -/
def Aligned (cells : List Cell) : Prop :=
  ∀ cell ∈ cells, cell.size % 32 = 0

theorem usedAt_eq (address : Nat) (cells : List Cell) :
    usedAt address cells = (payloads address cells).map Prod.fst := by
  induction cells generalizing address with
  | nil => rfl
  | cons cell cells ih =>
    cases used : cell.used <;> simp [usedAt, payloads, used, ih]

theorem payloads_append (address : Nat) (left right : List Cell) :
    payloads address (left ++ right) =
      payloads address left ++ payloads (address + span left) right := by
  induction left generalizing address with
  | nil => simp [payloads, span]
  | cons cell cells ih =>
    have shift : address + 32 + cell.size + span cells =
        address + (32 + cell.size + span cells) := by omega
    cases used : cell.used <;>
      simp [payloads, span, used, ih, shift]

theorem usedAt_append (address : Nat) (left right : List Cell) :
    usedAt address (left ++ right) = usedAt address left ++ usedAt (address + span left) right := by
  simp only [usedAt_eq, payloads_append, map_append]

theorem mem_usedAt {address pointer : Nat} (mem : pointer ∈ usedAt address cells) :
    ∃ before cell after, cells = before ++ cell :: after ∧
      cell.used = true ∧ pointer = address + span before + 32 := by
  induction cells generalizing address with
  | nil => simp [usedAt] at mem
  | cons cell cells ih =>
    have later : pointer ∈ usedAt (address + 32 + cell.size) cells →
        ∃ before cell' after, cell :: cells = before ++ cell' :: after ∧
          cell'.used = true ∧ pointer = address + span before + 32 := by
      intro mem
      rcases ih mem with ⟨before, cell', after, rfl, used, rfl⟩
      refine ⟨cell :: before, cell', after, rfl, used, ?_⟩
      simp only [span]
      omega
    cases used : cell.used with
    | false =>
      simp only [usedAt, used] at mem
      exact later mem
    | true =>
      simp only [usedAt, used, if_true, mem_cons] at mem
      rcases mem with rfl | mem
      · exact ⟨[], cell, cells, rfl, used, by simp [span]⟩
      · exact later mem

theorem span_mergeNext (cell : Cell) (after : List Cell) :
    span (mergeNext cell after) = span (cell :: after) := by
  cases after with
  | nil => rfl
  | cons _ _ =>
    simp only [mergeNext]
    split
    · simp only [span]
      omega
    · rfl

theorem payloads_mergeNext (free : cell.used = false) (address : Nat) (after : List Cell) :
    payloads address (mergeNext cell after) = payloads (address + 32 + cell.size) after := by
  cases after with
  | nil => simp [mergeNext, payloads, free]
  | cons next _ =>
    simp only [mergeNext]
    split
    · rename_i nextFree
      have shift : address + 32 + (cell.size + next.size + 32) =
          address + 32 + cell.size + 32 + next.size := by omega
      simp [payloads, free, nextFree, shift]
    · simp [payloads, free]

theorem eq_dropLast_append {previous : Cell} (last : before.getLast? = some previous) :
    before = before.dropLast ++ [previous] := by
  rw [getLast?_eq_some_iff] at last
  rcases last with ⟨_, rfl⟩
  simp

theorem mergePrev_free (free : cell.used = false) : (mergePrev before cell).2.used = false := by
  unfold mergePrev
  split
  · exact free
  · split
    · assumption
    · exact free

theorem span_mergePrev (before : List Cell) (cell : Cell) :
    span (mergePrev before cell).1 + 32 + (mergePrev before cell).2.size =
      span before + 32 + cell.size := by
  unfold mergePrev
  split
  · rfl
  · rename_i previous last
    split
    · have front := eq_dropLast_append last
      have total : span before = span before.dropLast + span [previous] := by
        rw [← span_append, ← front]
      simp only [span] at total ⊢
      omega
    · rfl

theorem payloads_mergePrev (address : Nat) (before : List Cell) (cell : Cell) :
    payloads address (mergePrev before cell).1 = payloads address before := by
  unfold mergePrev
  split
  · rfl
  · rename_i previous last
    split
    · rename_i previousFree
      conv_rhs => rw [eq_dropLast_append last, payloads_append]
      simp [payloads, previousFree]
    · rfl

theorem span_release (before : List Cell) (cell : Cell) (after : List Cell) :
    span (release before cell after) = span (before ++ cell :: after) := by
  have merged := span_mergePrev before { cell with used := false }
  simp only [release, span_append, span_mergeNext, span] at merged ⊢
  omega

theorem payloads_release (address : Nat) (before : List Cell) (cell : Cell) (after : List Cell) :
    payloads address (release before cell after) =
      payloads address before ++ payloads (address + span before + 32 + cell.size) after := by
  have merged := span_mergePrev before { cell with used := false }
  simp only [release, payloads_append, payloads_mergePrev]
  rw [payloads_mergeNext (mergePrev_free rfl)]
  have same : address + span (mergePrev before { cell with used := false }).1 + 32 +
      (mergePrev before { cell with used := false }).2.size =
        address + span before + 32 + cell.size := by
    simp only at merged
    omega
  rw [same]

theorem usedAt_release (address : Nat) (before : List Cell) (cell : Cell) (after : List Cell) :
    usedAt address (release before cell after) =
      usedAt address before ++ usedAt (address + span before + 32 + cell.size) after := by
  simp only [usedAt_eq, payloads_release, map_append]

theorem Aligned.mergeNext (aligned : Aligned (cell :: after)) : Aligned (mergeNext cell after) := by
  cases after with
  | nil => exact aligned
  | cons next _ =>
    simp only [Heap.mergeNext]
    split
    · intro other mem
      have cellAligned := aligned cell (by simp)
      have nextAligned := aligned next (by simp)
      rcases mem_cons.mp mem with rfl | mem
      · dsimp only
        omega
      · exact aligned other (by simp [mem])
    · exact aligned

theorem Aligned.release (aligned : Aligned (before ++ cell :: after)) :
    Aligned (release before cell after) := by
  have beforeAligned : Aligned before := fun other mem => aligned other (by simp [mem])
  have afterAligned : Aligned after := fun other mem => aligned other (by simp [mem])
  have cellAligned := aligned cell (by simp)
  have mergedAligned : Aligned (mergePrev before { cell with used := false }).1 ∧
      (mergePrev before { cell with used := false }).2.size % 32 = 0 := by
    unfold mergePrev
    split
    · exact ⟨beforeAligned, cellAligned⟩
    · rename_i previous last
      split
      · have previousAligned := beforeAligned previous (mem_of_getLast? last)
        constructor
        · intro other mem
          exact beforeAligned other (dropLast_subset _ mem)
        · dsimp only
          omega
      · exact ⟨beforeAligned, cellAligned⟩
  exact forall_mem_append.mpr
    ⟨mergedAligned.1, Aligned.mergeNext (forall_mem_cons.mpr ⟨mergedAligned.2, afterAligned⟩)⟩

/-- What first fit does: a used cell of the size asked for takes the place of a free one, with
the remainder behind it if there is one. -/
theorem allocate_inv (allocated : allocate n cells = some (offset, cells')) :
    ∃ before cell after rest, cells = before ++ cell :: after ∧ offset = span before ∧
      cell.used = false ∧ cells' = before ++ { size := n, used := true } :: (rest ++ after) ∧
      (rest = [] ∧ cell.size = n ∨
        rest = [{ size := cell.size - n - 32, used := false }] ∧ n < cell.size) := by
  induction cells generalizing offset cells' with
  | nil => simp [allocate] at allocated
  | cons cell cells ih =>
    simp only [allocate] at allocated
    split at allocated
    · rename_i fits
      cases allocated
      exact ⟨[], cell, cells, _, rfl, rfl, fits.1, rfl, .inr ⟨rfl, fits.2⟩⟩
    · split at allocated
      · rename_i fits
        cases allocated
        refine ⟨[], cell, cells, [], rfl, rfl, fits.1, ?_, .inl ⟨rfl, fits.2⟩⟩
        simp [fits.2]
      · obtain ⟨⟨_, _⟩, later, same⟩ := map_eq_some_iff.mp allocated
        cases same
        obtain ⟨before, found, after, rest, rfl, rfl, free, rfl, fits⟩ := ih later
        exact ⟨cell :: before, found, after, rest, rfl, rfl, free, rfl, fits⟩

theorem rest_span {rest : List Cell} (request : n % 32 = 0) (aligned : cell.size % 32 = 0)
    (fits : rest = [] ∧ cell.size = n ∨
      rest = [{ size := cell.size - n - 32, used := false }] ∧ n < cell.size) :
    span rest + n = cell.size := by
  rcases fits with ⟨rfl, rfl⟩ | ⟨rfl, _⟩
  · simp [span]
  · simp only [span]
    omega

theorem allocate_none_iff :
    allocate n cells = none ↔ ∀ cell ∈ cells, cell.used = false → cell.size < n := by
  induction cells with
  | nil => simp [allocate]
  | cons cell cells ih =>
    simp only [allocate, forall_mem_cons]
    split
    · rename_i fits
      simp only [reduceCtorEq, false_iff]
      exact fun ⟨small, _⟩ => absurd (small fits.1) (Nat.not_lt.mpr (Nat.le_of_lt fits.2))
    · split
      · rename_i fits
        simp only [reduceCtorEq, false_iff]
        exact fun ⟨small, _⟩ => absurd (small fits.1) (by omega)
      · rename_i larger same
        rw [map_eq_none_iff, ih]
        refine ⟨fun rest => ⟨fun free => ?_, rest⟩, And.right⟩
        have notLarger : ¬ n < cell.size := fun more => larger ⟨free, more⟩
        have notSame : cell.size ≠ n := fun equal => same ⟨free, equal⟩
        omega

/-- Allocation keeps the bytes covered, keeps sizes multiples of 32, and puts the payload that
is handed out, and no other, into use. -/
theorem allocate_payloads (request : n % 32 = 0) (aligned : Aligned cells)
    (allocated : allocate n cells = some (offset, cells')) (address : Nat) :
    span cells' = span cells ∧ Aligned cells' ∧
      (payloads address cells').Perm ((address + offset + 32, n) :: payloads address cells) := by
  obtain ⟨before, cell, after, rest, rfl, rfl, free, rfl, fits⟩ := allocate_inv allocated
  have cellAligned := aligned cell (by simp)
  have others : ∀ other, other ∈ before ∨ other ∈ after → other.size % 32 = 0 :=
    fun other mem => aligned other (by simp; tauto)
  have sizes := rest_span request cellAligned fits
  have unused : payloads (address + span before + 32 + n) rest = [] := by
    rcases fits with ⟨rfl, -⟩ | ⟨rfl, -⟩ <;> simp [payloads]
  have restAligned : ∀ other ∈ rest, other.size % 32 = 0 := by
    rcases fits with ⟨rfl, -⟩ | ⟨rfl, -⟩
    · simp
    · simp only [mem_singleton, forall_eq]
      omega
  refine ⟨?_, ?_, ?_⟩
  · simp only [span_append, span]
    omega
  · intro other mem
    simp only [mem_append, mem_cons] at mem
    rcases mem with earlier | rfl | inRest | later
    · exact others other (.inl earlier)
    · exact request
    · exact restAligned other inRest
    · exact others other (.inr later)
  · have shift : address + span before + 32 + n + span rest =
        address + span before + 32 + cell.size := by omega
    simp only [payloads_append, payloads, free, unused, shift]
    exact perm_middle

variable {start : Nat} {heap : HeapState}

/-- The search loop refines `allocate` on the cells it has yet to visit. -/
theorem kmallocScan_refines (request : n % 32 = 0) (after : List Cell) :
    ∀ (before : List Cell) (fuel : Nat),
      Represents start heap (before ++ after) → Aligned after →
      after.length < fuel →
      (allocate n after = none →
        kmallocScan heap n fuel (headPointer (start + span before) 0 after) = some (0, heap)) ∧
      ∀ offset cells, allocate n after = some (offset, cells) →
        ∃ heap', kmallocScan heap n fuel
            (headPointer (start + span before) 0 after) =
              some (start + span before + offset + 32, heap') ∧
          Represents start heap' (before ++ cells) := by
  induction after with
  | nil =>
    intro before fuel repr aligned enough
    cases fuel with
    | zero => exact absurd enough (Nat.not_lt_zero _)
    | succ fuel => simp [kmallocScan, headPointer, allocate]
  | cons cell after ih =>
    intro before fuel repr aligned enough
    cases fuel with
    | zero => exact absurd enough (Nat.not_lt_zero _)
    | succ fuel =>
      have header := repr.header
      have positive := repr.positive
      have bound := repr.cell_bound
      have cellAligned := aligned cell (by simp)
      have nonzero : start + span before ≠ 0 := by omega
      have payload : addWord (start + span before) 32 =
          start + span before + 0 + 32 := addWord_of_lt (by omega)
      change (_ → kmallocScan heap n (fuel + 1) (start + span before) = _) ∧
        ∀ offset cells, _ → ∃ heap', kmallocScan heap n (fuel + 1) (start + span before) = _ ∧ _
      simp only [kmallocScan, nonzero, if_false, header, allocate]
      by_cases fits : cell.used = false ∧ n < cell.size
      · -- the block is larger than the request: cut off the remainder
        simp only [if_pos fits]
        constructor
        · intro impossible
          exact absurd impossible (by simp)
        · intro offset cells allocated
          rcases allocated with ⟨rfl, rfl⟩
          refine ⟨_, by rw [payload], ?_⟩
          exact (repr.afterSplit (n := n) (by omega)).setUsed true
      · by_cases exact' : cell.used = false ∧ cell.size = n
        · simp only [if_neg fits, if_pos exact']
          constructor
          · intro impossible
            exact absurd impossible (by simp)
          · intro offset cells allocated
            rcases allocated with ⟨rfl, rfl⟩
            exact ⟨_, by rw [payload], repr.setUsed true⟩
        · simp only [if_neg fits, if_neg exact', map_eq_none_iff, map_eq_some_iff]
          have spanBefore : start + span (before ++ [cell]) =
              start + span before + 32 + cell.size := by
            simp only [span_append, span]
            omega
          have rest := ih (before ++ [cell]) fuel (by simpa using repr)
            (fun other mem => aligned other (by simp [mem]))
            (by simp only [length_cons] at enough; omega)
          rw [spanBefore] at rest
          constructor
          · exact rest.1
          · intro offset cells allocated
            rcases allocated with ⟨⟨offset', cells'⟩, allocated, same⟩
            rcases same with ⟨rfl, rfl⟩
            rcases rest.2 offset' cells' allocated with ⟨heap', scanned, repr'⟩
            refine ⟨heap', ?_, by simpa using repr'⟩
            rw [scanned]
            congr 2
            omega

theorem length_le_span (cells : List Cell) : 32 * cells.length ≤ span cells := by
  induction cells with
  | nil => simp
  | cons _ cells _ =>
    simp only [length_cons, span]
    omega

variable (repr : Represents start heap (before ++ cell :: after))
include repr

theorem Represents.afterCombineNext :
    Represents start (combineNext heap (start + span before)) (before ++ mergeNext cell after) := by
  have header := repr.header
  unfold combineNext
  cases after with
  | nil =>
    rw [header]
    simpa [headPointer, mergeNext] using repr
  | cons next rest =>
    have repr' : Represents start heap ((before ++ [cell]) ++ next :: rest) := by
      simpa using repr
    have nextHeader := repr'.header
    have spanBefore : start + span (before ++ [cell]) = start + span before + 32 + cell.size := by
      simp only [span_append, span]
      omega
    rw [spanBefore] at nextHeader
    have link : (heap.mem (start + span before)).next = start + span before + 32 + cell.size := by
      rw [header]
      rfl
    have nonzero : start + span before + 32 + cell.size ≠ 0 := by omega
    rw [link, nextHeader]
    simp only [ne_eq, nonzero, not_false_eq_true, true_and, mergeNext]
    split
    · exact repr.afterCombine
    · exact repr

theorem freeBlock_refines :
    Represents start (freeBlock heap (start + span before)) (release before cell after) := by
  have positive := repr.positive
  have freed := repr.setUsed false
  have header := freed.header
  simp only [freeBlock]
  generalize heap.assign (start + span before)
    (fun header => { header with used := false }) = cleared at freed header
  rw [header]
  rcases before.eq_nil_or_concat' with rfl | ⟨front, previous, rfl⟩
  · -- the first block has no predecessor to merge with
    exact freed.afterCombineNext
  · have frontRepr : Represents start cleared
        (front ++ previous :: { cell with used := false } :: after) := by
      simpa using freed
    have previousHeader := frontRepr.header
    have spanFront : start + span (front ++ [previous]) =
        start + span front + 32 + previous.size := by
      simp only [span_append, span]
      omega
    have prevLink : lastAddress 0 start (front ++ [previous]) = start + span front := by
      rw [lastAddress_append]
      rfl
    have nonzero : start + span front ≠ 0 := by omega
    simp only [prevLink, previousHeader, ne_eq, nonzero]
    by_cases previousFree : previous.used = false
    · have merged := frontRepr.afterCombine.afterCombineNext
      rw [spanFront]
      simp only [previousFree, release, mergePrev, getLast?_concat, dropLast_concat] at merged ⊢
      exact merged
    · simp only [previousFree, release, mergePrev, getLast?_concat]
      exact freed.afterCombineNext

theorem kfree_refines :
    Represents start (kfree heap (start + span before + 32)) (release before cell after) := by
  have bound := repr.cell_bound
  have block : subWord (start + span before + 32) 32 = start + span before := by
    rw [subWord_of_le (by omega) (by omega)]
    omega
  rw [kfree, block]
  exact freeBlock_refines repr

end Micro.Heap
