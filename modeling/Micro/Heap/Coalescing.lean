import Micro.Heap.Tiling

/-!
# Neighbouring free blocks are merged

`split` leaves a free remainder in front of whatever follows a free block, and `kfree` merges
a block with its free neighbours.  So that no two neighbours are ever both free, and a heap
with nothing in use is the block `heap_init` made.
-/

namespace Micro.Heap

open Lib List Option

variable {after before cells cells' : List Cell} {address offset : Nat}

/-- No two neighbouring cells are both free. -/
def Coalesced (cells : List Cell) : Prop :=
  cells.IsChain fun cell next => cell.used = true ∨ next.used = true

theorem Coalesced.used_of_free {cell next : Cell} (coalesced : Coalesced (cell :: cells))
    (free : cell.used = false) (isNext : next ∈ cells.head?) : next.used = true := by
  have either := (isChain_cons.mp coalesced).1 next isNext
  simpa [free] using either

theorem allocate_head {n : Nat} (allocated : allocate n cells = some (offset, cells'))
    (inUse : ∀ cell ∈ cells.head?, cell.used = true) : ∀ cell ∈ cells'.head?, cell.used = true := by
  cases cells with
  | nil => simp [allocate] at allocated
  | cons cell cells =>
    have used : cell.used = true := inUse cell rfl
    simp only [allocate, used, Bool.true_eq_false, false_and, if_false,
      map_eq_some_iff] at allocated
    obtain ⟨_, -, isResult⟩ := allocated
    cases isResult
    intro _ isHead
    cases isHead
    exact used

theorem Coalesced.allocate {n : Nat} (coalesced : Coalesced cells)
    (allocated : allocate n cells = some (offset, cells')) : Coalesced cells' := by
  induction cells generalizing offset cells' with
  | nil => simp [Heap.allocate] at allocated
  | cons cell cells ih =>
    have rest : Coalesced cells := (isChain_cons.mp coalesced).2
    simp only [Heap.allocate] at allocated
    split at allocated
    · rename_i fits
      cases allocated
      apply isChain_cons_cons.mpr
      refine ⟨.inl rfl, isChain_cons.mpr ⟨?_, rest⟩⟩
      intro next isNext
      exact .inr (coalesced.used_of_free fits.1 isNext)
    · split at allocated
      · cases allocated
        exact isChain_cons.mpr ⟨fun _ _ => .inl rfl, rest⟩
      · obtain ⟨_, found, isResult⟩ := map_eq_some_iff.mp allocated
        cases isResult
        refine isChain_cons.mpr ⟨?_, ih rest found⟩
        cases used : cell.used with
        | true => exact fun _ _ => .inl rfl
        | false =>
          intro next isNext
          refine .inr (allocate_head found ?_ next isNext)
          exact fun _ isHead => coalesced.used_of_free used isHead

theorem Coalesced.mergeNext (coalesced : Coalesced after) (cell : Cell) :
    Coalesced (mergeNext cell after) := by
  cases after with
  | nil => exact isChain_singleton cell
  | cons _ _ =>
    simp only [Heap.mergeNext]
    split
    · rename_i free
      refine isChain_cons.mpr ⟨?_, (isChain_cons.mp coalesced).2⟩
      exact fun _ isOther => .inr (coalesced.used_of_free free isOther)
    · rename_i used
      apply isChain_cons_cons.mpr
      exact ⟨.inr (by simpa using used), coalesced⟩

theorem Coalesced.mergePrev (coalesced : Coalesced before) (cell : Cell) :
    Coalesced (mergePrev before cell).1 ∧
      ∀ last ∈ (mergePrev before cell).1.getLast?, last.used = true := by
  unfold Heap.mergePrev
  split
  · rename_i empty
    exact ⟨coalesced, by simp [empty]⟩
  · rename_i previous isLast
    split
    · rename_i free
      rw [eq_dropLast_append isLast] at coalesced
      obtain ⟨front, -, seam⟩ := isChain_append.mp coalesced
      refine ⟨front, fun last isFrontLast => ?_⟩
      simpa [free] using seam last isFrontLast previous rfl
    · rename_i used
      refine ⟨coalesced, fun last isLast' => ?_⟩
      rw [isLast, mem_some_iff] at isLast'
      subst isLast'
      simpa using used

theorem Coalesced.release {cell : Cell} (coalesced : Coalesced (before ++ cell :: after)) :
    Coalesced (release before cell after) := by
  obtain ⟨front, back, -⟩ := isChain_append.mp coalesced
  obtain ⟨merged, lastUsed⟩ := Coalesced.mergePrev front { cell with used := false }
  have mergedNext := Coalesced.mergeNext (isChain_cons.mp back).2
    (Heap.mergePrev before { cell with used := false }).2
  exact isChain_append.mpr ⟨merged, mergedNext, fun last isLast _ _ => .inl (lastUsed last isLast)⟩

theorem Coalesced.step (coalesced : Coalesced cells) (stepped : CellStep cells cells') :
    Coalesced cells' := by
  cases stepped with
  | stay => exact coalesced
  | allocate allocated => exact coalesced.allocate allocated
  | release => exact coalesced.release

theorem Laid.coalesced {mem : Nat → Block} {before : Nat} (laid : Laid mem before address 0 cells)
    (coalesced : Coalesced cells) :
    (addresses address cells).IsChain fun block next =>
      (mem block).used = true ∨ (mem next).used = true := by
  induction cells generalizing before address with
  | nil => exact List.IsChain.nil
  | cons _ cells ih =>
    cases cells with
    | nil => exact List.IsChain.singleton _
    | cons _ cells =>
      obtain ⟨either, rest⟩ := isChain_cons_cons.mp coalesced
      refine List.IsChain.cons_cons ?_ (ih laid.2 rest)
      rw [laid.1, laid.2.1]
      exact either

theorem Coalesced.singleton (coalesced : Coalesced cells) (nonempty : cells ≠ [])
    (unused : usedAt address cells = []) : ∃ cell, cells = [cell] ∧ cell.used = false := by
  cases cells with
  | nil => exact absurd rfl nonempty
  | cons cell cells =>
    cases used : cell.used with
    | true => simp [usedAt, used] at unused
    | false =>
      cases cells with
      | nil => exact ⟨cell, rfl, used⟩
      | cons _ cells =>
        have nextUsed := coalesced.used_of_free used rfl
        simp [usedAt, used, nextUsed] at unused

/-- Every history of allocations and of frees of live pointers leaves no two neighbouring
blocks free, and once all pointers are freed the heap is the one `heap_init` made. -/
theorem heap_coalescing (memory : Nat → Block) (start : Nat) (positive : 0 < start)
    (region : start + (32 + 10000 * 4096) < 2 ^ 64) (calls : List Call)
    (disciplined : Permitted Session.call Disciplined (initial memory start) calls) :
    ∃ session, drive Session.call (initial memory start) calls = some session ∧
      (∃ blocks, Walk session.heap.mem session.heap.first blocks ∧ blocks.IsChain fun block next =>
          (session.heap.mem block).used = true ∨ (session.heap.mem next).used = true) ∧
      (session.live = [] → session.heap.first = start ∧ session.heap.last = start ∧
          session.heap.mem start = (heapInit memory start).mem start) := by
  have total : ∀ session call, (∃ cells, Cells start session cells ∧ Coalesced cells) →
      Disciplined session call → ∃ next, session.call call = some next ∧
        ∃ cells, Cells start next cells ∧ Coalesced cells := by
    intro session call holds permitted
    obtain ⟨cells, sound, coalesced⟩ := holds
    obtain ⟨next, cells', called, stepped, sound'⟩ := sound.call permitted
    exact ⟨next, called, cells', sound', coalesced.step stepped⟩
  obtain ⟨session, driven, cells, sound, coalesced⟩ := drive_total total calls _
    ⟨_, cells_initial memory positive region, isChain_singleton _⟩ disciplined
  refine ⟨session, driven,
    ⟨addresses start cells, sound.repr.walk, sound.repr.laid.coalesced coalesced⟩, ?_⟩
  intro unused
  have perm := sound.live
  rw [unused, nil_perm] at perm
  obtain ⟨⟨size, _⟩, rfl, rfl⟩ := coalesced.singleton sound.repr.nonempty perm
  obtain rfl : size = 10000 * 4096 := by
    have total := sound.total
    simp only [span] at total
    omega
  refine ⟨sound.repr.first, sound.repr.last, ?_⟩
  rw [sound.repr.laid.1]
  simp [heapInit, headPointer]

/-- Two pointers are taken and freed in the same order at the base of the kernel heap window. -/
theorem heap_coalescing_history :
    ∃ session, drive Session.call (initial blankMemory 0xffffffffc0000000)
        [.kmalloc 100, .kmalloc 64, .kfree 0xffffffffc0000020, .kfree 0xffffffffc00000c0] =
          some session ∧
      (∃ blocks, Walk session.heap.mem session.heap.first blocks ∧ blocks.IsChain fun block next =>
          (session.heap.mem block).used = true ∨ (session.heap.mem next).used = true) ∧
      (session.live = [] →
        session.heap.first = 0xffffffffc0000000 ∧ session.heap.last = 0xffffffffc0000000 ∧
          session.heap.mem 0xffffffffc0000000 =
            (heapInit blankMemory 0xffffffffc0000000).mem 0xffffffffc0000000) := by
  apply heap_coalescing blankMemory 0xffffffffc0000000 (by decide) (by decide)
  refine ⟨trivial, fun _ firstCall => ⟨trivial, fun _ secondCall => ?_⟩⟩
  have live : ((initial blankMemory 0xffffffffc0000000).call (.kmalloc 100)).bind
      (fun session => (session.call (.kmalloc 64)).map Session.live) =
        some [0xffffffffc00000c0, 0xffffffffc0000020] := by
    decide +kernel
  rw [firstCall, bind_some, secondCall] at live
  refine ⟨by simp [Disciplined, some.inj live], fun _ thirdCall => ?_⟩
  cases thirdCall
  exact ⟨by simp [Disciplined, some.inj live], fun _ _ => trivial⟩

end Micro.Heap
