import Mathlib.Data.List.Chain
import Mathlib.Data.List.Perm.Basic
import Micro.Heap.Alloc
import Micro.Lib.Run

/-!
# The heap tiles its region

Clients drive the heap with `kmalloc` and `kfree`, freeing only pointers they
still hold.  After every such history the blocks found by following `next` tile
the region exactly, the links are mutually inverse, and the payloads handed out
do not overlap.  The invariant is that the heap represents some list of cells
with sizes divisible by 32 whose used cells are the live pointers.
-/

namespace Micro.Heap

open Lib List Option

variable {start ptr : Nat} {cells : List Cell}

/-- A call made by a client. -/
inductive Call where
  | kmalloc (n : UInt64)
  | kfree (ptr : Nat)
  deriving DecidableEq, Repr

/-- The heap and the pointers returned and not yet freed. -/
structure Session where
  heap : HeapState
  live : List Nat

variable {session : Session}

def Session.call (session : Session) : Call → Option Session
  | .kmalloc n =>
      (kmalloc session.heap n.toNat).map fun result =>
        { heap := result.2
          live := if result.1 = 0 then session.live else result.1 :: session.live }
  | .kfree ptr =>
      some { heap := kfree session.heap ptr, live := session.live.erase ptr }

/-- The client only frees live pointers. -/
def Disciplined (session : Session) : Call → Prop
  | .kmalloc _ => True
  | .kfree ptr => ptr ∈ session.live

/-- The session right after `heap_init` mapped its region at `start`. -/
def initial (memory : Nat → Block) (start : Nat) : Session where
  heap := heapInit memory start
  live := []

/-- The blocks visited by following `next` until `NULL`. -/
inductive Walk (mem : Nat → Block) : Nat → List Nat → Prop where
  | stop : Walk mem 0 []
  | visit {block : Nat} {blocks : List Nat} (nonnull : block ≠ 0) :
      Walk mem (mem block).next blocks → Walk mem block (block :: blocks)

/-- An address inside the payload behind a pointer. -/
def InPayload (heap : HeapState) (ptr address : Nat) : Prop :=
  ptr ≤ address ∧ address < ptr + (heap.mem (ptr - 32)).size

/-- The blocks of a session tile the region that starts at `start`. -/
structure Tiling (start : Nat) (session : Session) (blocks : List Nat) : Prop where
  /-- Walking `next` from `first` visits exactly `blocks`. -/
  walk : Walk session.heap.mem session.heap.first blocks
  /-- The first header starts the region and the last payload ends it. -/
  begins : blocks.head? = some start
  ends : ∃ block ∈ blocks.getLast?,
    block + 32 + (session.heap.mem block).size = start + 32 + 10000 * 4096
  /-- Each header starts where the previous payload ends. -/
  abut : blocks.IsChain fun block next =>
    next = block + 32 + (session.heap.mem block).size
  /-- `prev` is the inverse of `next`. -/
  inverse : blocks.IsChain fun block next =>
    (session.heap.mem block).next = next ∧ (session.heap.mem next).prev = block
  firstPrev : (session.heap.mem start).prev = 0
  /-- `last` is the final block. -/
  last : blocks.getLast? = some session.heap.last
  /-- Sizes are multiples of 32, so that `split` never underflows. -/
  aligned : ∀ block ∈ blocks, (session.heap.mem block).size % 32 = 0
  remainder : ∀ block ∈ blocks, ∀ n : UInt64,
    roundRequest n.toNat < (session.heap.mem block).size →
      roundRequest n.toNat + 32 ≤ (session.heap.mem block).size
  /-- Live pointers are distinct payloads of blocks in use. -/
  owned : ∀ ptr ∈ session.live, ∃ block ∈ blocks,
    ptr = block + 32 ∧ (session.heap.mem block).used = true
  distinct : session.live.Nodup
  /-- Live payloads are pairwise disjoint. -/
  disjoint : session.live.Pairwise fun left right =>
    ∀ address, ¬(InPayload session.heap left address ∧ InPayload session.heap right address)

/-- The invariant behind `Tiling`. -/
def Sound (start : Nat) (session : Session) : Prop :=
  ∃ cells, Represents start session.heap cells ∧
    span cells = 32 + 10000 * 4096 ∧ Aligned cells ∧
    session.live.Perm (usedAt start cells)

/-! ## Preservation -/

theorem roundRequest_aligned (n : Nat) : roundRequest n % 32 = 0 := by
  unfold roundRequest
  split
  · unfold addWord
    omega
  · omega

/-- The cells of a sound session. -/
structure Cells (start : Nat) (session : Session) (cells : List Cell) : Prop where
  repr : Represents start session.heap cells
  total : span cells = 32 + 10000 * 4096
  aligned : Aligned cells
  live : session.live.Perm (usedAt start cells)

theorem cells_initial (memory : Nat → Block) (pos : 0 < start)
    (bound : start + (32 + 10000 * 4096) < 2 ^ 64) :
    Cells start (initial memory start) [{ size := 10000 * 4096, used := false }] where
  repr :=
    { first := rfl
      last := rfl
      laid := ⟨by simp [initial, heapInit, headPointer], trivial⟩
      nonempty := by simp
      positive := pos
      bound := bound }
  total := rfl
  aligned := by
    intro _ mem
    simp [mem_singleton.mp mem]
  live := List.Perm.nil

/-- What a call can do to the cells. -/
inductive CellStep : List Cell → List Cell → Prop where
  | stay (cells : List Cell) : CellStep cells cells
  | allocate {n offset : Nat} {cells cells' : List Cell} :
      allocate n cells = some (offset, cells') → CellStep cells cells'
  | release {before after : List Cell} {cell : Cell} :
      CellStep (before ++ cell :: after) (release before cell after)

/-- What a request returns, and the cells after it. -/
inductive Allocation (start n : Nat) (cells : List Cell) : Nat → List Cell → Prop where
  | refused : n = 0 ∨ allocate (roundRequest n) cells = none → Allocation start n cells 0 cells
  | granted {offset : Nat} {cells' : List Cell} : n ≠ 0 →
      allocate (roundRequest n) cells = some (offset, cells') →
        Allocation start n cells (start + offset + 32) cells'

section Allocation

variable {n : Nat} {cells' : List Cell} (allocation : Allocation start n cells ptr cells')
include allocation

theorem Allocation.cellStep : CellStep cells cells' := by
  cases allocation with
  | refused => exact .stay cells
  | granted _ allocated => exact .allocate allocated

theorem Allocation.null_iff : ptr = 0 ↔ n = 0 ∨ allocate (roundRequest n) cells = none := by
  cases allocation with
  | refused reason => simp [reason]
  | granted nonzero allocated => simp [nonzero, allocated]

theorem Allocation.payloads (aligned : Aligned cells) :
    span cells' = span cells ∧ Aligned cells' ∧
      (Heap.payloads start cells').Perm
        (if ptr = 0 then Heap.payloads start cells
        else (ptr, roundRequest n) :: Heap.payloads start cells) := by
  cases allocation with
  | refused => exact ⟨rfl, aligned, .refl _⟩
  | granted _ allocated =>
    exact allocate_payloads (roundRequest_aligned n) aligned allocated start

theorem Allocation.live {live : List Nat} (aligned : Aligned cells)
    (perm : live.Perm (usedAt start cells)) :
    (if ptr = 0 then live else ptr :: live).Perm (usedAt start cells') := by
  obtain ⟨-, -, added⟩ := allocation.payloads aligned
  rw [usedAt_eq] at perm ⊢
  apply List.Perm.trans _ (added.map Prod.fst).symm
  split
  · exact perm
  · exact perm.cons ptr

end Allocation

variable {heap : HeapState}

section

variable (repr : Represents start heap cells) (aligned : Aligned cells)
include repr aligned

theorem Represents.kmallocScan {fuel : Nat} (few : cells.length < fuel) (n : Nat) :
    (allocate (roundRequest n) cells = none →
      Heap.kmallocScan heap (roundRequest n) fuel heap.first = some (0, heap)) ∧
    ∀ offset cells', allocate (roundRequest n) cells = some (offset, cells') →
      ∃ heap', Heap.kmallocScan heap (roundRequest n) fuel heap.first =
          some (start + offset + 32, heap') ∧ Represents start heap' cells' := by
  have scan := kmallocScan_refines (roundRequest_aligned n) cells [] fuel repr aligned few
  have head : headPointer (start + span []) 0 cells = heap.first := by
    rw [repr.first]
    obtain ⟨_, _, rfl⟩ := exists_cons_of_ne_nil repr.nonempty
    rfl
  rw [head] at scan
  exact scan

theorem Represents.kmalloc (few : cells.length < scanFuel) (n : Nat) :
    ∃ ptr heap' cells', Heap.kmalloc heap n = some (ptr, heap') ∧
      Allocation start n cells ptr cells' ∧ Represents start heap' cells' := by
  unfold Heap.kmalloc
  split
  · rename_i zero
    exact ⟨0, heap, cells, rfl, .refused (.inl zero), repr⟩
  · rename_i nonzero
    have scan := repr.kmallocScan aligned few n
    cases allocated : Heap.allocate (roundRequest n) cells with
    | none => exact ⟨0, heap, cells, scan.1 allocated, .refused (.inr allocated), repr⟩
    | some result =>
      obtain ⟨offset, cells'⟩ := result
      obtain ⟨heap', scanned, repr'⟩ := scan.2 offset cells' allocated
      exact ⟨_, heap', cells', scanned, .granted nonzero allocated, repr'⟩

end

section

variable (sound : Cells start session cells)
include sound

theorem Cells.few : cells.length < scanFuel := by
  have length := length_le_span cells
  have total := sound.total
  simp only [scanFuel]
  omega

theorem Cells.kmalloc (n : UInt64) :
    ∃ next cells', session.call (.kmalloc n) = some next ∧ CellStep cells cells' ∧
      Cells start next cells' := by
  obtain ⟨_, _, cells', called, allocation, repr'⟩ :=
    sound.repr.kmalloc sound.aligned sound.few n.toNat
  obtain ⟨total, aligned, -⟩ := allocation.payloads sound.aligned
  simp only [Session.call, called]
  exact ⟨_, cells', rfl, allocation.cellStep, repr', total.trans sound.total, aligned,
    allocation.live sound.aligned sound.live⟩

theorem Cells.kfree (live : ptr ∈ session.live) :
    ∃ next cells', session.call (.kfree ptr) = some next ∧ CellStep cells cells' ∧
      Cells start next cells' := by
  obtain ⟨repr, total, aligned, perm⟩ := sound
  rcases mem_usedAt (perm.mem_iff.mp live) with ⟨before, cell, after, rfl, used, rfl⟩
  have released := kfree_refines repr
  generalize freed : Heap.kfree session.heap (start + span before + 32) = heap' at released
  refine ⟨{ heap := heap', live := session.live.erase (start + span before + 32) },
    Heap.release before cell after, by simp only [Session.call, freed], .release, released, ?_,
    aligned.release, ?_⟩
  · rw [span_release, total]
  · have erased := perm.erase (start + span before + 32)
    apply erased.trans
    rw [usedAt_release, usedAt_append]
    simp only [usedAt, used]
    apply (perm_middle.erase _).trans
    rw [erase_cons_head]

end

theorem Cells.call (sound : Cells start session cells) {call : Call}
    (disciplined : Disciplined session call) :
    ∃ next cells', session.call call = some next ∧ CellStep cells cells' ∧
      Cells start next cells' := by
  cases call with
  | kmalloc n => exact sound.kmalloc n
  | kfree _ => exact sound.kfree disciplined

theorem disciplined_run (memory : Nat → Block) (pos : 0 < start)
    (region : start + (32 + 10000 * 4096) < 2 ^ 64) {calls : List Call}
    (disciplined : Permitted Session.call Disciplined (initial memory start) calls) :
    ∃ session cells, drive Session.call (initial memory start) calls = some session ∧
      Cells start session cells := by
  have total : ∀ session call, (∃ cells, Cells start session cells) → Disciplined session call →
      ∃ next, session.call call = some next ∧ ∃ cells, Cells start next cells := by
    intro session call ⟨cells, sound⟩ permitted
    obtain ⟨next, cells', called, -, sound'⟩ := sound.call permitted
    exact ⟨next, called, cells', sound'⟩
  obtain ⟨session, driven, cells, sound⟩ := drive_total total calls _
    ⟨_, cells_initial memory pos region⟩ disciplined
  exact ⟨session, cells, driven, sound⟩

/-! ## Reading the invariant back -/

/-- Header addresses of cells laid out from `address`. -/
def addresses (address : Nat) : List Cell → List Nat
  | [] => []
  | cell :: cells => address :: addresses (address + 32 + cell.size) cells

section ReadBack

variable {mem : Nat → Block} {before address : Nat}

theorem Laid.walk (laid : Laid mem before address 0 cells) (pos : 0 < address) :
    Walk mem (headPointer address 0 cells) (addresses address cells) := by
  induction cells generalizing before address with
  | nil => exact Walk.stop
  | cons _ cells ih =>
    apply Walk.visit (by simp only [headPointer]; omega)
    simp only [headPointer]
    rw [laid.1]
    exact ih laid.2 (by omega)

theorem Laid.congr {mem' : Nat → Block} (laid : Laid mem before address 0 cells)
    (agree : ∀ block ∈ addresses address cells, mem' block = mem block) :
    Laid mem' before address 0 cells := by
  induction cells generalizing before address with
  | nil => trivial
  | cons _ cells ih =>
    simp only [addresses, forall_mem_cons] at agree
    exact ⟨agree.1.trans laid.1, ih laid.2 agree.2⟩

theorem getLast?_addresses (nonempty : cells ≠ []) :
    (addresses address cells).getLast? = some (lastAddress before address cells) := by
  induction cells generalizing before address with
  | nil => exact absurd rfl nonempty
  | cons cell cells ih =>
    cases cells with
    | nil => rfl
    | cons cell' cells =>
      have tail : (addresses (address + 32 + cell.size) (cell' :: cells)).getLast? =
          some (lastAddress address (address + 32 + cell.size) (cell' :: cells)) :=
        ih (by simp)
      simpa [addresses, lastAddress] using tail

section

variable (laid : Laid mem before address 0 cells)
include laid

theorem Laid.isChain : (addresses address cells).IsChain fun block next =>
      next = block + 32 + (mem block).size ∧ (mem block).next = next ∧ (mem next).prev = block := by
  induction cells generalizing before address with
  | nil => exact List.IsChain.nil
  | cons _ cells ih =>
    cases cells with
    | nil => exact List.IsChain.singleton _
    | cons _ cells =>
      apply List.IsChain.cons_cons
      · rw [laid.1, laid.2.1]
        exact ⟨rfl, rfl, rfl⟩
      · exact ih laid.2

theorem Laid.end_eq (nonempty : cells ≠ []) :
    lastAddress before address cells + 32 +
      (mem (lastAddress before address cells)).size = address + span cells := by
  induction cells generalizing before address with
  | nil => exact absurd rfl nonempty
  | cons _ cells ih =>
    cases cells with
    | nil =>
      simp only [lastAddress, laid.1, span]
      omega
    | cons _ cells =>
      have tail := ih laid.2 (by simp)
      simp only [lastAddress, span] at tail ⊢
      omega

theorem Laid.aligned (aligned : Aligned cells) :
    ∀ block ∈ addresses address cells, (mem block).size % 32 = 0 := by
  induction cells generalizing before address with
  | nil => simp [addresses]
  | cons cell cells ih =>
    intro block member
    rcases mem_cons.mp member with rfl | member
    · rw [laid.1]
      exact aligned cell (by simp)
    · exact ih laid.2 (fun other member => aligned other (by simp [member])) block member

theorem Laid.used :
    ∀ ptr ∈ usedAt address cells, ∃ block ∈ addresses address cells,
      ptr = block + 32 ∧ (mem block).used = true := by
  induction cells generalizing before address with
  | nil => simp [usedAt]
  | cons cell cells ih =>
    intro ptr member
    have later : ptr ∈ usedAt (address + 32 + cell.size) cells →
        ∃ block ∈ addresses address (cell :: cells),
          ptr = block + 32 ∧ (mem block).used = true := by
      intro member
      rcases ih laid.2 ptr member with ⟨block, blockMember, facts⟩
      exact ⟨block, mem_cons_of_mem _ blockMember, facts⟩
    cases used : cell.used with
    | false =>
      simp only [usedAt, used] at member
      exact later member
    | true =>
      simp only [usedAt, used, if_true, mem_cons] at member
      rcases member with rfl | member
      · refine ⟨address, mem_cons_self, rfl, ?_⟩
        rw [laid.1]
        exact used
      · exact later member

end

theorem le_of_mem_usedAt (mem : ptr ∈ usedAt address cells) : address + 32 ≤ ptr := by
  rcases mem_usedAt mem with ⟨_, _, _, _, _, rfl⟩
  omega

theorem Laid.pairwise (laid : Laid mem before address 0 cells) :
    (usedAt address cells).Pairwise fun left right =>
      left + (mem (left - 32)).size + 32 ≤ right := by
  induction cells generalizing before address with
  | nil => exact List.Pairwise.nil
  | cons cell cells ih =>
    have tail := ih laid.2
    cases used : cell.used with
    | false => simpa [usedAt, used] using tail
    | true =>
      simp only [usedAt, used]
      apply List.Pairwise.cons
      · intro _ member
        have lower := le_of_mem_usedAt member
        rw [Nat.add_sub_cancel, laid.1]
        omega
      · exact tail

end ReadBack

theorem Represents.walk (repr : Represents start heap cells) :
    Walk heap.mem heap.first (addresses start cells) := by
  have walk := repr.laid.walk repr.positive
  rw [repr.first]
  obtain ⟨_, _, rfl⟩ := exists_cons_of_ne_nil repr.nonempty
  exact walk

theorem Sound.tiling (sound : Sound start session) : ∃ blocks, Tiling start session blocks := by
  rcases sound with ⟨cells, repr, _, aligned, perm⟩
  have laid := repr.laid
  have chain := laid.isChain
  have sizes := laid.aligned aligned
  have ordered := laid.pairwise
  have lastBlock : (addresses start cells).getLast? = some session.heap.last := by
    rw [repr.last]
    exact getLast?_addresses repr.nonempty
  rcases exists_cons_of_ne_nil repr.nonempty with ⟨cell, rest, rfl⟩
  refine ⟨addresses start (cell :: rest), ?_⟩
  exact
    { walk := repr.walk
      begins := rfl
      ends := by
        refine ⟨session.heap.last, lastBlock, ?_⟩
        have finish := laid.end_eq repr.nonempty
        rw [repr.last]
        omega
      abut := chain.imp fun _ _ linked => linked.1
      inverse := chain.imp fun _ _ linked => linked.2
      firstPrev := by rw [laid.1]
      last := lastBlock
      aligned := sizes
      remainder := by
        intro block mem n _
        have size := sizes block mem
        have request := roundRequest_aligned n.toNat
        omega
      owned := fun ptr mem => laid.used ptr (perm.mem_iff.mp mem)
      distinct := by
        apply perm.nodup_iff.mpr
        apply ordered.imp
        omega
      disjoint := by
        apply (perm.pairwise_iff ?_).mpr
        · apply ordered.imp
          intro left right apart address overlap
          rcases overlap with ⟨⟨_, _⟩, _, _⟩
          omega
        · intro left right apart address overlap
          exact apart address overlap.symm }

/-- Every history of allocations and of frees of live pointers runs to its end
and leaves the blocks tiling the region set up by `heap_init`. -/
theorem heap_tiling (memory : Nat → Block) (start : Nat) (positive : 0 < start)
    (region : start + (32 + 10000 * 4096) < 2 ^ 64) (calls : List Call)
    (disciplined : Permitted Session.call Disciplined (initial memory start) calls) :
    ∃ session, drive Session.call (initial memory start) calls = some session ∧
      ∃ blocks, Tiling start session blocks := by
  obtain ⟨session, cells, driven, sound⟩ := disciplined_run memory positive region disciplined
  have tiling := Sound.tiling ⟨cells, sound.repr, sound.total, sound.aligned, sound.live⟩
  exact ⟨session, driven, tiling⟩

/-- Memory before `heap_init`, in the example history. -/
def blankMemory : Nat → Block := fun _ =>
  { next := 0, prev := 0, used := false, size := 0 }

/-- A history at the base of the kernel heap window: a small request, one whose
rounding wraps to zero, and the release of the first pointer. -/
theorem heap_tiling_history :
    ∃ session, drive Session.call (initial blankMemory 0xffffffffc0000000)
        [.kmalloc 100, .kmalloc 0xffffffffffffffff, .kfree 0xffffffffc0000020] = some session ∧
      ∃ blocks, Tiling 0xffffffffc0000000 session blocks := by
  apply heap_tiling blankMemory 0xffffffffc0000000 (by decide) (by decide)
  refine ⟨trivial, ?_⟩
  intro _ firstCall
  refine ⟨trivial, ?_⟩
  intro _ secondCall
  refine ⟨?_, fun _ _ => trivial⟩
  have live : ((initial blankMemory 0xffffffffc0000000).call (.kmalloc 100)).bind
      (fun session => (session.call (.kmalloc 0xffffffffffffffff)).map Session.live) =
        some [0xffffffffc00000c0, 0xffffffffc0000020] := by
    decide +kernel
  rw [firstCall, bind_some, secondCall] at live
  simp [Disciplined, some.inj live]

end Micro.Heap
