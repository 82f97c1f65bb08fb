import Micro.Libc.Headers

/-!
# The cells of a program's heap

The region that `__malloc_init` sets up is covered by cells, as the region of the kernel's heap
is.  `malloc` allocates among the cells and `free` releases one of them; both write to the
headers of the cells and to nothing else.
-/

namespace Micro.Libc

open Lib Heap

variable {start stop : Nat} {cells : List Cell} {heap heap' : LibcHeap}

/-- The heap that starts at `start` is laid out as `cells`, and the payloads in use can be
accessed. -/
structure Holds (start stop : Nat) (heap : LibcHeap) (cells : List Cell) : Prop where
  first : heap.first = start
  laid : Laid (slots start heap) 0 start 0 cells
  total : span cells = 32 + 0x100000
  aligned : Aligned cells
  positive : 0 < start
  bound : start + (32 + 0x100000) ≤ 2 ^ 39
  limit : heap.stop = stop ∧ stop ≤ 2 ^ 39
  inside : ∀ payload ∈ payloads start cells, payload.1 + payload.2 ≤ stop

/-- A free block that takes `n` bytes has room for them, and for the header of what is left,
where memory can be accessed. -/
def Spares (heap : LibcHeap) (n : Nat) : Prop :=
  ∃ blocks, Walk heap.header heap.first blocks ∧ ∀ b ∈ blocks, heap.used b = 0 →
    n ≤ heap.size b → b + (32 + n) ≤ heap.stop ∧ (n < heap.size b → b + (64 + n) ≤ heap.stop)

def LibcHeap.state (heap : LibcHeap) (start : Nat) (cells : List Cell) : HeapState where
  mem := slots start heap
  first := heap.first
  last := lastAddress 0 start cells

/-- Only the headers of the cells differ. -/
def SameOutside (start : Nat) (cells : List Cell) (heap heap' : LibcHeap) : Prop :=
  ∀ k, (∀ b ∈ addresses start cells, k < b ∨ b + 32 ≤ k) → heap'.bytes k = heap.bytes k

/-- The payload behind a pointer has the same bytes. -/
def SamePayload (heap heap' : LibcHeap) (payload : Nat × Nat) : Prop :=
  ∀ i < payload.2, heap'.bytes (payload.1 + i) = heap.bytes (payload.1 + i)

theorem SameOutside.payload (same : SameOutside start cells heap heap') {payload : Nat × Nat}
    (mem : payload ∈ payloads start cells) : SamePayload heap heap' payload := by
  intro i _
  apply same
  intro b isHeader
  have apart := payload_apart mem isHeader
  omega

section Holds

variable {cells' : List Cell} {headers : List Nat} {b n : Nat} {payload : Nat × Nat}

section

variable (holds : Holds start stop heap cells)
include holds

theorem Holds.represents : Represents start (heap.state start cells) cells where
  first := holds.first
  last := rfl
  laid := holds.laid
  nonempty := by
    rintro rfl
    exact absurd holds.total (by decide)
  positive := holds.positive
  bound := by
    have bound := holds.bound
    rw [holds.total]
    omega

theorem Holds.slot (isHeader : b ∈ addresses start cells) :
    b % 32 = start % 32 ∧ b + 32 ≤ 2 ^ 39 := by
  have inside := addresses_bound isHeader
  have bound := holds.bound
  rw [holds.total] at inside
  exact ⟨holds.aligned.address isHeader, by omega⟩

theorem Holds.header (isHeader : b ∈ addresses start cells) :
    slots start heap b = heap.header b := by
  rw [slots, if_pos (holds.slot isHeader).1]

theorem Holds.walk : Walk heap.header heap.first (addresses start cells) := by
  have laid := holds.laid.congr fun b isHeader => (holds.header isHeader).symm
  have walk := laid.walk holds.positive
  rw [holds.first]
  obtain ⟨_, _, rfl⟩ := List.exists_cons_of_ne_nil holds.represents.nonempty
  exact walk

theorem Holds.congr (first : heap'.first = heap.first) (limit : heap'.stop = heap.stop)
    (same : ∀ b ∈ addresses start cells, heap'.header b = heap.header b) :
    Holds start stop heap' cells where
  first := first.trans holds.first
  laid := by
    apply holds.laid.congr
    intro b isHeader
    simp only [slots]
    split
    · exact same b isHeader
    · rfl
  total := holds.total
  aligned := holds.aligned
  positive := holds.positive
  bound := holds.bound
  limit := limit ▸ holds.limit
  inside := holds.inside

theorem Holds.unique (holds' : Holds start stop heap' cells) (isHeader : b ∈ addresses start cells) :
    heap.header b = heap'.header b := by
  rw [← holds.header isHeader, ← holds'.header isHeader]
  exact holds.laid.unique holds'.laid isHeader

variable (mem : payload ∈ payloads start cells)
include mem

theorem Holds.size :
    payload.1 - 32 ∈ addresses start cells ∧ heap.size (payload.1 - 32) = payload.2 ∧
      heap.used (payload.1 - 32) ≠ 0 := by
  obtain ⟨b, isHeader, pointer, size, used⟩ := holds.laid.payload mem
  rw [holds.header isHeader] at size used
  rw [pointer]
  exact ⟨isHeader, size, by simpa [LibcHeap.header] using used⟩

theorem Holds.payload_bound :
    start + 32 ≤ payload.1 ∧ payload.1 + payload.2 ≤ heap.stop ∧ heap.stop ≤ 2 ^ 39 := by
  obtain ⟨limit, low⟩ := holds.limit
  rw [limit]
  exact ⟨(payloads_bound mem).1, holds.inside payload mem, low⟩

end

theorem view_state (heap : LibcHeap) (cells : List Cell)
    (slot : ∀ b ∈ headers, b % 32 = start % 32 ∧ b < 2 ^ 64) :
    View start headers heap heap (heap.state start cells) where
  mem := rfl
  first := rfl
  kept := fun _ _ => rfl
  stop := rfl
  slot := slot

theorem roundRequest_lt (word : n < 2 ^ 64) : roundRequest n < 2 ^ 64 := by
  unfold roundRequest
  split
  · exact Nat.mod_lt _ (by decide)
  · exact word

section

variable (holds : Holds start stop heap cells)
include holds

theorem Holds.write (mem : payload ∈ payloads start cells) (first : heap'.first = heap.first)
    (limit : heap'.stop = heap.stop)
    (inside : ∀ k, k < payload.1 ∨ payload.1 + payload.2 ≤ k → heap'.bytes k = heap.bytes k) :
    Holds start stop heap' cells := by
  apply holds.congr first limit
  intro b isHeader
  have apart := payload_apart mem isHeader
  apply header_congr
  intro k _ _
  exact inside k (by omega)

theorem Holds.of_view {state' : HeapState} (view : View start headers heap heap' state')
    (repr : Represents start state' cells') (total : span cells' = span cells)
    (aligned : Aligned cells')
    (inside : ∀ payload ∈ payloads start cells', payload.1 + payload.2 ≤ stop) :
    Holds start stop heap' cells' where
  first := view.first.symm.trans repr.first
  laid := view.mem ▸ repr.laid
  total := total.trans holds.total
  aligned := aligned
  positive := holds.positive
  bound := holds.bound
  limit := view.stop ▸ holds.limit
  inside := inside

section

variable {before after : List Cell} {cell : Cell} (shape : cells = before ++ cell :: after)
include shape

theorem Holds.block : start + span before ∈ addresses start cells ∧
    (heap.used (start + span before) = 0 ↔ cell.used = false) ∧
      heap.size (start + span before) = cell.size := by
  subst shape
  have isHeader : start + span before ∈ addresses start (before ++ cell :: after) := by
    simp [addresses_append, addresses]
  have laid := ((laid_append _ _ _ _ _ _).mp holds.laid).2.1
  rw [holds.header isHeader, LibcHeap.header, Block.mk.injEq] at laid
  exact ⟨isHeader, by simp [← laid.2.2.1], laid.2.2.2⟩

theorem Holds.spares (spares : Spares heap n) (free : cell.used = false) (fits : n ≤ cell.size) :
    start + span before + (32 + n) ≤ stop ∧
      (n < cell.size → start + span before + (64 + n) ≤ stop) := by
  obtain ⟨_, walk, spared⟩ := spares
  obtain ⟨isHeader, used, size⟩ := holds.block shape
  rw [← holds.walk.unique walk] at spared
  have room := spared _ isHeader (used.mpr free) (by omega)
  rwa [size, holds.limit.1] at room

end

theorem Holds.spares_of_region (region : start + (32 + 0x100000) ≤ stop) (request : n % 32 = 0) :
    Spares heap n := by
  refine ⟨_, holds.walk, fun b isHeader _ fits => ?_⟩
  obtain ⟨before, cell, after, rfl, rfl⟩ := mem_addresses isHeader
  have total := holds.total
  have aligned := holds.aligned cell (by simp)
  simp only [span_append, span] at total
  rw [(holds.block rfl).2.2] at fits ⊢
  rw [holds.limit.1]
  omega

theorem Holds.few : cells.length < searchFuel := by
  have length := length_le_span cells
  have total := holds.total
  simp only [searchFuel]
  omega

/-- The header that `split` writes is a header of the cells after the allocation. -/
theorem Holds.room {offset : Nat} (allocated : allocate n cells = some (offset, cells'))
    (spares : Spares heap n)
    (isHeader : b ∈ addresses start cells) (pointer : start + offset + 32 = addWord b 32)
    (larger : n < (slots start heap b).size) :
    addWord (addWord b 32) n ∈ addresses start cells' ∧ addWord (addWord b 32) n ≠ b ∧
      addWord (addWord b 32) n + 32 ≤ heap.stop := by
  have bound := (holds.slot isHeader).2
  obtain ⟨before, _, _, _, rfl, rfl, free, rfl, fits⟩ := allocate_inv allocated
  rw [addWord_of_lt (by omega)] at pointer
  obtain rfl : b = start + span before := by omega
  rw [((laid_append _ _ _ _ _ _).mp holds.laid).2.1] at larger
  dsimp only at larger
  obtain ⟨rfl, -⟩ := fits.resolve_left fun _ => by omega
  have total := holds.total
  have room := (holds.spares rfl spares free (by omega)).2 larger
  simp only [span_append, span] at total
  rw [addWord_of_lt (by omega : start + span before + 32 < 2 ^ 64), addWord_of_lt (by omega),
    holds.limit.1]
  refine ⟨by simp [addresses_append, addresses], by omega, by omega⟩

theorem Holds.inside_allocate {offset : Nat} (allocated : allocate n cells = some (offset, cells'))
    (request : n % 32 = 0) (spares : Spares heap n) :
    ∀ payload ∈ payloads start cells', payload.1 + payload.2 ≤ stop := by
  obtain ⟨-, -, perm⟩ := allocate_payloads request holds.aligned allocated start
  obtain ⟨before, cell, _, _, shape, rfl, free, -, fits⟩ := allocate_inv allocated
  have room := (holds.spares shape spares free (by omega)).1
  intro payload mem
  rcases List.mem_cons.mp (perm.mem_iff.mp mem) with rfl | earlier
  · dsimp only
    omega
  · exact holds.inside payload earlier

theorem Holds.malloc (word : n < 2 ^ 64) (spares : n = 0 ∨ Spares heap (roundRequest n)) :
    ∃ ptr heap' cells', malloc heap n = some (ptr, heap') ∧
      Allocation start n cells ptr cells' ∧ Holds start stop heap' cells' ∧
      SameOutside start cells' heap heap' := by
  unfold Libc.malloc
  split
  · rename_i zero
    exact ⟨0, heap, cells, rfl, .refused (.inl zero), holds, fun _ _ => rfl⟩
  · rename_i nonzero
    replace spares := spares.resolve_left nonzero
    have walk := holds.represents.walk
    have scan := holds.represents.kmallocScan holds.aligned holds.few n
    cases allocated : allocate (roundRequest n) cells with
    | none =>
      have view := view_state heap cells fun b isHeader =>
        ⟨(holds.slot isHeader).1, by have bound := (holds.slot isHeader).2; omega⟩
      obtain ⟨heap', scanned, view'⟩ := view.mallocScan (roundRequest_lt word) walk
        (fun _ => id) (by
          intro b isHeader pointer
          have bound := holds.slot isHeader
          rw [addWord_of_lt (by omega)] at pointer
          omega) (scan.1 allocated)
      exact ⟨0, heap', cells, scanned, .refused (.inr allocated),
        holds.of_view view' holds.represents rfl holds.aligned holds.inside, view'.kept⟩
    | some result =>
      obtain ⟨offset, cells'⟩ := result
      obtain ⟨_, scanned, repr'⟩ := scan.2 offset cells' allocated
      have request := roundRequest_aligned n
      obtain ⟨total, aligned, -⟩ := allocate_payloads request holds.aligned allocated start
      have bound := holds.bound
      have slot : ∀ b ∈ addresses start cells', b % 32 = start % 32 ∧ b < 2 ^ 64 := by
        intro b isHeader
        have inside := addresses_bound isHeader
        rw [total, holds.total] at inside
        exact ⟨aligned.address isHeader, by omega⟩
      obtain ⟨heap', scanned', view'⟩ := (view_state heap cells slot).mallocScan
        (roundRequest_lt word) walk
        (fun b isHeader => addresses_allocate request holds.aligned allocated isHeader)
        (fun b isHeader => holds.room allocated spares isHeader) scanned
      exact ⟨_, heap', cells', scanned', .granted nonzero allocated,
        holds.of_view view' repr' total aligned (holds.inside_allocate allocated request spares),
        view'.kept⟩

end

theorem Holds.free {before after : List Cell} {cell : Cell}
    (holds : Holds start stop heap (before ++ cell :: after)) :
    Holds start stop (free heap (start + span before + 32)) (release before cell after) ∧
      SameOutside start (before ++ cell :: after) heap (free heap (start + span before + 32)) := by
  have repr := holds.represents
  have listed : start + span before ∈ addresses start (before ++ cell :: after) := by
    simp [addresses_append, addresses]
  have bound := (holds.slot listed).2
  have block : subWord (start + span before + 32) 32 = start + span before := by
    rw [subWord_of_le (by omega) (by omega), Nat.add_sub_cancel]
  have view := view_state heap (before ++ cell :: after) fun b isHeader =>
    ⟨(holds.slot isHeader).1, by have bound := (holds.slot isHeader).2; omega⟩
  have closed : Closed (addresses start (before ++ cell :: after))
      (heap.state start (before ++ cell :: after)) :=
    fun b isHeader => (holds.laid.links isHeader).1
  have view' := view.freeBlock listed closed (holds.laid.links listed).2
  unfold Libc.free
  rw [if_neg (by omega), block]
  constructor
  · apply holds.of_view view' (freeBlock_refines repr) (span_release before cell after)
      holds.aligned.release
    intro payload mem
    apply holds.inside
    rw [payloads_release, List.mem_append] at mem
    rw [payloads_append, payloads, List.mem_append]
    exact mem.imp_right fun later => by split <;> simp [later]
  · exact view'.kept

end Holds

theorem holds_mallocInit (bytes : Buf) (pos : 0 < start)
    (bound : start + (32 + 0x100000) ≤ 2 ^ 39) (low : stop ≤ 2 ^ 39) :
    Holds start stop (mallocInit bytes start stop) [{ size := 0x100000, used := false }] where
  first := rfl
  laid := by
    refine ⟨?_, trivial⟩
    rw [slots, if_pos rfl, mallocInit]
    rw [show (0 : Nat) = Bool.toNat false from rfl, header_setUsed,
      header_setSize _ _ _ (by decide), header_setPrev _ _ _ (by decide),
      header_setNext _ _ _ (by decide)]
    rfl
  total := rfl
  aligned := by simp [Aligned]
  positive := pos
  bound := bound
  limit := ⟨rfl, low⟩
  inside := by simp [payloads]

end Micro.Libc
