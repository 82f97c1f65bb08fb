import Micro.Libc.Sessions

/-!
# Sizes of allocations

Requests are rounded up to a multiple of 32 in 64-bit arithmetic.  The last 31 numbers are
rounded to zero, and any free block takes a request for zero bytes.  `calloc` multiplies its
arguments in the same arithmetic.  All of the lower half is taken as mapped here, so that no
`split` faults at the end of the region.
-/

namespace Micro.Libc

open Lib Heap List Option

variable {n : Nat}

theorem le_roundRequest_iff (word : n < 2 ^ 64) : n ≤ roundRequest n ↔ n ≤ 2 ^ 64 - 32 := by
  constructor
  · unfold roundRequest addWord
    split <;> omega
  · exact le_roundRequest

theorem roundRequest_wrap (word : n < 2 ^ 64) (large : 2 ^ 64 - 32 < n) : roundRequest n = 0 := by
  unfold roundRequest addWord
  split <;> omega

/-- `kmalloc` returns, and when it does not return `NULL` the block has the size asked for. -/
def KmallocSize (heap : HeapState) (n : Nat) : Prop :=
  ∃ ptr heap', kmalloc heap n = some (ptr, heap') ∧ (ptr ≠ 0 → n ≤ (heap'.mem (ptr - 32)).size)

/-- `malloc` returns, and when it does not return `NULL` the block has the size asked for. -/
def MallocSize (heap : LibcHeap) (n : Nat) : Prop :=
  ∃ ptr heap', malloc heap n = some (ptr, heap') ∧ (ptr ≠ 0 → n ≤ heap'.size (ptr - 32))

/-- When `calloc` returns something else than `NULL`, the block has the size asked for and is
cleared. -/
def CallocSize (heap : LibcHeap) (nitems size : Nat) : Prop :=
  ∀ ptr heap', calloc heap nitems size = some (ptr, heap') → ptr ≠ 0 →
    nitems * size ≤ heap'.size (ptr - 32) ∧ ∀ i < nitems * size, heap'.bytes (ptr + i) = 0

section Allocations

variable {start stop : Nat} {cells : List Cell} {heap : LibcHeap} {n : Nat}

theorem rounded_iff {ptr size : Nat} {cells' : List Cell}
    (allocation : Allocation start n cells ptr cells') (word : n < 2 ^ 64) (nonzero : n ≠ 0)
    (rounded : ptr ≠ 0 → size = roundRequest n) :
    (ptr ≠ 0 → n ≤ size) ↔ n ≤ 2 ^ 64 - 32 ∨ allocate 0 cells = none := by
  have same : (ptr ≠ 0 → n ≤ size) ↔ (ptr ≠ 0 → n ≤ roundRequest n) :=
    forall_congr' fun nonnull => by rw [rounded nonnull]
  rw [same, ne_eq, allocation.null_iff, le_roundRequest_iff word]
  by_cases small : n ≤ 2 ^ 64 - 32
  · simp only [small, implies_true, true_or]
  · have wraps := roundRequest_wrap word (by omega)
    simp only [small, wraps, nonzero, imp_false, Classical.not_not]

theorem kmallocSize_iff {session : Heap.Session} (sound : Cells start session cells)
    (word : n < 2 ^ 64) (nonzero : n ≠ 0) :
    KmallocSize session.heap n ↔ n ≤ 2 ^ 64 - 32 ∨ allocate 0 cells = none := by
  obtain ⟨_, _, _, called, allocation, repr⟩ := sound.repr.kmalloc sound.aligned sound.few n
  simp only [KmallocSize, called, some.injEq, Prod.mk.injEq, ↓existsAndEq, true_and]
  apply rounded_iff allocation word nonzero
  intro nonnull
  obtain ⟨-, -, payloads⟩ := allocation.payloads sound.aligned
  rw [if_neg nonnull] at payloads
  obtain ⟨_, -, rfl, size, -⟩ := repr.laid.payload (payloads.mem_iff.mpr mem_cons_self)
  exact size

variable (holds : Holds start stop heap cells) (region : start + (32 + 0x100000) ≤ stop)
include holds region

theorem mallocSize_iff (word : n < 2 ^ 64) (nonzero : n ≠ 0) :
    MallocSize heap n ↔ n ≤ 2 ^ 64 - 32 ∨ Full heap 0 := by
  obtain ⟨_, _, _, called, allocation, holds', -⟩ :=
    holds.malloc word (.inr (holds.spares_of_region region (roundRequest_aligned n)))
  simp only [MallocSize, called, some.injEq, Prod.mk.injEq, ↓existsAndEq, true_and]
  rw [holds.full_iff]
  apply rounded_iff allocation word nonzero
  intro nonnull
  obtain ⟨-, -, payloads⟩ := allocation.payloads holds.aligned
  rw [if_neg nonnull] at payloads
  exact (holds'.size (payloads.mem_iff.mpr mem_cons_self)).2.1

/-- `calloc` does not return when its request was rounded to zero and granted: clearing the
block leaves the address space. -/
theorem calloc_faults {nitems size : Nat} (large : 2 ^ 64 - 32 < nitems * size % 2 ^ 64)
    (granted : allocate (roundRequest (nitems * size % 2 ^ 64)) cells ≠ none) :
    calloc heap nitems size = none := by
  have word : nitems * size % 2 ^ 64 < 2 ^ 64 := Nat.mod_lt _ (by decide)
  rw [calloc]
  generalize nitems * size % 2 ^ 64 = n at large granted word ⊢
  obtain ⟨ptr, _, _, called, allocation, holds', -⟩ :=
    holds.malloc word (.inr (holds.spares_of_region region (roundRequest_aligned n)))
  have nonnull : ptr ≠ 0 := by
    rw [ne_eq, allocation.null_iff]
    simp only [granted, or_false]
    omega
  simp only [called, bind_eq_bind, bind_some, if_neg nonnull, memset]
  have limit := holds'.limit
  rw [if_neg (by omega), bind_none]

theorem callocSize_iff (nitems size : Nat) :
    CallocSize heap nitems size ↔
      nitems * size < 2 ^ 64 ∨ nitems * size % 2 ^ 64 = 0 ∨
        2 ^ 64 - 32 < nitems * size % 2 ^ 64 ∨
        Full heap (roundRequest (nitems * size % 2 ^ 64)) := by
  rw [holds.full_iff]
  by_cases careful : nitems * size % 2 ^ 64 ≤ 2 ^ 64 - 32 ∨
      allocate (roundRequest (nitems * size % 2 ^ 64)) cells = none
  · obtain ⟨ptr, heap', _, called, allocation, holds', cleared⟩ := holds.calloc
      (.inr (holds.spares_of_region region (roundRequest_aligned _))) careful
    have null := allocation.null_iff
    have rounded : ptr ≠ 0 → heap'.size (ptr - 32) = roundRequest (nitems * size % 2 ^ 64) := by
      intro nonnull
      obtain ⟨-, -, payloads⟩ := allocation.payloads holds.aligned
      rw [if_neg nonnull] at payloads
      exact (holds'.size (payloads.mem_iff.mpr mem_cons_self)).2.1
    have word := roundRequest_lt (Nat.mod_lt (nitems * size) (by decide : 0 < 2 ^ 64))
    constructor
    · intro sized
      by_contra unmet
      simp only [not_or] at unmet
      obtain ⟨_, pos, -, granted⟩ := unmet
      have nonnull : ptr ≠ 0 := fun isNull => (null.mp isNull).elim pos granted
      have large := (sized ptr heap' called nonnull).1
      omega
    · rintro condition _ _ calledOther nonnull
      rw [called] at calledOther
      cases calledOther
      have granted := (not_congr null).mp nonnull
      simp only [not_or] at granted
      have small := careful.resolve_right granted.2
      have exactly : nitems * size < 2 ^ 64 := by
        simp only [granted.2, or_false] at condition
        omega
      rw [rounded nonnull]
      rw [Nat.mod_eq_of_lt exactly] at small cleared ⊢
      exact ⟨le_roundRequest small, cleared nonnull⟩
  · simp only [not_or, Nat.not_le] at careful
    have faults := calloc_faults holds region careful.1 careful.2
    simp only [CallocSize, faults, reduceCtorEq, false_implies, implies_true, careful.1, true_or,
      or_true]

end Allocations

/-- After every history of allocations and of frees of live pointers, `kmalloc(n)` keeps its
size guarantee exactly when `n` is not among the last 31 numbers or no block is free, and
likewise `malloc` after every history of a careful program; `calloc` keeps it exactly when the
product does not overflow, or when it overflows to zero, to one of the last 31 numbers, or to
more than any free block has. -/
theorem allocation_size_iff (memory : Nat → Block) (kstart : Nat) (kpositive : 0 < kstart)
    (kregion : kstart + (32 + 10000 * 4096) < 2 ^ 64) (kcalls : List Heap.Call)
    (disciplined : Permitted Heap.Session.call Disciplined (Heap.initial memory kstart) kcalls)
    (bytes : Buf) (start : Nat) (positive : 0 < start) (region : start + (32 + 0x100000) ≤ 2 ^ 39)
    (calls : List Call)
    (careful : Permitted Session.call Careful (initial bytes start (2 ^ 39)) calls) :
    (∃ session blocks, drive Heap.Session.call (Heap.initial memory kstart) kcalls = some session ∧
        Walk session.heap.mem session.heap.first blocks ∧
        ∀ n : UInt64, 0 < n → (KmallocSize session.heap n.toNat ↔
          n.toNat ≤ 2 ^ 64 - 32 ∨ ∀ block ∈ blocks, (session.heap.mem block).used = true)) ∧
    ∃ session, drive Session.call (initial bytes start (2 ^ 39)) calls = some session ∧
      (∀ n : UInt64, 0 < n → (MallocSize session.heap n.toNat ↔
        n.toNat ≤ 2 ^ 64 - 32 ∨ Full session.heap 0)) ∧
      ∀ nitems size : UInt64, (CallocSize session.heap nitems.toNat size.toNat ↔
        nitems.toNat * size.toNat < 2 ^ 64 ∨ nitems.toNat * size.toNat % 2 ^ 64 = 0 ∨
          2 ^ 64 - 32 < nitems.toNat * size.toNat % 2 ^ 64 ∨
          Full session.heap (roundRequest (nitems.toNat * size.toNat % 2 ^ 64))) := by
  constructor
  · obtain ⟨session, cells, driven, sound⟩ := disciplined_run memory kpositive kregion disciplined
    refine ⟨session, addresses kstart cells, driven, sound.repr.walk, fun n nonzero => ?_⟩
    rw [kmallocSize_iff sound n.toNat_lt (Nat.ne_of_gt nonzero), ← sound.repr.laid.full_iff]
    simp
  · obtain ⟨session, cells, driven, sound⟩ := confined_run bytes positive region (Nat.le_refl _)
      (fun _ _ _ sound careful => ⟨careful, .inr (sound.holds.spares_of_region region
        (roundRequest_aligned _))⟩) careful
    refine ⟨session, driven, fun n nonzero => ?_, fun nitems size => ?_⟩
    · exact mallocSize_iff sound.holds region n.toNat_lt (Nat.ne_of_gt nonzero)
    · exact callocSize_iff sound.holds region nitems.toNat size.toNat

/-- One request to the kernel's heap and one to the heap of a program. -/
theorem allocation_size_requests :
    (∃ session blocks, drive Heap.Session.call (Heap.initial blankMemory 0xffffffffc0000000)
          [.kmalloc 100] = some session ∧
        Walk session.heap.mem session.heap.first blocks ∧
        ∀ n : UInt64, 0 < n → (KmallocSize session.heap n.toNat ↔
          n.toNat ≤ 2 ^ 64 - 32 ∨ ∀ block ∈ blocks, (session.heap.mem block).used = true)) ∧
    ∃ session, drive Session.call (initial (fun _ => 0) 0x100000 (2 ^ 39)) [.malloc 100] =
        some session ∧
      (∀ n : UInt64, 0 < n → (MallocSize session.heap n.toNat ↔
        n.toNat ≤ 2 ^ 64 - 32 ∨ Full session.heap 0)) ∧
      ∀ nitems size : UInt64, (CallocSize session.heap nitems.toNat size.toNat ↔
        nitems.toNat * size.toNat < 2 ^ 64 ∨ nitems.toNat * size.toNat % 2 ^ 64 = 0 ∨
          2 ^ 64 - 32 < nitems.toNat * size.toNat % 2 ^ 64 ∨
          Full session.heap (roundRequest (nitems.toNat * size.toNat % 2 ^ 64))) :=
  allocation_size_iff blankMemory 0xffffffffc0000000 (by decide) (by decide) [.kmalloc 100]
    ⟨trivial, fun _ _ => trivial⟩ (fun _ => 0) 0x100000 (by decide) (by decide) [.malloc 100]
    ⟨trivial, fun _ _ => trivial⟩

/-- On fresh heaps a request for the largest number gets a block of size zero, and a `calloc`
of twice 2^63 + 32 bytes one of 64 bytes. -/
theorem allocation_too_small :
    ¬ KmallocSize (Heap.initial blankMemory 0xffffffffc0000000).heap (2 ^ 64 - 1) ∧
    ¬ MallocSize (initial (fun _ => 0) 0x100000 (2 ^ 39)).heap (2 ^ 64 - 1) ∧
    ¬ CallocSize (initial (fun _ => 0) 0x100000 (2 ^ 39)).heap (2 ^ 63 + 32) 2 := by
  refine ⟨?_, ?_, ?_⟩
  · rintro ⟨ptr, heap', called, size⟩
    have facts : (kmalloc (Heap.initial blankMemory 0xffffffffc0000000).heap (2 ^ 64 - 1)).map
        (fun done => (done.1, (done.2.mem (done.1 - 32)).size)) =
          some (0xffffffffc0000020, 0) := by decide +kernel
    simp only [called, map_some, some.injEq, Prod.mk.injEq] at facts
    rw [facts.2] at size
    exact absurd (size (by simp [facts.1])) (by decide)
  · rintro ⟨ptr, heap', called, size⟩
    have facts : (malloc (initial (fun _ => 0) 0x100000 (2 ^ 39)).heap (2 ^ 64 - 1)).map
        (fun done => (done.1, done.2.size (done.1 - 32))) = some (0x100020, 0) := by
      decide +kernel
    simp only [called, map_some, some.injEq, Prod.mk.injEq] at facts
    rw [facts.2] at size
    exact absurd (size (by simp [facts.1])) (by decide)
  · intro sized
    have facts : (calloc (initial (fun _ => 0) 0x100000 (2 ^ 39)).heap (2 ^ 63 + 32) 2).map
        (fun done => (done.1, done.2.size (done.1 - 32))) = some (0x100020, 64) := by
      decide +kernel
    obtain ⟨⟨ptr, heap'⟩, called, values⟩ := map_eq_some_iff.mp facts
    simp only [Prod.mk.injEq] at values
    have small := (sized ptr heap' called (by simp [values.1])).1
    rw [values.2] at small
    exact absurd small (by decide)

end Micro.Libc
