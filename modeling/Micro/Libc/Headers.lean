import Micro.Heap.Payloads
import Micro.Libc.Malloc

/-!
# Headers in memory

Headers stand at addresses that agree modulo 32, so memory is cut into slots of 32 bytes and
each header has a slot of its own.  Read slot by slot, the memory of the program is the header
memory of the kernel's allocator, and the functions of `malloc.c` do to it what those of
`heap.c` do.
-/

namespace Micro.Libc

open Lib Heap Function

variable {state : HeapState} {change : Block → Block} {b1 b2 n : Nat}

/-- The `struct block` at an address. -/
def LibcHeap.header (heap : LibcHeap) (b : Nat) : Block where
  next := heap.next b
  prev := heap.prev b
  used := heap.used b != 0
  size := heap.size b

theorem header_eq (heap : LibcHeap) (b : Nat) : heap.header b =
    ⟨le64 heap.bytes b, le64 heap.bytes (b + 8), le32 heap.bytes (b + 16) != 0,
      le64 heap.bytes (b + 24)⟩ := rfl

theorem header_congr {heap other : LibcHeap} {b : Nat}
    (same : ∀ k, b ≤ k → k < b + 32 → heap.bytes k = other.bytes k) :
    heap.header b = other.header b := by
  rw [header_eq, header_eq, le64_congr fun k low high => same k (by omega) (by omega),
    le64_congr fun k low high => same k (by omega) (by omega),
    le32_congr fun k low high => same k (by omega) (by omega),
    le64_congr fun k low high => same k (by omega) (by omega)]

section Fields

variable (heap : LibcHeap) (b value : Nat)

theorem header_setNext (small : value < 2 ^ 64) :
    (heap.setNext b value).header b = { heap.header b with next := value } := by
  rw [header_eq, header_eq, LibcHeap.setNext, LibcHeap.write, le64_put_self,
    Nat.mod_eq_of_lt small, le64_put_outside (by simp), le32_put_outside (by simp),
    le64_put_outside (by simp)]

theorem header_setPrev (small : value < 2 ^ 64) :
    (heap.setPrev b value).header b = { heap.header b with prev := value } := by
  rw [header_eq, header_eq, LibcHeap.setPrev, LibcHeap.write, le64_put_self,
    Nat.mod_eq_of_lt small, le64_put_outside (by simp), le32_put_outside (by simp),
    le64_put_outside (by simp)]

theorem header_setSize (small : value < 2 ^ 64) :
    (heap.setSize b value).header b = { heap.header b with size := value } := by
  rw [header_eq, header_eq, LibcHeap.setSize, LibcHeap.write, le64_put_self,
    Nat.mod_eq_of_lt small, le64_put_outside (by simp), le64_put_outside (by simp),
    le32_put_outside (by simp)]

theorem header_setUsed (used : Bool) :
    (heap.setUsed b used.toNat).header b = { heap.header b with used := used } := by
  rw [header_eq, header_eq, LibcHeap.setUsed, LibcHeap.write, le32_put_self,
    le64_put_outside (by simp), le64_put_outside (by simp), le64_put_outside (by simp)]
  cases used <;> rfl

end Fields

def slots (base : Nat) (heap : LibcHeap) : Nat → Block := fun b =>
  if b % 32 = base % 32 then heap.header b
  else { next := 0, prev := 0, used := false, size := 0 }

/-- A heap is read as a state of the kernel's allocator, and differs from `before` only in the
slots of `headers`.  What `last` points to does not matter, since `malloc.c` never reads it. -/
structure View (base : Nat) (headers : List Nat) (before heap : LibcHeap)
    (state : HeapState) : Prop where
  mem : state.mem = slots base heap
  first : state.first = heap.first
  kept : ∀ k, (∀ b ∈ headers, k < b ∨ b + 32 ≤ k) → heap.bytes k = before.bytes k
  stop : heap.stop = before.stop
  slot : ∀ b ∈ headers, b % 32 = base % 32 ∧ b < 2 ^ 64

section View

variable {base b : Nat} {headers : List Nat} {before heap : LibcHeap} {blocks : List Nat}
  {value : Nat} {mem : Nat → Block}

section

variable (view : View base headers before heap state)
include view

variable (listed : b ∈ headers)
include listed

theorem View.header : state.mem b = heap.header b := by
  rw [view.mem, slots, if_pos (view.slot b listed).1]

theorem View.next : heap.next b = (state.mem b).next := by
  rw [view.header listed, LibcHeap.header]

theorem View.prev : heap.prev b = (state.mem b).prev := by
  rw [view.header listed, LibcHeap.header]

theorem View.used : heap.used b = 0 ↔ (state.mem b).used = false := by
  rw [view.header listed, LibcHeap.header]
  simp

theorem View.size : heap.size b = (state.mem b).size := by
  rw [view.header listed, LibcHeap.header]

end

theorem View.write (view : View base headers before heap state) (listed : b ∈ headers) {i : Nat}
    {values : List UInt8} (inside : i + values.length ≤ 32)
    (changed : (heap.write (b + i) values).header b = change (heap.header b)) :
    View base headers before (heap.write (b + i) values) (state.assign b change) where
  mem := by
    have slot := (view.slot b listed).1
    funext a
    rw [assign_mem, slots]
    by_cases same : a = b
    · subst same
      rw [update_self, if_pos slot, changed, view.header listed]
    · rw [update_of_ne same, view.mem, slots]
      split_ifs with isSlot
      · apply header_congr
        intro k _ _
        exact (put_outside (by omega)).symm
      · rfl
  first := view.first
  kept := by
    intro k outside
    have apart := outside b listed
    exact (put_outside (by omega)).trans (view.kept k outside)
  stop := view.stop
  slot := view.slot

section

variable (view : View base headers before heap state)
include view

variable (listed : b ∈ headers)
include listed

theorem View.setNext (small : value < 2 ^ 64) :
    View base headers before (heap.setNext b value)
      (state.assign b fun block => { block with next := value }) :=
  @View.write _ _ _ _ _ _ _ view listed 0 _ (by simp) (header_setNext heap b value small)

theorem View.setPrev (small : value < 2 ^ 64) :
    View base headers before (heap.setPrev b value)
      (state.assign b fun block => { block with prev := value }) :=
  view.write listed (by simp) (header_setPrev heap b value small)

theorem View.setSize (small : value < 2 ^ 64) :
    View base headers before (heap.setSize b value)
      (state.assign b fun block => { block with size := value }) :=
  view.write listed (by simp) (header_setSize heap b value small)

theorem View.setUsed (used : Bool) :
    View base headers before (heap.setUsed b used.toNat)
      (state.assign b fun block => { block with used := used }) :=
  view.write listed (by simp) (header_setUsed heap b used)

/-- The last statement of `combine` and `split`: relink the block behind, or move `last`. -/
theorem View.relink (link : (state.mem b).next = 0 ∨ (state.mem b).next ∈ headers) :
    View base headers before
      (if heap.next b ≠ 0 then heap.setPrev (heap.next b) b else { heap with last := b })
      (if (state.mem b).next ≠ 0 then
        state.assign (state.mem b).next fun block => { block with prev := b }
      else { state with last := b }) := by
  rw [view.next listed]
  by_cases last : (state.mem b).next = 0
  · rw [if_neg (not_not.mpr last), if_neg (not_not.mpr last)]
    exact ⟨view.mem, view.first, view.kept, view.stop, view.slot⟩
  · rw [if_pos last, if_pos last]
    exact view.setPrev (link.resolve_left last) (view.slot b listed).2

end

theorem assign_next {a : Nat} (kept : ∀ block, (change block).next = block.next) (b : Nat) :
    ((state.assign a change).mem b).next = (state.mem b).next := by
  rw [assign_mem]
  by_cases same : b = a
  · subst same
    rw [update_self, kept]
  · rw [update_of_ne same]

theorem View.combine (view : View base headers before heap state) (listed1 : b1 ∈ headers)
    (listed2 : b2 ∈ headers) (link : (state.mem b2).next = 0 ∨ (state.mem b2).next ∈ headers) :
    View base headers before (combine heap b1 b2) (Heap.combine state b1 b2) := by
  have sized : View base headers before
      (heap.setSize b1 (addWord (heap.size b1) (addWord (heap.size b2) 32)))
      (state.assign b1 fun block =>
        { block with size := addWord block.size (addWord (state.mem b2).size 32) }) := by
    rw [view.size listed1, view.size listed2]
    exact view.setSize listed1 (Nat.mod_lt _ (by decide))
  have sameNext : ((state.assign b1 fun block =>
      { block with size := addWord block.size (addWord (state.mem b2).size 32) }).mem b2).next =
        (state.mem b2).next := by
    apply assign_next
    exact fun _ => rfl
  unfold Libc.combine Heap.combine
  generalize heap.setSize b1 _ = heap1 at sized ⊢
  generalize state.assign b1 _ = state1 at sized sameNext ⊢
  have linked : View base headers before (heap1.setNext b1 (heap1.next b2))
      (state1.assign b1 fun block => { block with next := (state1.mem b2).next }) := by
    have small : (state1.mem b2).next < 2 ^ 64 := sized.next listed2 ▸ le64_lt
    rw [sized.next listed2]
    exact sized.setNext listed1 small
  apply linked.relink listed1
  rw [assign_mem, update_self, sameNext]
  exact link

theorem header_cleared (heap : LibcHeap) (b : Nat) :
    (heap.write b (List.replicate 32 0)).header b =
      { next := 0, prev := 0, used := false, size := 0 } := by
  have zeros : (heap.write b (List.replicate 32 0)).header b =
      ({ heap with bytes := fun _ => 0 } : LibcHeap).header b := by
    apply header_congr
    intro k low _
    obtain ⟨i, rfl⟩ := Nat.exists_eq_add_of_le low
    exact put_inside (by rw [List.getElem?_replicate, if_pos (by omega)])
  rw [zeros]
  rfl

theorem update_alternating {new : Nat} (apart : new ≠ b) (first second third fourth fifth : Block) :
    update (update (update (update
      (update mem new first) b second) new third) b fourth) new fifth =
        update (update mem b fourth) new fifth := by
  funext a
  by_cases atNew : a = new
  · subst atNew
    simp only [update_self]
  · by_cases atOld : a = b
    · subst atOld
      simp only [update_of_ne atNew, update_self]
    · simp only [update_of_ne atNew, update_of_ne atOld]

/-- `split` of the C library clears the slot of the new header first; all its fields are assigned
afterwards. -/
theorem View.split (view : View base headers before heap state) (listed : b ∈ headers)
    (newListed : addWord (addWord b 32) n ∈ headers) (apart : addWord (addWord b 32) n ≠ b)
    (request : n < 2 ^ 64) (inside : addWord (addWord b 32) n + 32 ≤ heap.stop)
    (link : (state.mem b).next = 0 ∨ (state.mem b).next ∈ headers) :
    ∃ heap', split heap b n = some heap' ∧ View base headers before heap' (Heap.split state b n) := by
  unfold Libc.split Heap.split memset
  dsimp only
  rw [if_pos inside, Option.bind_eq_bind, Option.bind_some]
  refine ⟨_, rfl, ?_⟩
  generalize addWord (addWord b 32) n = new at apart newListed ⊢
  have newSmall := (view.slot new newListed).2
  have cleared := @View.write _ (fun _ => _) _ _ _ _ _ view newListed 0 _ (by simp) (header_cleared
      heap new)
  generalize heap.write new (List.replicate 32 0) = heap0 at cleared ⊢
  have marked := cleared.setUsed newListed false
  rw [Bool.toNat_false] at marked
  generalize heap0.setUsed new 0 = heap1 at marked ⊢
  have sizeSmall : subWord (subWord (heap1.size b) n) 32 < 2 ^ 64 := Nat.mod_lt _ (by decide)
  have sized := marked.setSize newListed sizeSmall
  rw [marked.size listed] at sized ⊢
  generalize heap1.setSize new _ = heap2 at sized ⊢
  have cut := sized.setSize listed request
  generalize heap2.setSize b n = heap3 at cut ⊢
  have nextSmall : heap3.next b < 2 ^ 64 := le64_lt
  have linked := cut.setNext newListed nextSmall
  rw [cut.next listed] at linked ⊢
  generalize heap3.setNext new _ = heap4 at linked ⊢
  have linkedNew := linked.setNext listed newSmall
  generalize heap4.setNext b new = heap5 at linkedNew ⊢
  have back := linkedNew.setPrev newListed (view.slot b listed).2
  generalize heap5.setPrev new b = heap6 at back ⊢
  refine View.relink ⟨?_, back.first, back.kept, back.stop, back.slot⟩ newListed ?_
  · rw [← back.mem]
    simp only [assign_mem, update_self, update_of_ne apart,
      update_of_ne apart.symm, update_idem, update_alternating apart]
  · simpa only [assign_mem, update_self, update_of_ne apart, update_of_ne apart.symm] using link

theorem combine_next (state : HeapState) (b1 b2 b : Nat) :
    ((Heap.combine state b1 b2).mem b).next =
      if b = b1 then (state.mem b2).next else (state.mem b).next := by
  have relinked : ∀ state : HeapState, ((if (state.mem b1).next ≠ 0 then
      state.assign (state.mem b1).next fun block => { block with prev := b1 }
      else { state with last := b1 } : HeapState).mem b).next = (state.mem b).next := by
    intro state
    split
    · apply assign_next
      exact fun _ => rfl
    · rfl
  have sized : ∀ b, ((state.assign b1 fun block =>
      { block with size := addWord block.size (addWord (state.mem b2).size 32) }).mem b).next =
        (state.mem b).next := by
    apply assign_next
    exact fun _ => rfl
  unfold Heap.combine
  rw [relinked, assign_mem]
  by_cases same : b = b1
  · subst same
    rw [update_self, if_pos rfl, sized]
  · rw [update_of_ne same, if_neg same, sized]

/-- `next` leads from a listed header to another one. -/
def Closed (headers : List Nat) (state : HeapState) : Prop :=
  ∀ b ∈ headers, (state.mem b).next = 0 ∨ (state.mem b).next ∈ headers

theorem Closed.combine (closed : Closed headers state) (listed : b2 ∈ headers) :
    Closed headers (Heap.combine state b1 b2) := by
  intro b isListed
  rw [combine_next]
  split
  · exact closed b2 listed
  · exact closed b isListed

section

variable (view : View base headers before heap state) (listed : b ∈ headers)
  (closed : Closed headers state)
include view listed closed

theorem View.combineNext :
    View base headers before (combineNext heap b) (Heap.combineNext state b) := by
  unfold Libc.combineNext Heap.combineNext
  rw [view.next listed]
  rcases closed b listed with last | nextListed
  · simp only [last]
    exact view
  · simp only [view.used nextListed]
    split
    · exact view.combine listed nextListed (closed _ nextListed)
    · exact view

theorem View.freeBlock (prevListed : (state.mem b).prev = 0 ∨ (state.mem b).prev ∈ headers) :
    View base headers before (freeBlock heap b) (Heap.freeBlock state b) := by
  have cleared := view.setUsed listed false
  have closedCleared : Closed headers (state.assign b fun header => { header with used := false }) := by
    intro a isListed
    rw [@assign_next state (fun header => { header with used := false }) b (fun _ => rfl) a]
    exact closed a isListed
  have samePrev : ((state.assign b fun header => { header with used := false }).mem b).prev =
      (state.mem b).prev := by
    rw [assign_mem, update_self]
  unfold Libc.freeBlock Heap.freeBlock
  dsimp only
  rw [Bool.toNat_false] at cleared
  rw [← samePrev] at prevListed
  generalize heap.setUsed b 0 = heap1 at cleared ⊢
  generalize state.assign b _ = state1 at cleared closedCleared prevListed ⊢
  rw [cleared.prev listed]
  rcases prevListed with isFirst | prevListed
  · simp only [isFirst]
    exact cleared.combineNext listed closedCleared
  · simp only [cleared.used prevListed]
    split
    · have merged := cleared.combine prevListed listed (closedCleared b listed)
      exact merged.combineNext prevListed (closedCleared.combine listed)
    · exact cleared.combineNext listed closedCleared

end

theorem walk_link (walk : Walk mem b blocks) : b = 0 ∨ b ∈ blocks := by
  cases walk with
  | stop => exact .inl rfl
  | visit _ _ => exact .inr List.mem_cons_self

/-- The search finds the block that the search of the kernel finds. -/
theorem View.mallocScan {fuel curr ptr : Nat} {state' : HeapState}
    (view : View base headers before heap state) (request : n < 2 ^ 64)
    (walk : Walk state.mem curr blocks) (listed : ∀ b ∈ blocks, b ∈ headers)
    (room : ∀ b ∈ blocks, ptr = addWord b 32 → n < (state.mem b).size →
      addWord (addWord b 32) n ∈ headers ∧ addWord (addWord b 32) n ≠ b ∧
        addWord (addWord b 32) n + 32 ≤ heap.stop)
    (scanned : kmallocScan state n fuel curr = some (ptr, state')) :
    ∃ heap', mallocScan heap n fuel curr = some (ptr, heap') ∧
      View base headers before heap' state' := by
  induction fuel generalizing curr blocks with
  | zero => cases scanned
  | succ fuel ih =>
    unfold kmallocScan at scanned
    unfold Libc.mallocScan
    cases walk with
    | stop =>
      cases scanned
      exact ⟨heap, rfl, view⟩
    | visit nonnull walk =>
      simp only [List.forall_mem_cons] at listed room
      obtain ⟨here, listed⟩ := listed
      have link : (state.mem curr).next = 0 ∨ (state.mem curr).next ∈ headers :=
        (walk_link walk).imp_right (listed _)
      rw [if_neg nonnull] at scanned ⊢
      simp only [view.used here, view.size here, view.next here]
      split at scanned
      · rename_i fits
        rw [if_pos fits]
        cases scanned
        obtain ⟨newListed, apart, inside⟩ := room.1 rfl fits.2
        obtain ⟨heap', cut, viewCut⟩ := view.split here newListed apart request inside link
        rw [cut]
        exact ⟨_, rfl, viewCut.setUsed here true⟩
      · rename_i larger
        rw [if_neg larger]
        split at scanned
        · rename_i exactly
          rw [if_pos exactly]
          cases scanned
          exact ⟨_, rfl, view.setUsed here true⟩
        · rename_i other
          rw [if_neg other]
          exact ih walk listed room.2 scanned

end View

end Micro.Libc
