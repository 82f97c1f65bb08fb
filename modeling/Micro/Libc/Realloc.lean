import Micro.Libc.Cells

/-!
# Reallocation

`realloc` allocates a new block, copies the old payload as a whole and frees the old block.
When the new block is smaller the copy runs over what stands behind it; when it is large enough
the cells stay intact.
-/

namespace Micro.Libc

open Lib Heap List Option Function

theorem copyBytes_outside {n dst src k : Nat} {bytes : Buf} (outside : k < dst ∨ dst + n ≤ k) :
    copyBytes n bytes dst src k = bytes k := by
  induction n generalizing bytes dst src with
  | zero => rfl
  | succ n ih =>
    rw [copyBytes, ih (by omega), update_of_ne (by omega)]

theorem copyBytes_inside {n dst src i : Nat} {bytes : Buf} (apart : src + n ≤ dst ∨ dst + n ≤ src)
    (inside : i < n) : copyBytes n bytes dst src (dst + i) = bytes (src + i) := by
  induction n generalizing bytes dst src i with
  | zero => omega
  | succ n ih =>
    rw [copyBytes]
    cases i with
    | zero => rw [copyBytes_outside (by omega), Nat.add_zero, Nat.add_zero, update_self]
    | succ i =>
      have step := @ih (dst + 1) (src + 1) i (update bytes dst (bytes src)) (by omega) (by omega)
      rw [Nat.add_right_comm, Nat.add_right_comm src, update_of_ne (by omega)] at step
      exact step

theorem le_roundRequest {n : Nat} (small : n ≤ 2 ^ 64 - 32) : n ≤ roundRequest n := by
  unfold roundRequest
  split
  · unfold addWord
    omega
  · exact Nat.le_refl n

section Specifications

variable {start stop : Nat} {heap heap' : LibcHeap} {cells cells' : List Cell}

theorem mem_usedAt_iff {ptr : Nat} :
    ptr ∈ usedAt start cells ↔ ∃ size, (ptr, size) ∈ payloads start cells := by
  simp [usedAt_eq]

variable (holds : Holds start stop heap cells)
include holds

theorem Holds.nodup : (usedAt start cells).Nodup := by
  apply holds.laid.pairwise.imp
  omega

theorem Holds.free_payload {payload : Nat × Nat} (mem : payload ∈ payloads start cells) :
    ∃ cells', (payloads start cells).Perm (payload :: payloads start cells') ∧
      ∀ other, Holds start stop other cells →
        Holds start stop (Libc.free other payload.1) cells' ∧
          SameOutside start cells other (Libc.free other payload.1) := by
  obtain ⟨before, cell, after, rfl, used, rfl⟩ := mem_payloads mem
  refine ⟨release before cell after, ?_, fun other holdsOther => holdsOther.free⟩
  rw [payloads_release, payloads_append, payloads, if_pos used]
  exact perm_middle

theorem Holds.memcpy {old new : Nat × Nat} (oldIn : old ∈ payloads start cells)
    (newIn : new ∈ payloads start cells) (ne : old.1 ≠ new.1) (fits : old.2 ≤ new.2) :
    ∃ heap', Libc.memcpy heap new.1 old.1 old.2 = some heap' ∧ Holds start stop heap' cells ∧
      (∀ i < old.2, heap'.bytes (new.1 + i) = heap.bytes (old.1 + i)) ∧
      ∀ payload ∈ payloads start cells, payload.1 ≠ new.1 → SamePayload heap heap' payload := by
  have oldBound := holds.payload_bound oldIn
  have newBound := holds.payload_bound newIn
  have apart := payloads_apart oldIn newIn ne
  rw [Libc.memcpy, if_pos ⟨by omega, oldBound.2.1⟩]
  refine ⟨_, rfl, ?_, ?_, ?_⟩
  · apply holds.write newIn (by rfl) (by rfl)
    intro k _
    exact copyBytes_outside (by omega)
  · intro i inside
    exact copyBytes_inside (by omega) inside
  · intro payload isPayload other i inside
    have apart := payloads_apart isPayload newIn other
    exact copyBytes_outside (by omega)

/-- What `realloc` of a pointer in use can do. -/
inductive Reallocation (start stop : Nat) (heap heap' : LibcHeap) (cells : List Cell)
    (old : Nat × Nat) (n : Nat) : Nat → List Cell → Prop where
  | refused (kept : ∀ payload ∈ payloads start cells, SamePayload heap heap' payload) :
      Reallocation start stop heap heap' cells old n 0 cells
  | moved {new : Nat} {plain : LibcHeap} {cells' : List Cell}
      (nonnull : new ≠ 0)
      (allocated : malloc heap n = some (new, plain))
      (released : Holds start stop (free plain old.1) cells')
      (exchanged : ((new, roundRequest n) :: payloads start cells).Perm
        (old :: payloads start cells'))
      (gone : old.1 ∉ usedAt start cells')
      (copied : ∀ i < old.2, heap'.bytes (new + i) = heap.bytes (old.1 + i))
      (kept : ∀ payload ∈ payloads start cells, payload.1 ≠ old.1 →
        SamePayload heap heap' payload) :
      Reallocation start stop heap heap' cells old n new cells'

/-- `realloc` returns and keeps the cells intact unless it copies more than the new block
takes. -/
theorem Holds.realloc {old : Nat × Nat} {n : Nat} (mem : old ∈ payloads start cells)
    (word : n < 2 ^ 64) (nonzero : n ≠ 0) (spares : Spares heap (roundRequest n))
    (careful : old.2 ≤ roundRequest n ∨ allocate (roundRequest n) cells = none) :
    ∃ new heap' cells', Libc.realloc heap old.1 n = some (new, heap') ∧
      Holds start stop heap' cells' ∧ Reallocation start stop heap heap' cells old n new cells' := by
  obtain ⟨new, plain, granted, called, allocation, holdsPlain, same⟩ := holds.malloc word (.inr spares)
  simp only [Libc.realloc, if_neg nonzero, called, bind_eq_bind, bind_some]
  cases allocation with
  | refused =>
    refine ⟨0, plain, cells, if_pos rfl, holdsPlain, .refused fun payload isPayload => ?_⟩
    exact same.payload isPayload
  | @granted offset _ _ allocated =>
    have fits := careful.resolve_right (by simp [allocated])
    obtain ⟨-, -, perm⟩ := allocate_payloads (roundRequest_aligned n) holds.aligned allocated start
    generalize start + offset + 32 = new at called perm ⊢
    have newPayload := perm.mem_iff.mpr mem_cons_self
    have stays : ∀ payload ∈ payloads start cells, payload ∈ payloads start granted :=
      fun payload isPayload => perm.mem_iff.mpr (mem_cons_of_mem _ isPayload)
    have fresh : ∀ payload ∈ payloads start cells, payload.1 ≠ new := by
      intro payload isPayload same
      have nodup := holdsPlain.nodup
      rw [usedAt_eq, (perm.map Prod.fst).nodup_iff, map_cons, nodup_cons] at nodup
      exact nodup.1 (mem_map.mpr ⟨payload, isPayload, same⟩)
    have newBound := holdsPlain.payload_bound newPayload
    have oldBound := holds.payload_bound mem
    have oldSize := (holdsPlain.size (stays old mem)).2.1
    have pointer : subWord old.1 32 = old.1 - 32 := subWord_of_le (by omega) (by omega)
    obtain ⟨filled, copy, holdsFilled, copied, others⟩ :=
      holdsPlain.memcpy (stays old mem) newPayload (fresh old mem) fits
    obtain ⟨released, exchanged, frees⟩ := holdsPlain.free_payload (stays old mem)
    obtain ⟨holdsFreed, sameFreed⟩ := frees filled holdsFilled
    have gone : old.1 ∉ usedAt start released := by
      have nodup := holdsPlain.nodup
      rw [usedAt_eq, (exchanged.map Prod.fst).nodup_iff, map_cons, nodup_cons, ← usedAt_eq] at nodup
      exact nodup.1
    rw [if_neg (by omega), if_neg (by omega), pointer, oldSize, copy]
    refine ⟨new, _, released, rfl, holdsFreed, .moved (by omega) called
      (frees plain holdsPlain).1 (perm.symm.trans exchanged) gone ?_ ?_⟩
    · intro i inside
      calc (Libc.free filled old.1).bytes (new + i)
          = filled.bytes (new + i) := sameFreed.payload newPayload i (by omega)
        _ = plain.bytes (old.1 + i) := copied i inside
        _ = heap.bytes (old.1 + i) := same.payload (stays old mem) i inside
    · intro payload isPayload _ i inside
      calc (Libc.free filled old.1).bytes (payload.1 + i)
          = filled.bytes (payload.1 + i) := sameFreed.payload (stays payload isPayload) i inside
        _ = plain.bytes (payload.1 + i) :=
            others payload (stays payload isPayload) (fresh payload isPayload) i inside
        _ = heap.bytes (payload.1 + i) := same.payload (stays payload isPayload) i inside

/-- `calloc` returns and keeps the cells intact unless the request is rounded to zero. -/
theorem Holds.calloc {nitems size : Nat}
    (spares : nitems * size % 2 ^ 64 = 0 ∨ Spares heap (roundRequest (nitems * size % 2 ^ 64)))
    (careful : nitems * size % 2 ^ 64 ≤ 2 ^ 64 - 32 ∨
      allocate (roundRequest (nitems * size % 2 ^ 64)) cells = none) :
    ∃ ptr heap' cells', Libc.calloc heap nitems size = some (ptr, heap') ∧
      Allocation start (nitems * size % 2 ^ 64) cells ptr cells' ∧ Holds start stop heap' cells' ∧
      (ptr ≠ 0 → ∀ i < nitems * size % 2 ^ 64, heap'.bytes (ptr + i) = 0) := by
  have word : nitems * size % 2 ^ 64 < 2 ^ 64 := Nat.mod_lt _ (by decide)
  rw [Libc.calloc]
  generalize nitems * size % 2 ^ 64 = n at spares careful word ⊢
  obtain ⟨ptr, plain, granted, called, allocation, holdsPlain, -⟩ := holds.malloc word spares
  simp only [called, bind_eq_bind, bind_some]
  cases allocation with
  | refused reason =>
    exact ⟨0, plain, cells, if_pos rfl, .refused reason, holdsPlain, fun null => absurd rfl null⟩
  | granted nonzero allocated =>
    have fits := le_roundRequest (careful.resolve_right (by simp [allocated]))
    obtain ⟨-, -, perm⟩ := allocate_payloads (roundRequest_aligned n) holds.aligned allocated start
    have payload := perm.mem_iff.mpr mem_cons_self
    have bound := holdsPlain.payload_bound payload
    rw [if_neg (by omega), memset, if_pos (by omega)]
    refine ⟨_, _, granted, rfl, .granted nonzero allocated, ?_, fun _ i inside => ?_⟩
    · apply holdsPlain.write payload (by rfl) (by rfl)
      intro k outside
      exact put_outside (by simp only [length_replicate]; omega)
    · exact put_inside (by rw [getElem?_replicate, if_pos inside])

end Specifications

end Micro.Libc
