import Micro.Heap.Tiling

/-!
# Headers and payloads

Where the headers and the payloads of laid-out cells are: payloads overlap neither headers nor
one another, links lead from header to header, and the cells determine the headers.
-/

namespace Micro.Heap

open List

variable {cells : List Cell} {block : Nat} {mem : Nat → Block}

theorem addresses_append (address : Nat) (left right : List Cell) :
    addresses address (left ++ right) =
      addresses address left ++ addresses (address + span left) right := by
  induction left generalizing address with
  | nil => simp [addresses, span]
  | cons _ _ ih =>
    simp only [cons_append, addresses, span, ih]
    congr 3
    omega

theorem mem_addresses {address : Nat} (mem : block ∈ addresses address cells) :
    ∃ before cell after, cells = before ++ cell :: after ∧ block = address + span before := by
  induction cells generalizing address with
  | nil => cases mem
  | cons cell cells ih =>
    rcases mem_cons.mp mem with rfl | later
    · exact ⟨[], cell, cells, rfl, rfl⟩
    · obtain ⟨before, cell', after, rfl, rfl⟩ := ih later
      refine ⟨cell :: before, cell', after, rfl, ?_⟩
      simp only [span]
      omega

theorem addresses_bound {address : Nat} (mem : block ∈ addresses address cells) :
    address ≤ block ∧ block + 32 ≤ address + span cells := by
  obtain ⟨_, _, _, rfl, rfl⟩ := mem_addresses mem
  simp only [span_append, span]
  omega

theorem Aligned.address {address : Nat} (aligned : Aligned cells)
    (mem : block ∈ addresses address cells) : block % 32 = address % 32 := by
  induction cells generalizing address with
  | nil => cases mem
  | cons cell cells ih =>
    rcases mem_cons.mp mem with rfl | later
    · rfl
    · have size := aligned cell mem_cons_self
      have rest := ih (fun other inCells => aligned other (mem_cons_of_mem _ inCells)) later
      omega

section

variable {address : Nat} {payload : Nat × Nat}

theorem mem_payloads (mem : payload ∈ payloads address cells) :
    ∃ before cell after, cells = before ++ cell :: after ∧ cell.used = true ∧
      payload = (address + span before + 32, cell.size) := by
  induction cells generalizing address with
  | nil => cases mem
  | cons cell cells ih =>
    have later : payload ∈ payloads (address + 32 + cell.size) cells →
        ∃ before cell' after, cell :: cells = before ++ cell' :: after ∧ cell'.used = true ∧
          payload = (address + span before + 32, cell'.size) := by
      intro inCells
      obtain ⟨before, cell', after, rfl, used, rfl⟩ := ih inCells
      refine ⟨cell :: before, cell', after, rfl, used, ?_⟩
      simp only [span, Prod.mk.injEq, and_true]
      omega
    simp only [payloads] at mem
    split at mem
    · rename_i used
      rcases mem_cons.mp mem with rfl | inCells
      · exact ⟨[], cell, cells, rfl, used, rfl⟩
      · exact later inCells
    · exact later mem

theorem payload_apart (mem : payload ∈ payloads address cells)
    (isHeader : block ∈ addresses address cells) :
    payload.1 + payload.2 ≤ block ∨ block + 32 ≤ payload.1 := by
  obtain ⟨_, _, _, rfl, -, rfl⟩ := mem_payloads mem
  simp only [addresses_append, addresses, mem_append, mem_cons] at isHeader
  rcases isHeader with earlier | rfl | later
  · have bound := addresses_bound earlier
    exact .inr (by omega)
  · exact .inr le_rfl
  · have bound := addresses_bound later
    exact .inl (by omega)

theorem payloads_bound (mem : payload ∈ payloads address cells) :
    address + 32 ≤ payload.1 ∧ payload.1 + payload.2 ≤ address + span cells := by
  obtain ⟨_, _, _, rfl, -, rfl⟩ := mem_payloads mem
  simp only [span_append, span]
  omega

theorem payloads_apart {left right : Nat × Nat}
    (leftIn : left ∈ payloads address cells) (rightIn : right ∈ payloads address cells)
    (ne : left.1 ≠ right.1) : left.1 + left.2 ≤ right.1 ∨ right.1 + right.2 ≤ left.1 := by
  obtain ⟨_, _, _, rfl, used, rfl⟩ := mem_payloads leftIn
  simp only [payloads_append, payloads, used, if_true, mem_append, mem_cons] at rightIn
  rcases rightIn with earlier | rfl | later
  · have bound := payloads_bound earlier
    exact .inr (by omega)
  · exact absurd rfl ne
  · have bound := payloads_bound later
    exact .inl (by omega)

end

section Laid

variable {mem' : Nat → Block} {before address : Nat} (laid : Laid mem before address 0 cells)
include laid

theorem Laid.payload {payload : Nat × Nat} (member : payload ∈ payloads address cells) :
    ∃ block ∈ addresses address cells, payload.1 = block + 32 ∧
      (mem block).size = payload.2 ∧ (mem block).used = true := by
  obtain ⟨front, _, _, rfl, used, rfl⟩ := mem_payloads member
  refine ⟨address + span front, by simp [addresses_append, addresses], rfl, ?_⟩
  rw [((laid_append _ _ _ _ _ _).mp laid).2.1]
  exact ⟨rfl, used⟩

theorem Laid.inUse (member : block ∈ addresses address cells) (used : (mem block).used = true) :
    block + 32 ∈ usedAt address cells := by
  obtain ⟨_, _, _, rfl, rfl⟩ := mem_addresses member
  rw [((laid_append _ _ _ _ _ _).mp laid).2.1] at used
  dsimp only at used
  simp [usedAt_append, usedAt, used]

theorem Laid.unique (laid' : Laid mem' before address 0 cells)
    (member : block ∈ addresses address cells) : mem block = mem' block := by
  induction cells generalizing before address with
  | nil => cases member
  | cons _ cells ih =>
    rcases mem_cons.mp member with rfl | later
    · rw [laid.1, laid'.1]
    · exact ih laid.2 laid'.2 later

theorem Laid.links (member : block ∈ addresses address cells) :
    ((mem block).next = 0 ∨ (mem block).next ∈ addresses address cells) ∧
      ((mem block).prev = before ∨ (mem block).prev ∈ addresses address cells) := by
  induction cells generalizing before address with
  | nil => cases member
  | cons _ cells ih =>
    rcases mem_cons.mp member with rfl | later
    · rw [laid.1]
      refine ⟨?_, .inl rfl⟩
      cases cells with
      | nil => exact .inl rfl
      | cons next _ => exact .inr (mem_cons_of_mem _ mem_cons_self)
    · obtain ⟨next, prev⟩ := ih laid.2 later
      refine ⟨next.imp_right (mem_cons_of_mem _), .inr ?_⟩
      rcases prev with isFirst | prev
      · rw [isFirst]
        exact mem_cons_self
      · exact mem_cons_of_mem _ prev

theorem Laid.full_iff (n : Nat) :
    (∀ block ∈ addresses address cells, (mem block).used = false → (mem block).size < n) ↔
      allocate n cells = none := by
  rw [allocate_none_iff]
  induction cells generalizing before address with
  | nil => simp [addresses]
  | cons _ cells ih =>
    simp only [addresses, forall_mem_cons, laid.1, ih laid.2]

end Laid

theorem Walk.unique {blocks blocks' : List Nat} (walk : Walk mem block blocks)
    (walk' : Walk mem block blocks') : blocks = blocks' := by
  induction walk generalizing blocks' with
  | stop =>
    cases walk' with
    | stop => rfl
    | visit nonnull _ => exact absurd rfl nonnull
  | visit nonnull _ ih =>
    cases walk' with
    | stop => exact absurd rfl nonnull
    | visit _ rest => rw [ih rest]

theorem addresses_allocate {n offset address : Nat} {cells' : List Cell} (request : n % 32 = 0)
    (aligned : Aligned cells) (allocated : allocate n cells = some (offset, cells'))
    (mem : block ∈ addresses address cells) : block ∈ addresses address cells' := by
  obtain ⟨before, cell, _, rest, rfl, rfl, -, rfl, fits⟩ := allocate_inv allocated
  have sizes := rest_span request (aligned cell (by simp)) fits
  have shift : address + span before + 32 + n + span rest =
      address + span before + 32 + cell.size := by omega
  simp only [addresses_append, addresses, shift, mem_append, mem_cons] at mem ⊢
  rcases mem with earlier | here | later
  · exact .inl earlier
  · exact .inr (.inl here)
  · exact .inr (.inr (.inr later))

end Micro.Heap
