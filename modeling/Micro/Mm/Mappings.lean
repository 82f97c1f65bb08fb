import Micro.Mm.Kalloc
import Micro.Mm.Spaces

/-!
# Mappings and translations

`mmu_map` assigns the entry of one page of the user half.  `mmu_map_mmio` maps every page of a new
range of the kernel's window, each to the frame of the address that it is given.
-/

namespace Micro.Mm

open Kern Lib List Function

variable {σ : Type} {virt phys flags start cnt mmio page k a : Nat} {map after : VmMap}
  {heap : Kheap} {tables : Nat → Nat}

theorem pageFrame_entry (aligned : phys % 0x1000 = 0) (small : flags < 0x1000) :
    pageFrame (phys ||| flags) = phys := by
  have frame := @entry_frame (phys / 0x1000) flags small
  rw [Nat.div_mul_cancel (Nat.dvd_of_mod_eq_zero aligned)] at frame
  rw [pageFrame, frame, Nat.div_mul_cancel (Nat.dvd_of_mod_eq_zero aligned)]

/-! ## The user half -/

theorem cell_eq_iff (user : a < 2 ^ 39) (userVirt : virt < 2 ^ 39) :
    cell a = cell virt ↔ a / 0x1000 = virt / 0x1000 := by
  simp only [cell, pdptIdx, pdIdx, ptIdx, Prod.mk.injEq]
  omega

/-- The entry that is assigned is that of one page. -/
theorem MapsPage.virt2phys {entry : Nat}
    (maps : MapsPage map after (pdptIdx virt) (pdIdx virt) (ptIdx virt) entry) (user : a < 2 ^ 39) :
    mmuVirt2phys after a = if cell a = cell virt then pageFrame entry else mmuVirt2phys map a := by
  have lower : pml4Idx a = 0 := by
    rw [pml4Idx]
    omega
  simp only [mmuVirt2phys, lower, if_true]
  rcases cell_cases (pdptIdx virt) (pdIdx virt) (pdptIdx a) (pdIdx a) with ⟨row, column⟩ | other
  · rcases maps.table with ⟨table, isTable, old, new⟩
    simp only [cell, row, column, maps.present, isTable, if_true, Prod.mk.injEq, true_and]
    by_cases same : ptIdx a = ptIdx virt
    · rw [if_pos same, same, update_self]
    · rw [if_neg same, update_of_ne same]
      cases present : pagePr (map.pds (pdptIdx virt) (pdIdx virt)) with
      | true => simp [old present]
      | false => simp [new present, pageFrame]
  · have ne : cell a ≠ cell virt :=
      fun same => other (congrArg (fun cell => (cell.1, cell.2.1)) same)
    rw [if_neg ne, (maps.others other).1, (maps.others other).2]

/-- `mmu_map` changes the translation of the page it is given, to the frame it is given, and of no
other; whether its table was there or not.  A directory entry that is present without a table is
the one thing it does not expect. -/
theorem mmuMap_pointwise (machine : Machine σ) (dev : σ) (map : VmMap) (virt phys flags : Nat)
    (user : virt < 2 ^ 39) (aligned : phys % 0x1000 = 0) (small : flags < 0x1000) :
    match mmuMap machine dev map virt phys flags with
    | some (_, after) => ∀ a < 2 ^ 39, mmuVirt2phys after a =
        if a / 0x1000 = virt / 0x1000 then phys else mmuVirt2phys map a
    | none => pagePr (map.pds (pdptIdx virt) (pdIdx virt)) = true ∧
        map.pts (pdptIdx virt) (pdIdx virt) = none := by
  cases mapped : mmuMap machine dev map virt phys flags with
  | some _ =>
    intro a userA
    have smallFlags : flags ||| 4 < 0x1000 := Nat.or_lt_two_pow (n := 12) small (by decide)
    simp only [(mmuMap_maps mapped).virt2phys userA, cell_eq_iff userA user, Nat.or_assoc,
      pageFrame_entry aligned smallFlags]
  | none =>
    have stuck : ¬ ∃ after, mmuMap machine dev map virt phys flags = some after := by simp [mapped]
    rw [mmuMap_some_iff] at stuck
    simpa using stuck

/-- The first page of an address space without tables -/
theorem mmuMap_pointwise_first : ∃ done, mmuMap frameMachine (fun _ => 0)
      ⟨0, 0, fun _ => 0, fun _ _ => 0, fun _ _ => none, .create⟩ 0x1000 0x5000 3 = some done ∧
    mmuVirt2phys done.2 0x1fff = 0x5000 ∧ mmuVirt2phys done.2 0x2000 = 0 := by
  have pointwise := mmuMap_pointwise frameMachine (fun _ => 0)
    ⟨0, 0, fun _ => 0, fun _ _ => 0, fun _ _ => none, .create⟩ 0x1000 0x5000 3 (by decide)
    (by decide) (by decide)
  exact ⟨_, rfl, pointwise 0x1fff (by decide), pointwise 0x2000 (by decide)⟩

/-! ## Device memory -/

def mmuKvirt2phys (heap : Kheap) (virt : Nat) : Nat :=
  if pml4Idx virt ≠ 511 ∨ pdptIdx virt ≠ 511 then 0
  else pageFrame (heap.tbls (pdIdx virt) (ptIdx virt))

/-- The loop of `mmu_map_mmio`, up to page `cnt` of the range. -/
def mmioLoop (v mmio cnt : Nat) (heap : Kheap) : Kheap :=
  (range cnt).foldl (fun heap i => mmuKmap heap (addWord v (i * 0x1000)) mmio 0x1b) heap

def mmuMapMmio (tables : Nat → Nat) (heap : Kheap) (mmio cnt : Nat) : Kheap × Nat :=
  let v := mmuKalloc tables heap cnt
  (mmioLoop v.2 mmio cnt v.1, addWord v.2 (mmio % 0x1000))

/-- The range shows the device memory from `mmio` on. -/
def Contiguous (tables : Nat → Nat) (heap : Kheap) (mmio cnt : Nat) : Prop :=
  let mapped := mmuMapMmio tables heap mmio cnt
  ∀ k, mmio % 0x1000 + k < 0x1000 * cnt →
    mmuKvirt2phys mapped.1 (addWord mapped.2 k) + addWord mapped.2 k % 0x1000 = mmio + k

theorem mmuKvirt2phys_window (bound : page < 262144) (inPage : k < 0x1000) :
    mmuKvirt2phys heap (heapBase + 0x1000 * page + k) = pageFrame (heap.entry page) := by
  obtain ⟨index, inTable⟩ :=
    @window_index (heapBase + 0x1000 * page + k) page (by omega) (by omega) bound
  have upper : ¬ (pml4Idx (heapBase + 0x1000 * page + k) ≠ 511 ∨
      pdptIdx (heapBase + 0x1000 * page + k) ≠ 511) := by
    simp only [pml4Idx, pdptIdx, heapBase]
    omega
  have row : pdIdx (heapBase + 0x1000 * page + k) = page / 512 := by omega
  have column : ptIdx (heapBase + 0x1000 * page + k) = page % 512 := by omega
  rw [mmuKvirt2phys, if_neg upper, row, column, Kheap.entry]

theorem mmioLoop_entry (bound : start + cnt ≤ 262144) (inside : k < cnt) :
    (mmioLoop (heapBase + 0x1000 * start) mmio cnt heap).entry (start + k) =
      pageFrame mmio ||| 0x1b := by
  induction cnt with
  | zero => cases inside
  | succ cnt ih =>
    have isPage : addWord (heapBase + 0x1000 * start) (cnt * 0x1000) =
        heapBase + 0x1000 * (start + cnt) := by
      simp only [addWord, heapBase]
      omega
    obtain ⟨index, inTable⟩ := @window_index _ (start + cnt) le_rfl (by omega) (by omega)
    rw [mmioLoop, range_succ, foldl_append, foldl_cons, foldl_nil, isPage, mmuKmap,
      setEntry_entry inTable, index]
    split
    · rfl
    · exact ih (by omega) (by omega)

section

variable (isStart : (mmuKalloc tables heap cnt).2 = heapBase + 0x1000 * start)
  (bound : start + cnt ≤ 262144)
include isStart bound

theorem mmuMapMmio_translates (inside : mmio % 0x1000 + k < 0x1000 * cnt) :
    let mapped := mmuMapMmio tables heap mmio cnt
    mmuKvirt2phys mapped.1 (addWord mapped.2 k) + addWord mapped.2 k % 0x1000 =
      pageFrame mmio + (mmio % 0x1000 + k) % 0x1000 := by
  have isVirt : addWord (addWord (heapBase + 0x1000 * start) (mmio % 0x1000)) k =
      heapBase + 0x1000 * (start + (mmio % 0x1000 + k) / 0x1000) +
        (mmio % 0x1000 + k) % 0x1000 := by
    simp only [addWord, heapBase]
    omega
  have inPage := Nat.mod_lt (mmio % 0x1000 + k) (show 0 < 0x1000 by decide)
  have frame : pageFrame mmio % 0x1000 = 0 := Nat.mul_mod_left _ _
  simp only [mmuMapMmio, isStart, isVirt]
  rw [mmuKvirt2phys_window (by omega) inPage, mmioLoop_entry bound (by omega),
    pageFrame_entry frame (by decide)]
  simp only [heapBase]
  omega

theorem contiguous_iff_le : Contiguous tables heap mmio cnt ↔ cnt ≤ 1 := by
  constructor
  · intro contiguous
    by_contra many
    have second := contiguous (0x1000 - mmio % 0x1000) (by omega)
    rw [mmuMapMmio_translates isStart bound (by omega), pageFrame] at second
    omega
  · intro single k inside
    rw [mmuMapMmio_translates isStart bound inside, pageFrame]
    omega

end

/-- Device memory is shown contiguously exactly when it is a single page. -/
theorem contiguous_iff (tables : Nat → Nat) (heap : Kheap) (mmio cnt : Nat) (pos : 1 ≤ cnt)
    (succeeds : (mmuKalloc tables heap cnt).2 ≠ 0) :
    Contiguous tables heap mmio cnt ↔ cnt = 1 := by
  rcases mmuKalloc_spec tables heap pos with fails | ⟨_, isStart, bound, _⟩
  · rw [fails] at succeeds
    exact absurd rfl succeeds
  · rw [contiguous_iff_le isStart bound]
    omega

/-- One page of the I/O APIC -/
theorem contiguous_iff_one : (mmuKalloc sampleTables mmuInit 1).2 ≠ 0 ∧
    Contiguous sampleTables mmuInit 0xfec00010 1 := by
  have succeeds : (mmuKalloc sampleTables mmuInit 1).2 ≠ 0 := by decide +kernel
  exact ⟨succeeds, (contiguous_iff _ _ _ 1 (by decide) succeeds).mpr rfl⟩

/-- The second page shows the first one again. -/
theorem second_page_repeats : (mmuKalloc sampleTables mmuInit 2).2 ≠ 0 ∧
    ¬ Contiguous sampleTables mmuInit 0xfec00000 2 := by
  have isStart : (mmuKalloc sampleTables mmuInit 2).2 = heapBase + 0x1000 * 0 := by decide +kernel
  rw [contiguous_iff_le isStart (by decide), isStart]
  decide

end Micro.Mm
