import Micro.Mm.UserHalf

/-!
# When there is no room for an area

`alloc_vmarea` returns `NULL` when a fixed range overlaps an area or no gap is large enough.  A
caller should then see an error and nothing else.  It does not: the kernel faults.  `brk` does
not look at what `mmap` did at all; it records the new break even when the area is elsewhere.
-/

namespace Micro.Mm

open Kern Lib Fs Proc List

variable {placed : VmMap} {index size : Nat} {addr : UInt64} {σ : Type}

/-- `alloc_vmarea` is called and finds no area. -/
def NoArea (kernel : Kernel σ) (self : ThreadId) (call : MapCall) : Prop :=
  ∃ request, areaRequest kernel self call = some request ∧
    allocVmarea (current kernel self).vmMap request.base request.size request.fixed = none

/-- The call returns an error, and the areas and the break are what they were. -/
def Refused (kernel : Kernel σ) (self : ThreadId) (outcome : Outcome σ) : Prop :=
  ∃ kernel' value, outcome = .ret kernel' value ∧ value < 0 ∧
    (current kernel' self).vmMap.vmAreas = (current kernel self).vmMap.vmAreas ∧
    (current kernel' self).brk = (current kernel self).brk

/-- Every byte of the range lies in an area. -/
def Covered (areas : List VmArea) (low high : Nat) : Prop :=
  ∀ address, low ≤ address → address < high →
    ∃ area ∈ areas, area.base ≤ address ∧ address < area.end_

/-- Failures are reported and change nothing, and a break that was raised has areas below it. -/
structure Reliable (machine : Machine σ) (phys : FnPtr → Nat) (kernel : Kernel σ)
    (thread : ThreadId) (call : MapCall) : Prop where
  refused : NoArea kernel thread call →
    Refused kernel thread (mapCall machine phys kernel thread call)
  covered : ∀ addr kernel', call = .brk addr →
    mapCall machine phys kernel thread call = .ret kernel' (toSigned addr.toNat) →
    (current kernel thread).brk ≤ addr.toNat →
    Covered (current kernel' thread).vmMap.vmAreas.items (current kernel thread).brk addr.toNat

/-- The range below a raised break is free, or whatever of it is not in an area is in the range
of that size from the least free base on. -/
def BreakFits (kernel : Kernel σ) (self : ThreadId) : MapCall → Prop
  | .mmap _ _ _ _ => True
  | .brk addr =>
      let old := (current kernel self).brk
      let areas := (current kernel self).vmMap.vmAreas.items
      old < addr.toNat →
        old ≠ 0 ∧ Free areas old addr.toNat ∨
        ∃ base, LeastFree areas (addr.toNat - old) base ∧ base + (addr.toNat - old) < 2 ^ 64 ∧
          Covered (⟨base, base + (addr.toNat - old), none⟩ :: areas) old addr.toNat

section Places

variable {map : VmMap} {base end_ : Nat}

theorem allocVmarea_hint (found : allocVmarea map base size false = some (placed, index)) :
    base ≠ 0 ∧ vmMapAllocat map base size = some (placed, index) ∨
      ¬ (base ≠ 0 ∧ (vmMapAllocat map base size).isSome) ∧
        vmMapAlloc map size = some (placed, index) := by
  unfold allocVmarea at found
  split at found
  · rename_i nonzero
    cases placedAt : vmMapAllocat map base size with
    | some _ =>
      simp only [placedAt] at found
      exact .inl ⟨nonzero, found⟩
    | none =>
      simp only [placedAt] at found
      exact .inr ⟨by simp, found⟩
  · rename_i zero
    exact .inr ⟨fun hint => zero hint.1, found⟩

theorem vmMapAllocat_covered (noCarry : base + size < 2 ^ 64)
    (found : vmMapAllocat map base size = some (placed, index)) :
    Covered placed.vmAreas.items base (base + size) := by
  rw [vmMapAllocat, addWord_of_lt noCarry] at found
  intro _ low high
  have isNew := vmMapAllocatScan_new (by omega) found
  exact ⟨_, mem_of_getElem? isNew.2, low, high⟩

theorem vmMapAllocat_isSome_iff (ordered : Ordered map.vmAreas.items) (pos : 0 < size)
    (noCarry : base + size < 2 ^ 64) :
    (vmMapAllocat map base size).isSome ↔ Free map.vmAreas.items base (base + size) := by
  have outcome := vmMapAllocat_spec ordered ⟨pos, noCarry⟩
  cases found : vmMapAllocat map base size with
  | none =>
    rw [found] at outcome
    exact iff_of_false Bool.false_ne_true outcome
  | some _ =>
    rw [found] at outcome
    exact iff_of_true rfl outcome.1

/-- No base that `vm_map_alloc` tries is above a free one. -/
theorem allocBases_le_free {areas : List VmArea} {start tried : Nat} (pos : 0 < size)
    (proper : ∀ area ∈ areas, area.base < area.end_) (free : Free areas base (base + size))
    (noCarry : base + size < 2 ^ 64) (low : start ≤ base)
    (isTried : tried ∈ allocBases size areas start) : tried ≤ base := by
  induction areas generalizing start with
  | nil =>
    rw [mem_singleton.mp isTried]
    exact low
  | cons area areas ih =>
    simp only [Free, forall_mem_cons] at proper free
    simp only [allocBases, addWord_of_lt (show start + size < 2 ^ 64 by omega)] at isTried
    split_ifs at isTried with gap blocked
    · rw [mem_singleton.mp isTried]
      exact low
    · rcases mem_cons.mp isTried with rfl | later
      · exact low
      · have inWay := (intersects_iff (by omega) proper.1).mp blocked
        rw [meets_iff (by omega) proper.1] at inWay
        have apart := mt (meets_iff (by omega) proper.1).mpr free.1
        exact ih proper.2 free.2 (by omega) later
    · exact ih proper.2 free.2 low isTried

/-- When a sum of the scan exceeds a word, it adds an area that ends before it begins. -/
theorem vmMapAllocScan_carry {areas : List VmArea} {i start : Nat} (word : size < 2 ^ 64)
    (above : ∀ area ∈ areas, start ≤ area.base) (ordered : Ordered areas)
    (found : vmMapAllocScan map size areas i start = some (placed, index)) :
    (∀ tried ∈ allocBases size areas start, tried + size < 2 ^ 64) ∨
      ∃ tried ∈ allocBases size areas start, 2 ^ 64 ≤ tried + size ∧
        ∀ area ∈ placed.vmAreas.items,
          area = ⟨tried, addWord tried size, none⟩ ∨ area ∈ map.vmAreas.items := by
  induction areas generalizing i start with
  | nil =>
    by_cases carry : 2 ^ 64 ≤ start + size
    · refine .inr ⟨start, mem_singleton.mpr rfl, carry, fun area mem => ?_⟩
      simp only [vmMapAllocScan] at found
      split at found
      · cases found
        simpa [pushArea, or_comm] using mem
      · cases found
    · exact .inl (forall_mem_singleton.mpr (by omega))
  | cons first areas ih =>
    obtain ⟨proper, apart⟩ := ordered
    simp only [forall_mem_cons, pairwise_cons] at above proper apart
    by_cases carry : 2 ^ 64 ≤ start + size
    · have gap : first.base ≥ addWord start size := by
        unfold addWord
        omega
      refine .inr ⟨start, mem_allocBases size _ start, carry, fun area mem => ?_⟩
      simp only [vmMapAllocScan, if_pos gap] at found
      cases found
      exact eq_or_mem_of_mem_insertIdx mem
    · have here : start + size < 2 ^ 64 := by omega
      simp only [vmMapAllocScan, allocBases] at found ⊢
      split_ifs at found ⊢ with gap blocked
      · exact .inl (forall_mem_singleton.mpr here)
      · rcases ih apart.1 ⟨proper.2, apart.2⟩ found with sums | ⟨tried, isTried, carries⟩
        · exact .inl (forall_mem_cons.mpr ⟨here, sums⟩)
        · exact .inr ⟨tried, mem_cons_of_mem _ isTried, carries⟩
      · exact ih above.2 ⟨proper.2, apart.2⟩ found

/-- The area of `vm_map_alloc` covers what other areas do not exactly when the least free place
does. -/
theorem vmMapAlloc_covered_iff (orderly : Orderly map) (pos : 0 < size) (noCarry : base + size < 2 ^ 64)
    (found : vmMapAlloc map size = some (placed, index)) :
    Covered placed.vmAreas.items base (base + size) ↔
      ∃ least, LeastFree map.vmAreas.items size least ∧ least + size < 2 ^ 64 ∧
        Covered (⟨least, least + size, none⟩ :: map.vmAreas.items) base (base + size) := by
  have covers : ∀ {least}, AllocOutcome map size least (some (placed, index)) →
      (Covered placed.vmAreas.items base (base + size) ↔
        Covered (⟨least, least + size, none⟩ :: map.vmAreas.items) base (base + size)) := by
    intro _ outcome
    simp only [Covered, outcome.2.1.mem_iff]
  constructor
  · intro covered
    rcases vmMapAllocScan_carry (by omega) (fun area mem => (orderly.inside area mem).1)
      orderly.ordered found with sums | ⟨tried, isTried, carries, areas⟩
    · obtain ⟨least, isLeast, outcome⟩ := vmMapAlloc_spec orderly.ordered ⟨pos, sums⟩
      rw [found] at outcome
      obtain ⟨_, _, isNew⟩ := vmMapAllocScan_new (by omega) found
      have same := isNew.symm.trans outcome.2.2
      rw [Option.some.injEq, VmArea.mk.injEq] at same
      refine ⟨least, isLeast, ?_, (covers outcome).mp covered⟩
      rw [← same.2.1]
      exact Nat.mod_lt _ (by decide)
    · -- The highest byte is above the user half.
      have low : tried ≤ 2 ^ 39 := allocBases_le (by decide)
        (fun area mem => (orderly.inside area mem).2.2) isTried
      obtain ⟨area, mem, _, high⟩ := covered (base + size - 1) (by omega) (by omega)
      rcases areas area mem with rfl | old
      · simp only [addWord] at high
        omega
      · have inside := (orderly.inside area old).2.2
        omega
  · rintro ⟨least, isLeast, small, covered⟩
    have sums : ∀ tried ∈ allocBases size map.vmAreas.items 0x1000, tried + size < 2 ^ 64 := by
      intro tried isTried
      have below := allocBases_le_free pos orderly.ordered.proper isLeast.1.2 small isLeast.1.1 isTried
      omega
    obtain ⟨other, isOther, outcome⟩ := vmMapAlloc_spec orderly.ordered ⟨pos, sums⟩
    rw [found, Nat.le_antisymm (isOther.2 isLeast.1) (isLeast.2 isOther.1)] at outcome
    exact (covers outcome).mpr covered

theorem covered_iff (areas : List VmArea) (low high : Nat) :
    Covered areas low high ↔ ∀ address, low ≤ address → address < high →
      ∃ extent ∈ areas.map VmArea.extent, extent.1 ≤ address ∧ address < extent.2 := by
  simp only [Covered, mem_map, exists_exists_and_eq_and, VmArea.extent]

theorem covered_setObj (obj : VmObject) (low high : Nat) :
    Covered (setObj map index obj).vmAreas.items low high ↔ Covered map.vmAreas.items low high := by
  rw [covered_iff, extents_setObj, ← covered_iff]

end Places

section Calls

variable {machine : Machine σ} {phys : FnPtr → Nat} {kernel : Kernel σ} {self : ThreadId}

theorem not_refused {call : MapCall} (noArea : NoArea kernel self call) :
    ¬ Refused kernel self (mapCall machine phys kernel self call) := by
  obtain ⟨_, isRequest, none⟩ := noArea
  obtain ⟨_, ended, called⟩ := @mapCall_end _ kernel self machine phys call
  rw [isRequest] at ended
  rintro ⟨_, _, ran, -⟩
  cases ended with
  | null _ =>
    rw [called] at ran
    cases ran
  | anon found | device found | deviceFault found =>
    rw [none] at found
    cases found

variable (raised : (current kernel self).brk < addr.toNat)
include raised

theorem brk_request :
    areaRequest kernel self (.brk addr) =
      some ⟨(current kernel self).brk, addr.toNat - (current kernel self).brk, false, true⟩ := by
  have nonzero : addr ≠ 0 := by
    rintro rfl
    exact absurd raised (Nat.not_lt_zero _)
  have length := subWord_of_le (Nat.le_of_lt raised) addr.toNat_lt
  have pos : addr.toNat - (current kernel self).brk ≠ 0 := by omega
  simp only [areaRequest, if_neg nonzero, mmapRequest, length, pos]
  rw [Nat.max_self]
  rfl

/-- A call that raises the break and finds an area returns the new break; the areas are those
that were found. -/
theorem brk_returned (found : allocVmarea (current kernel self).vmMap (current kernel self).brk
      (addr.toNat - (current kernel self).brk) false = some (placed, index)) :
    ∃ kernel', mapCall machine phys kernel self (.brk addr) = .ret kernel' (toSigned addr.toNat) ∧
      (current kernel' self).vmMap = setObj placed index (.anon 1 fun _ => 0) := by
  have nonzero : addr ≠ 0 := by
    rintro rfl
    exact absurd raised (Nat.not_lt_zero _)
  obtain ⟨_, ended, called⟩ := @mapCall_end _ kernel self machine phys (.brk addr)
  rw [brk_request raised] at ended
  cases ended with
  | null none => rw [found] at none; cases none
  | device _ anonymous _ => cases anonymous
  | deviceFault _ anonymous => cases anonymous
  | anon other _ =>
    rw [found] at other
    cases other
    simp only [callValue, if_neg nonzero] at called
    exact ⟨_, called, by simp⟩

theorem brk_found (hasArea : ¬ NoArea kernel self (.brk addr)) :
    ∃ placed index, allocVmarea (current kernel self).vmMap (current kernel self).brk
      (addr.toNat - (current kernel self).brk) false = some (placed, index) := by
  cases found : allocVmarea (current kernel self).vmMap (current kernel self).brk
      (addr.toNat - (current kernel self).brk) false with
  | none => exact absurd ⟨_, brk_request raised, found⟩ hasArea
  | some result => exact ⟨result.1, result.2, rfl⟩

end Calls

/-- A task that mapped a page at 4 MiB, with a break. -/
def mappedPage (brk : Nat) : Kernel Unit :=
  { oneTask with
    task := fun task =>
      { oneTask.task task with
        brk
        vmMap := { (oneTask.task task).vmMap with
          vmAreas := ⟨[⟨0x400000, 0x401000, some (.anon 1 fun _ => 0)⟩], 1⟩ } } }

end Micro.Mm
