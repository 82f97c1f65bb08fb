import Micro.Mm.VmMap

/-!
# What copying an address space preserves

`mmu_clone_vmmap` walks every page table of the source.  The loops are long, so
the facts below are stated for one cell of the result and carried through the
loop by induction on the cells still to be visited.
-/

namespace Micro.Mm

open Kern List

variable {i' j' k' : Nat} {σ : Type} {i j : Nat} {α : Type}

/-- A page of the user half that is present and accessible to the user. -/
def userPage (map : VmMap) (i j k : Nat) : Bool :=
  match map.pts i j with
  | some table => pagePr (table k) && pageUsr (table k)
  | none => false

/-- A directory entry is present exactly when the kernel has its table. -/
def Backed (map : VmMap) (i j : Nat) : Prop :=
  pagePr (map.pds i j) = (map.pts i j).isSome

@[simp] theorem assign₂_self (table : Nat → Nat → α) (i j : Nat) (value : α) :
    assign₂ table i j value i j = value := by
  simp [assign₂]

theorem assign₂_of_ne (table : Nat → Nat → α) (value : α) (ne : (i', j') ≠ (i, j)) :
    assign₂ table i j value i' j' = table i' j' := by
  by_cases sameRow : i' = i
  · subst i'
    have column : j' ≠ j := by
      intro equal
      exact ne (by rw [equal])
    simp [assign₂, column]
  · simp [assign₂, sameRow]

theorem cell_cases (i j i' j' : Nat) : i' = i ∧ j' = j ∨ (i', j') ≠ (i, j) := by
  simp only [ne_eq, Prod.mk.injEq]
  exact Classical.em _

/-! ## One page table -/

variable {k : Nat}

/-- An entry of the copied table: user pages keep their flags and get a frame,
everything else stays clear. -/
def EntryCopied (srcpt table : Nat → Nat) (k : Nat) : Prop :=
  if pagePr (srcpt k) && pageUsr (srcpt k) then
    ∃ frame, table k = srcpt k % 0x1000 ||| frame
  else table k = 0

section

variable (machine : Machine σ) (srcpt : Nat → Nat)
include machine srcpt

theorem cloneEntry_at (state : σ × (Nat → Nat))
    (old : (pagePr (srcpt k) && pageUsr (srcpt k)) = false → state.2 k = 0)
    (settled : k' = k ∨ EntryCopied srcpt state.2 k) :
    EntryCopied srcpt (cloneEntry machine srcpt state k').2 k := by
  unfold cloneEntry
  by_cases equal : k' = k
  · subst k'
    by_cases user : (pagePr (srcpt k) && pageUsr (srcpt k)) = true
    · rw [if_pos user, EntryCopied, if_pos user]
      exact ⟨(machine.mmuAllocPhys state.1).2, by simp⟩
    · rw [if_neg user, EntryCopied, if_neg user]
      exact old (by simpa using user)
  · have copied := settled.resolve_left equal
    split
    · simpa [EntryCopied, Function.update_of_ne (Ne.symm equal)] using copied
    · exact copied

theorem cloneEntry_clear (state : σ × (Nat → Nat))
    (kernelPage : (pagePr (srcpt k) && pageUsr (srcpt k)) = false) (clear : state.2 k = 0) :
    (cloneEntry machine srcpt state k').2 k = 0 := by
  unfold cloneEntry
  split
  · rename_i user
    have ne : k ≠ k' := by
      intro _
      subst k'
      rw [kernelPage] at user
      cases user
    simpa [Function.update_of_ne ne] using clear
  · exact clear

theorem cloneEntries_copied (entries : List Nat) (state : σ × (Nat → Nat))
    (clear : (pagePr (srcpt k) && pageUsr (srcpt k)) = false → state.2 k = 0)
    (settled : k ∈ entries ∨ EntryCopied srcpt state.2 k) :
    EntryCopied srcpt (entries.foldl (cloneEntry machine srcpt) state).2 k := by
  induction entries generalizing state with
  | nil => exact settled.resolve_left (by simp)
  | cons entry entries ih =>
    apply ih
    · exact fun kernelPage => cloneEntry_clear machine srcpt state kernelPage (clear kernelPage)
    · by_cases visited : entry = k
      · exact .inr (cloneEntry_at machine srcpt state clear (.inl visited))
      · rcases settled with listed | copied
        · exact .inl ((mem_cons.mp listed).resolve_left (Ne.symm visited))
        · exact .inr (cloneEntry_at machine srcpt state clear (.inr copied))

end

/-! ## All page tables -/

/-- A cell of the copied directory: a table exactly where the source has one, with
its entries copied. -/
def CellCopied (src map : VmMap) (i j : Nat) : Prop :=
  Backed map i j ∧ match src.pts i j with
    | some srcpt => ∃ table, map.pts i j = some table ∧ ∀ k < 512, EntryCopied srcpt table k
    | none => map.pts i j = none

section

variable (machine : Machine σ)
include machine

variable (src : VmMap)
include src

theorem cloneTable_at (state : σ × VmMap) (i j : Nat) :
    CellCopied src (cloneTable machine src state (i, j)).2 i j := by
  unfold cloneTable CellCopied Backed
  cases table : src.pts i j with
  | none => simp [pagePr]
  | some _ =>
    refine ⟨by simp [mktable, pagePr], _, assign₂_self _ _ _ _, ?_⟩
    intro k inTable
    apply cloneEntries_copied
    · exact fun _ => rfl
    · exact .inl (mem_range.mpr inTable)

theorem cloneTable_other (state : σ × VmMap) (ne : (i, j) ≠ (i', j'))
    (copied : CellCopied src state.2 i j) :
    CellCopied src (cloneTable machine src state (i', j')).2 i j := by
  unfold CellCopied Backed at copied ⊢
  unfold cloneTable
  cases src.pts i' j' with
  | none => simpa only [assign₂_of_ne _ _ ne] using copied
  | some _ => simpa only [mktable, assign₂_of_ne _ _ ne] using copied

variable (cells : List (Nat × Nat)) (state : σ × VmMap)
include cells state

theorem cloneTables_copied (settled : (i, j) ∈ cells ∨ CellCopied src state.2 i j) :
    CellCopied src (cells.foldl (cloneTable machine src) state).2 i j := by
  induction cells generalizing state with
  | nil => exact settled.resolve_left (by simp)
  | cons cell cells ih =>
    apply ih
    by_cases visited : (i, j) = cell
    · subst cell
      exact .inr (cloneTable_at machine src state i j)
    · rcases settled with listed | copied
      · exact .inl ((mem_cons.mp listed).resolve_left visited)
      · exact .inr (cloneTable_other machine src state visited copied)

theorem cloneTables_vmAreas :
    (cells.foldl (cloneTable machine src) state).2.vmAreas = state.2.vmAreas := by
  apply cells.foldlRecOn (motive := fun after : σ × VmMap => after.2.vmAreas = state.2.vmAreas) _ rfl
  intro after same cell _
  rw [← same]
  unfold cloneTable
  cases src.pts cell.1 cell.2 <;> rfl

end

theorem mem_tableIndices (row : i < 512) (column : j < 512) : (i, j) ∈ tableIndices := by
  unfold tableIndices
  refine mem_flatMap.mpr ⟨i, mem_range.mpr row, ?_⟩
  refine mem_map.mpr ⟨j, mem_range.mpr column, ?_⟩
  rfl

theorem mmuCloneVmmap_copied (machine : Machine σ) (dev : σ) (src : VmMap) (row : i < 512)
    (column : j < 512) : CellCopied src (mmuCloneVmmap machine dev src).2 i j := by
  rw [mmuCloneVmmap]
  exact cloneTables_copied machine src tableIndices _ (.inl (mem_tableIndices row column))

theorem mmuCloneVmmap_vmAreas (machine : Machine σ) (dev : σ) (src : VmMap) :
    (mmuCloneVmmap machine dev src).2.vmAreas = KList.create := by
  unfold mmuCloneVmmap
  refine (cloneTables_vmAreas machine src tableIndices _).trans ?_
  unfold mmuCreateVmmap
  rfl

theorem mmuCreateVmmap_clear (machine : Machine σ) (dev : σ) :
    (mmuCreateVmmap machine dev).2.pds = (fun _ _ => 0) ∧
      (mmuCreateVmmap machine dev).2.pts = fun _ _ => none := by
  unfold mmuCreateVmmap
  exact ⟨rfl, rfl⟩

theorem mmuCloneVmmap_of_noTables (machine : Machine σ) (dev : σ) {src : VmMap}
    (noTables : src.pts = fun _ _ => none) :
    mmuCloneVmmap machine dev src = mmuCreateVmmap machine dev := by
  have clear := mmuCreateVmmap_clear machine dev
  rw [mmuCloneVmmap]
  generalize mmuCreateVmmap machine dev = made at clear ⊢
  rcases made with ⟨_, _, _, _, _, _, _⟩
  obtain ⟨rfl, rfl⟩ := clear
  refine tableIndices.foldlRecOn (motive := fun made => made = _) _ rfl ?_
  rintro _ rfl index -
  simp [cloneTable, noTables, assign₂]

theorem copied_flag {entry frame bit : Nat} (small : bit < 12) (set : entry.testBit bit = true) :
    (entry % 0x1000 ||| frame).testBit bit = true := by
  have mask : (entry % 0x1000).testBit bit = true := by
    rw [show (0x1000 : Nat) = 2 ^ 12 from rfl, Nat.testBit_mod_two_pow]
    simp [small, set]
  rw [Nat.testBit_or, mask, Bool.true_or]

theorem CellCopied.userPage {src map : VmMap} (copied : CellCopied src map i j) (inTable : k < 512) :
    userPage map i j k = userPage src i j k := by
  rcases copied with ⟨_, cell⟩
  unfold Mm.userPage
  cases table : src.pts i j with
  | none =>
    rw [table] at cell
    rw [cell]
  | some srcpt =>
    rw [table] at cell
    rcases cell with ⟨copy, same, entries⟩
    have entry := entries k inTable
    rw [same]
    unfold EntryCopied at entry
    split_ifs at entry with user
    · rcases entry with ⟨_, value⟩
      simp only [Bool.and_eq_true] at user
      have present : pagePr (copy k) = true := value ▸ copied_flag (by decide) user.1
      have isUser : pageUsr (copy k) = true := value ▸ copied_flag (by decide) user.2
      simp [present, isUser, user]
    · simp only [Bool.not_eq_true] at user
      dsimp only
      rw [user, entry]
      rfl

/-! ## Mapping a page -/

/-- One entry is assigned, in a table of zeros where there was none. -/
structure MapsPage (map after : VmMap) (i j k entry : Nat) : Prop where
  vmAreas : after.vmAreas = map.vmAreas
  present : pagePr (after.pds i j) = true
  table : ∃ table, after.pts i j = some (Function.update table k entry) ∧
    (pagePr (map.pds i j) = true → map.pts i j = some table) ∧
    (pagePr (map.pds i j) = false → table = fun _ => 0)
  others : ∀ {i' j'}, (i', j') ≠ (i, j) →
    after.pds i' j' = map.pds i' j' ∧ after.pts i' j' = map.pts i' j'

section

variable {machine : Machine σ} {dev : σ} {map : VmMap} {virt phys flags : Nat}

theorem mmuMap_maps {after : σ × VmMap}
    (mapped : mmuMap machine dev map virt phys flags = some after) :
    MapsPage map after.2 (pdptIdx virt) (pdIdx virt) (ptIdx virt) (phys ||| flags ||| 4) := by
  unfold mmuMap needTable at mapped
  generalize pdptIdx virt = i at mapped ⊢
  generalize pdIdx virt = j at mapped ⊢
  cases present : pagePr (map.pds i j) with
  | true =>
    cases isTable : map.pts i j with
    | none => simp [present, isTable] at mapped
    | some table =>
      simp only [present, if_true, isTable] at mapped
      cases mapped
      refine ⟨rfl, present, ⟨table, assign₂_self _ _ _ _, fun _ => isTable, ?_⟩, ?_⟩
      · simp [present]
      · exact fun other => ⟨rfl, assign₂_of_ne _ _ other⟩
  | false =>
    simp only [present, Bool.false_eq_true, if_false, mktable, assign₂_self] at mapped
    cases mapped
    refine ⟨rfl, by simp [pagePr], ⟨_, assign₂_self _ _ _ _, ?_, fun _ => rfl⟩, ?_⟩
    · simp [present]
    · intro _ _ other
      simp only [assign₂_of_ne _ _ other, and_self]

/-- Only a directory entry that is present without a table is in the way. -/
theorem mmuMap_some_iff : (∃ after, mmuMap machine dev map virt phys flags = some after) ↔
    (pagePr (map.pds (pdptIdx virt) (pdIdx virt)) = true →
      (map.pts (pdptIdx virt) (pdIdx virt)).isSome = true) := by
  constructor
  · rintro ⟨_, mapped⟩ present
    rcases (mmuMap_maps mapped).table with ⟨_, _, old, _⟩
    rw [old present]
    rfl
  · intro backed
    cases present : pagePr (map.pds (pdptIdx virt) (pdIdx virt)) with
    | true =>
      rcases Option.isSome_iff_exists.mp (backed present) with ⟨_, isTable⟩
      simp [mmuMap, needTable, present, isTable]
    | false => simp [mmuMap, needTable, present, mktable]

end

theorem mmuMap_spec (machine : Machine σ) (dev : σ) (map : VmMap) (virt phys flags : Nat)
    (backed : Backed map (pdptIdx virt) (pdIdx virt)) :
    ∃ dev' map', mmuMap machine dev map virt phys flags = some (dev', map') ∧
      map'.vmAreas = map.vmAreas ∧
      ∀ i j k, (i, j, k) ≠ (pdptIdx virt, pdIdx virt, ptIdx virt) →
        userPage map' i j k = userPage map i j k := by
  unfold Backed at backed
  rcases mmuMap_some_iff.mpr backed.symm.trans with ⟨⟨dev', map'⟩, mapped⟩
  have maps : MapsPage map map' _ _ _ _ := mmuMap_maps mapped
  refine ⟨dev', map', mapped, maps.vmAreas, fun i j k ne => ?_⟩
  unfold userPage
  rcases cell_cases (pdptIdx virt) (pdIdx virt) i j with ⟨rfl, rfl⟩ | other
  · have otherEntry : k ≠ ptIdx virt := by
      intro equal
      exact ne (by rw [equal])
    rcases maps.table with ⟨table, isTable, old, new⟩
    cases present : map.pts (pdptIdx virt) (pdIdx virt) with
    | some _ =>
      rw [present] at backed old
      cases old backed
      simp [isTable, otherEntry]
    | none =>
      rw [present] at backed
      simp [isTable, otherEntry, new backed, pagePr]
  · rw [(maps.others other).2]

end Micro.Mm
