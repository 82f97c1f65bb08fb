import Mathlib.Data.List.Nodup
import Micro.Mm.Frames

/-!
# Ownership of frames

`mmu_create_vmmap` and `mmu_clone_vmmap` take the frames of a new address space from
`mmu_alloc_phys`, and `mmu_destroy_vmmap` gives back every frame it finds in one.
-/

namespace Micro.Mm

open Kern Lib List Option

variable {reserved : Set Nat} {maps : Nat → Option VmMap} {m count i j k : Nat} {own : Prop}
  {table srcpt : Nat → Nat} {map : VmMap} {α σ : Type} {bmp : σ → PhysBmp} {machine : Machine σ}
  {dev : σ} {state : σ × VmMap}

/-! ## Creation -/

/-- The address space made of a list of frames. -/
def created (frames : List Nat) : VmMap where
  pml4Phys := frames.getD 0 0
  pdptPhys := frames.getD 1 0
  physPds := fun i => frames.getD (i + 2) 0
  pds := fun _ _ => 0
  pts := fun _ _ => none
  vmAreas := .create

/-- The number of frames `mmu_create_vmmap` takes. -/
@[irreducible] def createCost : Nat := 512 + 2

theorem createCost_eq : createCost = 512 + 2 := by
  unfold createCost
  rfl

theorem mmuCreateVmmap_eq (machine : Machine σ) (dev : σ) :
    mmuCreateVmmap machine dev =
      ((allocFrames machine createCost dev).1, created (allocFrames machine createCost dev).2) := by
  rw [createCost_eq, allocFrames, allocFrames]
  unfold mmuCreateVmmap
  dsimp only
  generalize allocFrames machine 512 _ = rest
  rfl

/-- Where the frame of a slot stands among those a new address space is made of. -/
def slotIndex : Slot → Option Nat
  | .pml4 => some 0
  | .pdpt => some 1
  | .directory i => some (i + 2)
  | .table _ _ => none
  | .page _ _ _ => none

theorem frameAt_created {frames : List Nat} (length : frames.length = createCost) (slot : Slot) :
    frameAt (created (frames.map (· * 0x1000))) slot =
      (slotIndex slot).bind fun index => frames[index]? := by
  have inList : ∀ {index}, index < 512 + 2 →
      some ((frames.map (· * 0x1000)).getD index 0 / 0x1000) = frames[index]? := by
    intro index small
    have inFrames : index < frames.length := by
      rw [length, createCost_eq]
      exact small
    simp [inFrames]
  cases slot with
  | pml4 => exact inList (by decide)
  | pdpt => exact inList (by decide)
  | directory i =>
    simp only [frameAt]
    split_ifs with small
    · exact inList (by omega)
    · refine (getElem?_eq_none ?_).symm
      rw [length, createCost_eq]
      omega
  | table i j => simp [frameAt, created, slotIndex]
  | page i j k => simp [frameAt, created, slotIndex]

theorem slotIndex_injective {slot other : Slot} {index : Nat} (isIndex : slotIndex slot = some index)
    (isOther : slotIndex other = some index) : slot = other := by
  cases slot <;> cases other <;> simp [slotIndex] at isIndex isOther ⊢ <;> omega

theorem exists_slotIndex (index : Nat) : ∃ slot, slotIndex slot = some index := by
  match index with
  | 0 => exact ⟨.pml4, rfl⟩
  | 1 => exact ⟨.pdpt, rfl⟩
  | i + 2 => exact ⟨.directory i, rfl⟩

theorem tidy_created (frames : List Nat) : Tidy (created frames) where
  backed := by
    simp [Backed, created, pagePr]
  user := by
    intro i j k _ isTable
    cases isTable

section Create

variable (laws : PhysLaws machine bmp)
include laws

theorem Kept.allocFrames {n : Nat} {taken : Set Nat} {dev : σ}
    (kept : Kept bmp reserved taken dev maps (count + n)) :
    ∃ frames : List Nat, (allocFrames machine n dev).2 = frames.map (· * 0x1000) ∧
      frames.length = n ∧ frames.Nodup ∧ (∀ frame ∈ frames, frame ∉ taken ∪ reserved) ∧
      Kept bmp reserved ({frame | frame ∈ frames} ∪ taken) (allocFrames machine n dev).1 maps
        count := by
  induction n generalizing taken dev with
  | zero => simpa [Mm.allocFrames] using kept
  | succ n ih =>
    obtain ⟨frame, isFrame, fresh, keptFrame⟩ := kept.alloc laws
    obtain ⟨frames, isFrames, length, nodup, freshFrames, keptFrames⟩ := ih keptFrame
    refine ⟨frame :: frames, ?_, by rw [length_cons, length], ?_, ?_, ?_⟩
    · rw [Mm.allocFrames, map_cons, isFrame, isFrames]
    · rw [nodup_cons]
      exact ⟨fun mem => freshFrames frame mem (.inl (Set.mem_insert _ _)), nodup⟩
    · rw [forall_mem_cons]
      refine ⟨fresh, fun other mem aside => freshFrames other mem ?_⟩
      exact aside.imp (Set.mem_insert_of_mem _) id
    · have sameTaken : {other | other ∈ frame :: frames} ∪ taken =
          {other | other ∈ frames} ∪ insert frame taken := by
        ext other
        simp only [Set.mem_union, Set.mem_ofPred_eq, mem_cons, Set.mem_insert_iff]
        tauto
      rw [sameTaken]
      exact keptFrames

/-- `mmu_create_vmmap` takes frames and puts them into the slots of a new address space. -/
theorem mmuCreateVmmap_sound (unused : maps m = none)
    (kept : Kept bmp reserved ∅ dev maps (count + createCost)) :
    Sound bmp reserved own ∅ maps m (mmuCreateVmmap machine dev) count := by
  obtain ⟨frames, isFrames, length, nodup, fresh, keptFrames⟩ := kept.allocFrames laws
  rw [mmuCreateVmmap_eq, isFrames]
  have inSlot := frameAt_created length
  have ledger := keptFrames.ledger
  rw [Set.union_assoc] at ledger
  have placed : Ledger (∅ ∪ reserved)
      (usedFrames (bmp (allocFrames machine createCost dev).1))
      (Holds reserved (Function.update maps m (some (created (frames.map (· * 0x1000)))))) := by
    refine @Ledger.place _ _ _ _ _ _ _ (fun owner item =>
      owner.1 = m ∧ frameAt (created (frames.map (· * 0x1000))) owner.2 = some item)
      ledger fresh ?_ ?_ ?_
    · rintro ⟨handle, slot⟩ item
      by_cases same : handle = m
      · subst same
        have noOld : ¬ Holds reserved maps (handle, slot) item := by simp [Holds, unused]
        rw [holds_self]
        simp only [noOld, false_or, true_and, and_iff_left_iff_imp, inSlot]
        intro isItem aside
        obtain ⟨index, _, isFrame⟩ := bind_eq_some_iff.mp isItem
        exact fresh item (mem_of_getElem? isFrame) (.inr aside)
      · rw [holds_other same]
        simp [same]
    · intro item
      simp only [inSlot, mem_iff_getElem?]
      constructor
      · rintro ⟨index, isFrame⟩
        obtain ⟨slot, isIndex⟩ := exists_slotIndex index
        exact ⟨(m, slot), rfl, by rw [isIndex]; exact isFrame⟩
      · rintro ⟨⟨handle, slot⟩, _, isItem⟩
        obtain ⟨index, _, isFrame⟩ := bind_eq_some_iff.mp isItem
        exact ⟨index, isFrame⟩
    · rintro ⟨handle, slot⟩ ⟨_, _⟩ item ⟨sameHandle, isItem⟩ ⟨sameHandle', isItem'⟩
      dsimp only at sameHandle sameHandle' isItem isItem'
      rw [inSlot] at isItem isItem'
      obtain ⟨index, isIndex, isFrame⟩ := bind_eq_some_iff.mp isItem
      obtain ⟨_, isIndex', isFrame'⟩ := bind_eq_some_iff.mp isItem'
      have inFrames := (List.getElem?_eq_some_iff.mp isFrame).1
      obtain rfl := (getElem?_inj inFrames nodup).mp (isFrame.trans isFrame'.symm)
      rw [sameHandle, sameHandle', slotIndex_injective isIndex isIndex']
  refine ⟨⟨placed, keptFrames.spare⟩, tidy_created _, ?_⟩
  intro _ slot frame isFrame aside
  rw [inSlot] at isFrame
  obtain ⟨index, _, isFrame⟩ := bind_eq_some_iff.mp isFrame
  exact fresh frame (mem_of_getElem? isFrame) (.inr aside)

end Create

/-! ## Copying -/

/-- A page table of the address space is replaced. -/
def withTable (map : VmMap) (i j : Nat) (table : Nat → Nat) : VmMap :=
  { map with pts := assign₂ map.pts i j (some table) }

theorem assign₂_eq_self (table : Nat → Nat → α) (i j : Nat) :
    assign₂ table i j (table i j) = table := by
  simp [assign₂]

theorem withTable_self (isTable : map.pts i j = some table) : withTable map i j table = map := by
  rw [withTable, ← isTable, assign₂_eq_self]

theorem setPage_withTable (map : VmMap) (i j k entry : Nat) (table : Nat → Nat) :
    setPage (withTable map i j table) i j k entry =
      withTable map i j (Function.update table k entry) := by
  simp [setPage, withTable, assign₂]

/-- The entry is that of a user page. -/
def isUser (entry : Nat) : Bool := pagePr entry && pageUsr entry

/-- The frames needed to copy one page table. -/
def tableCost (src : VmMap) (index : Nat × Nat) : Nat :=
  match src.pts index.1 index.2 with
  | some srcpt => (List.range 512).countP (fun k => isUser (srcpt k)) + 1
  | none => 0

/-- The frames needed to copy the page tables. -/
def cloneCost (src : VmMap) : Nat := (tableIndices.map (tableCost src)).sum

theorem cloneTable_other_empty {src : VmMap} {index : Nat × Nat} (ne : (i, j) ≠ index) :
    (cloneTable machine src state index).2.pts i j = state.2.pts i j ∧
      (cloneTable machine src state index).2.pds i j = state.2.pds i j := by
  obtain ⟨i', j'⟩ := index
  simp only [cloneTable]
  cases src.pts i' j' with
  | none => simp only [assign₂_of_ne _ _ ne, and_self]
  | some _ => simp only [mktable, assign₂_of_ne _ _ ne, and_self]

theorem tableIndices_nodup : tableIndices.Nodup := by
  unfold tableIndices
  rw [nodup_flatMap]
  constructor
  · intro i _
    exact nodup_range.map fun _ _ same => (Prod.mk.inj same).2
  · refine nodup_range.imp fun {i _} ne => ?_
    intro _ mem mem'
    obtain ⟨_, _, isPair⟩ := List.mem_map.mp mem
    obtain ⟨_, _, isPair'⟩ := List.mem_map.mp mem'
    exact ne (Prod.mk.inj (isPair.trans isPair'.symm)).1

theorem tableIndices_inRange (mem : (i, j) ∈ tableIndices) : i < 512 ∧ j < 512 := by
  unfold tableIndices at mem
  obtain ⟨_, isRow, mem⟩ := mem_flatMap.mp mem
  obtain ⟨_, isColumn, isPair⟩ := List.mem_map.mp mem
  cases isPair
  exact ⟨mem_range.mp isRow, mem_range.mp isColumn⟩

section Clone

variable (laws : PhysLaws machine bmp) {src : VmMap}

include laws

theorem Sound.copyFrame {taken : Set Nat} {src dst : Nat}
    (sound : Sound bmp reserved own taken maps m (dev, map) count) :
    Sound bmp reserved own taken maps m (machine.copyFrame dev src dst, map) count := by
  have same := laws.copy dev src dst
  refine ⟨⟨?_, ?_⟩, sound.tidy, sound.clean⟩
  · rw [same]
    exact sound.kept.ledger
  · rw [same]
    exact sound.kept.spare

theorem cloneEntry_sound (inRange : i < 512 ∧ j < 512 ∧ k < 512) (user : isUser (srcpt k) = true)
    (clear : table k = 0)
    (sound : Sound bmp reserved own ∅ maps m (dev, withTable map i j table) (count + 1)) :
    Sound bmp reserved own ∅ maps m ((cloneEntry machine srcpt (dev, table) k).1,
      withTable map i j (cloneEntry machine srcpt (dev, table) k).2) count := by
  obtain ⟨frame, isFrame, fresh, taken⟩ := sound.alloc laws
  have isTable : (withTable map i j table).pts i j = some table := assign₂_self _ _ _ _
  have absent : isMapped (withTable map i j table) i j k = false := by
    simp [isMapped, isTable, clear, pagePr]
  obtain ⟨present, userPage⟩ := Bool.and_eq_true_iff.mp user
  have adds := frameAt_setPage isTable inRange absent
    (copied_flag (by decide) present : pagePr (srcpt k % 0x1000 ||| frame * 0x1000) = true)
  have isEntry : (srcpt k % 0x1000 ||| frame * 0x1000) / 0x1000 = frame := by
    rw [Nat.or_comm, entry_frame (Nat.mod_lt _ (by decide))]
  rw [isEntry] at adds
  have placed := taken.place fresh adds
    (taken.tidy.setPage isTable (copied_flag (by decide) userPage))
  rw [setPage_withTable] at placed
  simp only [isUser] at user
  simp only [cloneEntry, user, isFrame]
  exact placed.copyFrame laws

theorem cloneEntries_sound (inRange : i < 512 ∧ j < 512) {entries : List Nat}
    {state : σ × (Nat → Nat)} (nodup : entries.Nodup)
    (clear : ∀ k ∈ entries, k < 512 ∧ state.2 k = 0)
    (sound : Sound bmp reserved own ∅ maps m (state.1,
      withTable map i j state.2) (count + entries.countP fun k => isUser (srcpt k))) :
    Sound bmp reserved own ∅ maps m ((entries.foldl (cloneEntry machine srcpt) state).1,
        withTable map i j (entries.foldl (cloneEntry machine srcpt) state).2) count := by
  induction entries generalizing state with
  | nil => exact sound
  | cons k entries ih =>
    obtain ⟨notLater, nodup⟩ := nodup_cons.mp nodup
    rw [forall_mem_cons] at clear
    apply ih nodup
    · intro other mem
      have ne : other ≠ k := fun same => notLater (same ▸ mem)
      refine ⟨(clear.2 other mem).1, ?_⟩
      unfold cloneEntry
      split
      · simp only [Function.update_of_ne ne]
        exact (clear.2 other mem).2
      · exact (clear.2 other mem).2
    · by_cases user : isUser (srcpt k) = true
      · simp only [countP_cons, user] at sound
        exact cloneEntry_sound laws ⟨inRange.1, inRange.2, clear.1.1⟩ user clear.1.2 sound
      · simp only [countP_cons, user] at sound
        simp only [isUser] at user
        simp only [cloneEntry, user]
        exact sound

theorem cloneTable_sound (inRange : i < 512 ∧ j < 512)
    (empty : state.2.pts i j = none ∧ state.2.pds i j = 0)
    (sound : Sound bmp reserved own ∅ maps m state (count + tableCost src (i, j))) :
    Sound bmp reserved own ∅ maps m (cloneTable machine src state (i, j)) count := by
  obtain ⟨dev, map⟩ := state
  simp only [tableCost] at sound
  simp only [cloneTable]
  cases isTable : src.pts i j with
  | none =>
    rw [isTable] at sound
    have sameTables : assign₂ map.pts i j none = map.pts := by
      rw [← empty.1, assign₂_eq_self]
    have sameEntries : assign₂ map.pds i j 0 = map.pds := by
      rw [← empty.2, assign₂_eq_self]
    rw [sameTables, sameEntries]
    exact sound
  | some _ =>
    rw [isTable] at sound
    have nodup : (range 512).Nodup := nodup_range
    have inTable : ∀ k ∈ range 512, k < 512 := fun k => mem_range.mp
    generalize range 512 = entries at sound nodup inTable ⊢
    have made := Sound.mktable laws sound inRange empty.1
    apply cloneEntries_sound laws inRange nodup
    · exact fun k mem => ⟨inTable k mem, rfl⟩
    · rw [withTable_self (mktable_pts machine dev map i j)]
      exact made

theorem cloneTables_sound {cells : List (Nat × Nat)} (nodup : cells.Nodup)
    (empty : ∀ i j, (i, j) ∈ cells → (i < 512 ∧ j < 512) ∧ state.2.pts i j = none ∧
      state.2.pds i j = 0)
    (sound : Sound bmp reserved own ∅ maps m state (count + (cells.map (tableCost src)).sum)) :
    Sound bmp reserved own ∅ maps m (cells.foldl (cloneTable machine src) state) count := by
  induction cells generalizing state with
  | nil => exact sound
  | cons index cells ih =>
    obtain ⟨notLater, nodup⟩ := nodup_cons.mp nodup
    obtain ⟨inRange, here⟩ := empty index.1 index.2 mem_cons_self
    apply ih nodup
    · intro i j mem
      obtain ⟨inRange, old⟩ := empty i j (mem_cons_of_mem _ mem)
      have ne : (i, j) ≠ index := fun same => notLater (same ▸ mem)
      obtain ⟨samePts, samePds⟩ := cloneTable_other_empty ne
      rw [samePts, samePds]
      exact ⟨inRange, old⟩
    · apply cloneTable_sound laws inRange here
      rw [map_cons, sum_cons, Nat.add_comm (tableCost src index), ← Nat.add_assoc] at sound
      exact sound

theorem mmuCloneVmmap_sound (unused : maps m = none)
    (kept : Kept bmp reserved ∅ dev maps (count + cloneCost src + createCost)) :
    Sound bmp reserved own ∅ maps m (mmuCloneVmmap machine dev src) count := by
  rw [mmuCloneVmmap]
  apply cloneTables_sound laws tableIndices_nodup
  · intro i j mem
    rw [mmuCreateVmmap_eq]
    exact ⟨tableIndices_inRange mem, rfl, rfl⟩
  · exact mmuCreateVmmap_sound laws unused kept

end Clone

/-! ## Destruction -/

/-- The frames an address space reaches. -/
def framesOf (map : VmMap) : Set Nat := {frame | ∃ slot, frameAt map slot = some frame}

/-- The frames of one page table: its pages and its own. -/
def tableFrames (map : VmMap) (i j : Nat) : Set Nat :=
  {frame | (∃ k, frameAt map (.page i j k) = some frame) ∨ frameAt map (.table i j) = some frame}

/-- What happens between two states is that some frames are marked as free. -/
def Frees (bmp : σ → PhysBmp) (before after : σ) (frames : Set Nat) : Prop :=
  usedFrames (bmp after) = usedFrames (bmp before) \ frames

/-- The frames of one page directory: those of its page tables and its own. -/
def directoryFrames (map : VmMap) (i : Nat) : Set Nat :=
  {frame | ∃ j ∈ List.range 512, frame ∈ tableFrames map i j} ∪ {map.physPds i / 0x1000}

theorem framesOf_eq (map : VmMap) : framesOf map =
    {frame | ∃ i ∈ range 512, frame ∈ directoryFrames map i} ∪ {map.pml4Phys / 0x1000} ∪
      {map.pdptPhys / 0x1000} := by
  have inTable : ∀ k, k ∈ range 512 ↔ k < 512 := fun k => mem_range
  ext frame
  simp only [directoryFrames, inTable]
  constructor
  · rintro ⟨slot, isFrame⟩
    cases slot with
    | pml4 => exact .inl (.inr (some.inj isFrame).symm)
    | pdpt => exact .inr (some.inj isFrame).symm
    | directory i =>
      obtain ⟨row, isFrame⟩ := ite_none_right_eq_some.mp isFrame
      exact .inl (.inl ⟨i, row, .inr (some.inj isFrame).symm⟩)
    | table i j =>
      obtain ⟨row, column, _⟩ := (ite_none_right_eq_some.mp isFrame).1
      exact .inl (.inl ⟨i, row, .inl ⟨j, column, .inr isFrame⟩⟩)
    | page i j k =>
      obtain ⟨row, column, _⟩ := (ite_none_right_eq_some.mp isFrame).1
      exact .inl (.inl ⟨i, row, .inl ⟨j, column, .inl ⟨k, isFrame⟩⟩⟩)
  · rintro ((⟨i, row, (⟨j, column, (⟨k, isFrame⟩ | isFrame)⟩ | isFrame)⟩ | isFrame) | isFrame)
    · exact ⟨.page i j k, isFrame⟩
    · exact ⟨.table i j, isFrame⟩
    · exact ⟨.directory i, by rw [frameAt, if_pos row, isFrame]⟩
    · exact ⟨.pml4, by rw [frameAt, isFrame]⟩
    · exact ⟨.pdpt, by rw [frameAt, isFrame]⟩

theorem pageFrame_div (entry : Nat) : pageFrame entry / 0x1000 = entry / 0x1000 := by
  simp [pageFrame]

theorem frameAt_page (tidy : Tidy map) (inRange : i < 512 ∧ j < 512)
    (isTable : map.pts i j = some table) (frame : Nat) :
    frameAt map (.page i j k) = some frame ↔
      k < 512 ∧ (pagePr (table k) && pageUsr (table k)) = true ∧ frame = table k / 0x1000 := by
  have user := @tidy.user i j k table isTable
  simp only [frameAt, isMapped, isTable, inRange]
  by_cases present : pagePr (table k) = true
  · simp [present, user present, eq_comm]
  · simp [present]

section Destroy

theorem Frees.none (dev : σ) : Frees bmp dev dev ∅ := by
  rw [Frees, Set.sdiff_empty]

theorem Frees.trans {first second third : σ} {frames others : Set Nat}
    (before : Frees bmp first second frames) (after : Frees bmp second third others) :
    Frees bmp first third (frames ∪ others) := by
  rw [Frees, after, before, Set.sdiff_sdiff]

theorem Frees.foldl {step : σ → α → σ} {frames : α → Set Nat} {items : List α}
    (each : ∀ item ∈ items, ∀ dev, Frees bmp dev (step dev item) (frames item)) :
    Frees bmp dev (items.foldl step dev) {frame | ∃ item ∈ items, frame ∈ frames item} := by
  induction items generalizing dev with
  | nil =>
    simpa using Frees.none dev
  | cons item items ih =>
    rw [forall_mem_cons] at each
    have both := (each.1 dev).trans (ih each.2)
    have sameFrames : {frame | ∃ other ∈ item :: items, frame ∈ frames other} =
        frames item ∪ {frame | ∃ other ∈ items, frame ∈ frames other} := by
      ext frame
      simp
    rw [sameFrames]
    exact both

variable (laws : PhysLaws machine bmp)
include laws

theorem mmuFreePhys_frees (dev : σ) (p : Nat) :
    Frees bmp dev (machine.mmuFreePhys dev p) {p / 0x1000} := by
  rw [Frees, laws.free]
  exact usedFrames_clearBit _ _

variable (tidy : Tidy map)
include tidy

theorem destroyTable_frees (inRange : i < 512 ∧ j < 512) (dev : σ) :
    Frees bmp dev (destroyTable machine map dev (i, j)) (tableFrames map i j) := by
  simp only [destroyTable]
  cases isTable : map.pts i j with
  | none =>
    have noFrames : tableFrames map i j = ∅ := by
      simp [tableFrames, frameAt, isTable]
    rw [noFrames]
    exact .none dev
  | some table =>
    have inTable : ∀ k, k ∈ range 512 ↔ k < 512 := fun k => mem_range
    have sameFrames : tableFrames map i j =
        {frame | ∃ k ∈ range 512, frame ∈
          {g | (pagePr (table k) && pageUsr (table k)) = true ∧ g = table k / 0x1000}} ∪
        {pageFrame (map.pds i j) / 0x1000} := by
      ext frame
      have own : frameAt map (.table i j) = some (map.pds i j / 0x1000) := by
        simp [frameAt, inRange, isTable]
      simp only [tableFrames, frameAt_page tidy inRange isTable, own, pageFrame_div, inTable,
        Set.mem_union, Set.mem_ofPred_eq, Set.mem_singleton_iff, some.injEq, eq_comm]
    rw [sameFrames]
    refine (Frees.foldl fun k _ dev => ?_).trans (mmuFreePhys_frees laws _ _)
    by_cases user : (pagePr (table k) && pageUsr (table k)) = true
    · have page : {g | (pagePr (table k) && pageUsr (table k)) = true ∧ g = table k / 0x1000} =
          {pageFrame (table k) / 0x1000} := by
        simp [user, pageFrame_div]
      rw [if_pos user, page]
      exact mmuFreePhys_frees laws dev (pageFrame (table k))
    · have page : {g | (pagePr (table k) && pageUsr (table k)) = true ∧ g = table k / 0x1000} = ∅ := by
        simp [user]
      rw [if_neg user, page]
      exact .none dev

theorem destroyDirectory_frees (inRange : i < 512) (dev : σ) :
    Frees bmp dev (destroyDirectory machine map dev i) (directoryFrames map i) := by
  refine (Frees.foldl fun j mem dev => ?_).trans (mmuFreePhys_frees laws _ _)
  exact destroyTable_frees laws tidy ⟨inRange, mem_range.mp mem⟩ dev

theorem mmuDestroyVmmap_frees (dev : σ) :
    Frees bmp dev (mmuDestroyVmmap machine dev map) (framesOf map) := by
  rw [framesOf_eq, mmuDestroyVmmap]
  refine ((Frees.foldl fun i mem dev => ?_).trans (mmuFreePhys_frees laws _ _)).trans
    (mmuFreePhys_frees laws _ _)
  exact destroyDirectory_frees laws tidy (mem_range.mp mem) dev

end Destroy

end Micro.Mm
