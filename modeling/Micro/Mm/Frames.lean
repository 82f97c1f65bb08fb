import Micro.Lib.Run
import Micro.Mm.Clone
import Micro.Mm.Phys

/-!
# Frames of address spaces

The frames an address space is made of: its page directories and page tables, and the
pages they map.  Every one of them comes from `mmu_alloc_phys`, except the pages of
device memory that `fb_mmap` and `vga_mmap` map, and `mmu_destroy_vmmap` gives back every
one of them, including those.

Frames are numbered: frame `n` is at address `0x1000 * n`.
-/

namespace Micro.Mm

open Kern Lib List Function Option

variable {frame i j flags k m g count phys base index size : Nat} {map : VmMap}
  {maps : Nat → Option VmMap} {taken : Set Nat} {own : Prop} {σ : Type} {machine : Machine σ}
  {dev : σ}

/-! ## Slots -/

variable {entry : Nat} {table : Nat → Nat}

/-- A place in an address space that holds the address of a frame. -/
inductive Slot where
  | pml4
  | pdpt
  | directory (i : Nat)
  | table (i j : Nat)
  | page (i j k : Nat)
  deriving DecidableEq

/-- The entry of a page is present. -/
def isMapped (map : VmMap) (i j k : Nat) : Bool :=
  match map.pts i j with
  | some table => pagePr (table k)
  | none => false

def frameAt (map : VmMap) : Slot → Option Nat
  | .pml4 => some (map.pml4Phys / 0x1000)
  | .pdpt => some (map.pdptPhys / 0x1000)
  | .directory i => if i < 512 then some (map.physPds i / 0x1000) else none
  | .table i j =>
      if i < 512 ∧ j < 512 ∧ (map.pts i j).isSome then some (map.pds i j / 0x1000) else none
  | .page i j k =>
      if i < 512 ∧ j < 512 ∧ k < 512 ∧ isMapped map i j k then
        (map.pts i j).map fun table => table k / 0x1000
      else none

/-- Directory entries are present where there are tables, and present pages are user
pages. -/
structure Tidy (map : VmMap) : Prop where
  backed : ∀ i j, Backed map i j
  user : ∀ {i j k table}, map.pts i j = some table → pagePr (table k) = true →
    pageUsr (table k) = true

theorem entry_frame (small : flags < 0x1000) : (frame * 0x1000 ||| flags) / 0x1000 = frame := by
  have sum := Nat.shiftLeft_add_eq_or_of_lt (show flags < 2 ^ 12 from small) frame
  rw [Nat.shiftLeft_eq] at sum
  rw [← sum]
  omega

/-- Assign an entry of a table. -/
def setPage (map : VmMap) (i j k entry : Nat) : VmMap :=
  match map.pts i j with
  | some table =>
      { map with pts := assign₂ map.pts i j (some (Function.update table k entry)) }
  | none => map

theorem isMapped_setPage (isTable : map.pts i j = some table) (present : pagePr entry = true)
    (i' j' k' : Nat) :
    isMapped (setPage map i j k entry) i' j' k' = true ↔
      isMapped map i' j' k' = true ∨ (i', j', k') = (i, j, k) := by
  simp only [setPage, isTable, isMapped]
  rcases cell_cases i j i' j' with ⟨rfl, rfl⟩ | sameCell
  · by_cases sameEntry : k' = k
    · simp [sameEntry, present]
    · simp [sameEntry, isTable]
  · have ne : ¬ (i', j', k') = (i, j, k) := by
      intro same
      simp only [Prod.mk.injEq] at same
      exact sameCell (by rw [same.1, same.2.1])
    simp only [assign₂_of_ne _ _ sameCell, ne, or_false]

/-- One slot gets a frame; nothing else changes. -/
def AddsFrame (map after : VmMap) (slot : Slot) (frame : Nat) : Prop :=
  ∀ other g, frameAt after other = some g ↔ frameAt map other = some g ∨ other = slot ∧ g = frame

/-- A page that was not present gets the frame of its entry. -/
theorem frameAt_setPage (isTable : map.pts i j = some table) (inRange : i < 512 ∧ j < 512 ∧ k < 512)
    (absent : isMapped map i j k = false) (present : pagePr entry = true) :
    AddsFrame map (setPage map i j k entry) (.page i j k) (entry / 0x1000) := by
  intro slot g
  cases slot with
  | pml4 | pdpt | directory => simp [frameAt, setPage, isTable]
  | table i' j' =>
    simp only [frameAt, setPage, isTable]
    rcases cell_cases i j i' j' with ⟨rfl, rfl⟩ | sameCell
    · simp [isTable]
    · simp [assign₂_of_ne _ _ sameCell]
  | page i' j' k' =>
    simp only [frameAt, isMapped_setPage isTable present, Slot.page.injEq]
    by_cases same : (i', j', k') = (i, j, k)
    · cases same
      simp [setPage, isTable, inRange, absent, eq_comm]
    · have ne : ¬ (i' = i ∧ j' = j ∧ k' = k) := by simpa using same
      simp only [same, or_false, ne, false_and]
      have sameEntry : ((setPage map i j k entry).pts i' j').map (fun table => table k' / 0x1000) =
          (map.pts i' j').map fun table => table k' / 0x1000 := by
        simp only [setPage, isTable]
        rcases cell_cases i j i' j' with ⟨rfl, rfl⟩ | sameCell
        · have other : k' ≠ k := fun equal => ne ⟨rfl, rfl, equal⟩
          simp [isTable, other]
        · simp [assign₂_of_ne _ _ sameCell]
      rw [sameEntry]

theorem mktable_pts (machine : Machine σ) (dev : σ) (map : VmMap) (i j : Nat) :
    (mktable machine dev map i j).2.pts i j = some fun _ => 0 := assign₂_self _ _ _ _

theorem isMapped_mktable (noTable : map.pts i j = none) (i' j' k' : Nat) :
    isMapped (mktable machine dev map i j).2 i' j' k' = isMapped map i' j' k' := by
  simp only [isMapped, mktable]
  rcases cell_cases i j i' j' with ⟨rfl, rfl⟩ | sameCell
  · simp [noTable, pagePr]
  · simp only [assign₂_of_ne _ _ sameCell]

theorem frameAt_mktable (noTable : map.pts i j = none) (inRange : i < 512 ∧ j < 512)
    (isFrame : (machine.mmuAllocPhys dev).2 = frame * 0x1000) :
    AddsFrame map (mktable machine dev map i j).2 (.table i j) frame := by
  intro slot g
  cases slot with
  | pml4 | pdpt | directory => simp [frameAt, mktable]
  | table i' j' =>
    simp only [frameAt, mktable]
    rcases cell_cases i j i' j' with ⟨rfl, rfl⟩ | sameCell
    · simp [noTable, inRange, isFrame, entry_frame (by decide : 7 < 0x1000), eq_comm]
    · have ne : ¬ (i' = i ∧ j' = j) := by simpa using sameCell
      simp [assign₂_of_ne _ _ sameCell, ne]
  | page i' j' _ =>
    simp only [frameAt, isMapped_mktable noTable]
    rcases cell_cases i j i' j' with ⟨rfl, rfl⟩ | sameCell
    · simp [isMapped, noTable]
    · simp [mktable, assign₂_of_ne _ _ sameCell]

/-! ## The ledger of frames -/

variable {bmp : σ → PhysBmp} {reserved : Set Nat} {slot : Slot} {after : VmMap}

/-- A slot of a live address space, with the frame in it; frames set aside are nobody's. -/
def Holds (reserved : Set Nat) (maps : Nat → Option VmMap) (owner : Nat × Slot) (frame : Nat) :
    Prop :=
  ∃ map, maps owner.1 = some map ∧ frameAt map owner.2 = some frame ∧ frame ∉ reserved

theorem holds_self : Holds reserved (update maps m (some map)) (m, slot) g ↔
      frameAt map slot = some g ∧ g ∉ reserved := by
  simp [Holds]

theorem holds_other {cell : Option VmMap} {owner : Nat × Slot} (ne : owner.1 ≠ m) :
    Holds reserved (update maps m cell) owner g ↔ Holds reserved maps owner g := by
  simp [Holds, update_of_ne ne]

theorem holds_update (adds : AddsFrame map after slot frame) (fresh : frame ∉ reserved)
    (owner : Nat × Slot) (g : Nat) :
    Holds reserved (update maps m (some after)) owner g ↔
      Holds reserved (update maps m (some map)) owner g ∨ owner = (m, slot) ∧ g = frame := by
  obtain ⟨handle, other⟩ := owner
  by_cases same : handle = m
  · subst same
    rw [holds_self, holds_self, adds]
    constructor
    · rintro ⟨old | ⟨isSlot, isFrame⟩, free⟩
      · exact .inl ⟨old, free⟩
      · exact .inr ⟨by rw [isSlot], isFrame⟩
    · rintro (⟨old, free⟩ | ⟨isOwner, isFrame⟩)
      · exact ⟨.inl old, free⟩
      · subst isFrame
        exact ⟨.inr ⟨(Prod.mk.inj isOwner).2, rfl⟩, fresh⟩
  · have ne : ¬ (handle, other) = (m, slot) := fun equal => same (Prod.mk.inj equal).1
    rw [holds_other same, holds_other same]
    simp [ne]

theorem holds_congr
    (same : ∀ slot g, g ∉ reserved → (frameAt after slot = some g ↔ frameAt map slot = some g)) :
    Holds reserved (update maps m (some after)) = Holds reserved (update maps m (some map)) := by
  funext ⟨handle, slot⟩ g
  apply propext
  by_cases equal : handle = m
  · subst equal
    rw [holds_self, holds_self]
    exact and_congr_left (same slot g)
  · rw [holds_other equal, holds_other equal]

section Kept

variable (bmp reserved)

/-- The frames in use are those set aside, those of the address spaces, and some that
have just been taken; and so many are left. -/
structure Kept (taken : Set Nat) (dev : σ) (maps : Nat → Option VmMap) (count : Nat) : Prop where
  ledger : Ledger (taken ∪ reserved) (usedFrames (bmp dev)) (Holds reserved maps)
  spare : Spare allFrames (usedFrames (bmp dev)) count

variable {bmp reserved} (laws : PhysLaws machine bmp)

include laws in
theorem Kept.alloc (kept : Kept bmp reserved taken dev maps (count + 1)) :
    ∃ frame, (machine.mmuAllocPhys dev).2 = frame * 0x1000 ∧ frame ∉ taken ∪ reserved ∧
      Kept bmp reserved (insert frame taken) (machine.mmuAllocPhys dev).1 maps count := by
  have answer := laws.alloc dev
  obtain ⟨frame, free, isFrame, marks, left⟩ := mmuAllocPhys_spare kept.spare
  rw [← answer] at isFrame marks left
  refine ⟨frame, isFrame, fun aside => free ?_, ?_, left⟩
  · exact kept.ledger.mem_used.mpr (.inl aside)
  · rw [marks, Set.insert_union]
    exact kept.ledger.take free

/-- A frame that was taken is put into an empty slot. -/
theorem Kept.place {after : VmMap} {slot : Slot}
    (kept : Kept bmp reserved (insert frame taken) dev (update maps m (some map)) count)
    (fresh : frame ∉ taken ∪ reserved) (adds : AddsFrame map after slot frame) :
    Kept bmp reserved taken dev (update maps m (some after)) count where
  ledger := by
    have ledger := kept.ledger
    rw [Set.insert_union, Set.insert_eq] at ledger
    refine ledger.place ?_ (holds_update adds fun aside => fresh (.inr aside)) ?_ ?_
    · intro item isFrame
      rw [Set.mem_singleton_iff.mp isFrame]
      exact fresh
    · simp
    · rintro _ _ item ⟨isOwner, _⟩ ⟨isOther, _⟩
      rw [isOwner, isOther]
  spare := kept.spare

theorem Kept.placeReserved {after : VmMap} {slot : Slot}
    (kept : Kept bmp reserved taken dev (update maps m (some map)) count)
    (isReserved : frame ∈ reserved) (adds : AddsFrame map after slot frame) :
    Kept bmp reserved taken dev (update maps m (some after)) count := by
  have same := @holds_congr m map maps reserved after fun _ g free => by
    rw [adds]
    exact or_iff_left fun new => free (new.2 ▸ isReserved)
  exact ⟨same ▸ kept.ledger, kept.spare⟩

end Kept

/-! ## One page -/

theorem pagePr_or (left right : Nat) : pagePr (left ||| right) = (pagePr left || pagePr right) := by
  simp only [pagePr, Nat.testBit_or]

theorem pageUsr_or (left right : Nat) :
    pageUsr (left ||| right) = (pageUsr left || pageUsr right) := by
  simp only [pageUsr, Nat.testBit_or]

theorem Tidy.setPage (tidy : Tidy map) (isTable : map.pts i j = some table)
    (user : pageUsr entry = true) : Tidy (setPage map i j k entry) := by
  simp only [Mm.setPage, isTable]
  constructor
  · intro i' j'
    have backed := tidy.backed i' j'
    simp only [Backed] at backed ⊢
    rcases cell_cases i j i' j' with ⟨rfl, rfl⟩ | sameCell
    · simpa [isTable] using backed
    · simpa [assign₂_of_ne _ _ sameCell] using backed
  · intro i' j' k' _ isOther present
    rcases cell_cases i j i' j' with ⟨rfl, rfl⟩ | sameCell
    · simp only [assign₂_self, some.injEq] at isOther
      subst isOther
      by_cases sameEntry : k' = k
      · simpa [sameEntry] using user
      · simp only [update_of_ne sameEntry] at present ⊢
        exact tidy.user isTable present
    · simp only [assign₂_of_ne _ _ sameCell] at isOther
      exact tidy.user isOther present

theorem Tidy.mktable (tidy : Tidy map) (machine : Machine σ) (dev : σ) (i j : Nat) :
    Tidy (mktable machine dev map i j).2 := by
  simp only [Mm.mktable]
  constructor
  · intro i' j'
    have backed := tidy.backed i' j'
    simp only [Backed] at backed ⊢
    rcases cell_cases i j i' j' with ⟨rfl, rfl⟩ | sameCell
    · simp only [assign₂_self, pagePr_or, isSome_some, Bool.or_eq_true]
      exact .inr (by decide)
    · simpa [assign₂_of_ne _ _ sameCell] using backed
  · intro i' j' _ _ isOther present
    rcases cell_cases i j i' j' with ⟨rfl, rfl⟩ | sameCell
    · simp only [assign₂_self, some.injEq] at isOther
      subst isOther
      exact absurd present (show ¬ pagePr 0 = true by decide)
    · simp only [assign₂_of_ne _ _ sameCell] at isOther
      exact tidy.user isOther present

section Sound

variable (bmp reserved)

/-- An address space that is being changed.  It holds no reserved frame if it is to be its
own. -/
structure Sound (own : Prop) (taken : Set Nat) (maps : Nat → Option VmMap) (m : Nat)
    (state : σ × VmMap) (count : Nat) : Prop where
  kept : Kept bmp reserved taken state.1 (Function.update maps m (some state.2)) count
  tidy : Tidy state.2
  clean : own → ∀ slot frame, frameAt state.2 slot = some frame → frame ∉ reserved

variable {bmp reserved} (laws : PhysLaws machine bmp)

section

variable (sound : Sound bmp reserved own taken maps m (dev, map) count)
include sound

theorem Sound.weaken {own' : Prop} (weaker : own' → own) :
    Sound bmp reserved own' taken maps m (dev, map) count :=
  ⟨sound.kept, sound.tidy, fun isOwn => sound.clean (weaker isOwn)⟩

theorem Sound.mono {fewer : Nat} (le : fewer ≤ count) :
    Sound bmp reserved own taken maps m (dev, map) fewer :=
  ⟨⟨sound.kept.ledger, sound.kept.spare.mono le⟩, sound.tidy, sound.clean⟩

end

theorem Sound.place {after : VmMap} {slot : Slot}
    (sound : Sound bmp reserved own (insert frame taken) maps m (dev, map) count)
    (fresh : frame ∉ taken ∪ reserved) (adds : AddsFrame map after slot frame) (tidy : Tidy after) :
    Sound bmp reserved own taken maps m (dev, after) count := by
  refine ⟨sound.kept.place fresh adds, tidy, ?_⟩
  intro isOwn other g inSlot
  rcases (adds other g).mp inSlot with old | ⟨_, isNew⟩
  · exact sound.clean isOwn other g old
  · rw [isNew]
    exact fun aside => fresh (.inr aside)

include laws

variable (sound : Sound bmp reserved own taken maps m (dev, map) (count + 1))
include sound

theorem Sound.alloc :
    ∃ frame, (machine.mmuAllocPhys dev).2 = frame * 0x1000 ∧ frame ∉ taken ∪ reserved ∧
      Sound bmp reserved own (insert frame taken) maps m ((machine.mmuAllocPhys dev).1, map)
        count := by
  obtain ⟨frame, isFrame, fresh, kept⟩ := sound.kept.alloc laws
  exact ⟨frame, isFrame, fresh, kept, sound.tidy, sound.clean⟩

theorem Sound.mktable (inRange : i < 512 ∧ j < 512) (noTable : map.pts i j = none) :
    Sound bmp reserved own taken maps m (mktable machine dev map i j) count := by
  obtain ⟨_, isFrame, fresh, after⟩ := sound.alloc laws
  exact after.place fresh (frameAt_mktable noTable inRange isFrame)
    (sound.tidy.mktable machine dev i j)

/-- The head of `mmu_map`: afterwards there is a table, and the same pages are present. -/
theorem Sound.needTable (inRange : i < 512 ∧ j < 512) :
    Sound bmp reserved own taken maps m (needTable machine dev map i j) count ∧
      (∃ table, (needTable machine dev map i j).2.pts i j = some table) ∧
      ∀ i' j' k', isMapped (needTable machine dev map i j).2 i' j' k' = isMapped map i' j' k' := by
  have backed : pagePr (map.pds i j) = (map.pts i j).isSome := sound.tidy.backed i j
  simp only [Mm.needTable]
  split_ifs with present
  · refine ⟨sound.mono (Nat.le_succ _), ?_, fun _ _ _ => rfl⟩
    exact isSome_iff_exists.mp (backed ▸ present)
  · have noTable : map.pts i j = none := by
      rw [← not_isSome_iff_eq_none, ← backed]
      exact present
    refine ⟨sound.mktable laws inRange noTable, ?_, isMapped_mktable noTable⟩
    exact ⟨_, mktable_pts machine dev map i j⟩

end Sound

def cell (virt : Nat) : Nat × Nat × Nat := (pdptIdx virt, pdIdx virt, ptIdx virt)

/-- The page at an address is not present. -/
abbrev Absent (map : VmMap) (virt : Nat) : Prop :=
  isMapped map (pdptIdx virt) (pdIdx virt) (ptIdx virt) = false

/-- The page at an address becomes present. -/
def MapsOne (map after : VmMap) (virt : Nat) : Prop :=
  ∀ i j k, isMapped after i j k = true ↔ isMapped map i j k = true ∨ (i, j, k) = cell virt

theorem cell_inRange (virt : Nat) : pdptIdx virt < 512 ∧ pdIdx virt < 512 ∧ ptIdx virt < 512 :=
  ⟨Nat.mod_lt _ (by decide), Nat.mod_lt _ (by decide), Nat.mod_lt _ (by decide)⟩

theorem mmuMap_eq {virt : Nat}
    (isTable : (needTable machine dev map (pdptIdx virt) (pdIdx virt)).2.pts (pdptIdx virt)
      (pdIdx virt) = some table) :
    mmuMap machine dev map virt phys flags =
      some ((needTable machine dev map (pdptIdx virt) (pdIdx virt)).1,
        setPage (needTable machine dev map (pdptIdx virt) (pdIdx virt)).2 (pdptIdx virt)
          (pdIdx virt) (ptIdx virt) (phys ||| flags ||| 4)) := by
  simp only [mmuMap, isTable, setPage]

section Map

variable (laws : PhysLaws machine bmp) {virt : Nat} {after : σ × VmMap} (absent : Absent map virt)
  (mapped : mmuMap machine dev map virt (frame * 0x1000) flags = some after)
  (small : flags < 0x1000) (present : pagePr flags = true)

include laws absent mapped small present

/-- `mmu_map` where no page was present: a table is found or made, and the entry assigned. -/
theorem Sound.setsPage (sound : Sound bmp reserved own taken maps m (dev, map) (count + 1)) :
    ∃ ready, Sound bmp reserved own taken maps m (after.1, ready) count ∧
      AddsFrame ready after.2 (.page (pdptIdx virt) (pdIdx virt) (ptIdx virt)) frame ∧
      Tidy after.2 ∧ MapsOne map after.2 virt := by
  obtain ⟨row, column, index⟩ := cell_inRange virt
  obtain ⟨ready, ⟨_, isTable⟩, sameMapped⟩ := sound.needTable laws ⟨row, column⟩
  rw [mmuMap_eq isTable, Nat.or_assoc] at mapped
  obtain rfl := some.inj mapped
  have smallFlags : flags ||| 4 < 0x1000 := Nat.or_lt_two_pow (n := 12) small (by decide)
  have isPresent : pagePr (frame * 0x1000 ||| (flags ||| 4)) = true := by
    simp [pagePr_or, present]
  have isUser : pageUsr (frame * 0x1000 ||| (flags ||| 4)) = true := by
    simp [pageUsr_or, show pageUsr 4 = true by decide]
  have absentReady := (sameMapped (pdptIdx virt) (pdIdx virt) (ptIdx virt)).trans absent
  refine ⟨(Mm.needTable machine dev map (pdptIdx virt) (pdIdx virt)).2, ready, fun _ g => ?_,
    ready.tidy.setPage isTable isUser, fun i j k => ?_⟩
  · rw [frameAt_setPage isTable ⟨row, column, index⟩ absentReady isPresent, entry_frame smallFlags]
  · rw [isMapped_setPage isTable isPresent, sameMapped, cell]

theorem Sound.mapOwn
    (sound : Sound bmp reserved own (insert frame taken) maps m (dev, map) (count + 1))
    (fresh : frame ∉ taken ∪ reserved) :
    Sound bmp reserved own taken maps m after count ∧ MapsOne map after.2 virt := by
  obtain ⟨_, soundReady, adds, tidy, mappedAfter⟩ := sound.setsPage laws absent mapped small present
  exact ⟨soundReady.place fresh adds tidy, mappedAfter⟩

theorem Sound.mapReserved (sound : Sound bmp reserved False taken maps m (dev, map) (count + 1))
    (isReserved : frame ∈ reserved) :
    Sound bmp reserved False taken maps m after count ∧ MapsOne map after.2 virt := by
  obtain ⟨_, soundReady, adds, tidy, mappedAfter⟩ := sound.setsPage laws absent mapped small present
  exact ⟨⟨soundReady.kept.placeReserved isReserved adds, tidy, False.elim⟩, mappedAfter⟩

end Map

/-! ## Several pages -/

/-- The pages at some addresses are different and not present. -/
def Unmapped (map : VmMap) (virts : List Nat) : Prop :=
  (virts.map cell).Nodup ∧
    ∀ virt ∈ virts, isMapped map (pdptIdx virt) (pdIdx virt) (ptIdx virt) = false

/-- A loop whose rounds each map one page where none is present. -/
theorem mapPages_sound (cost : Nat) {round : σ × VmMap → Nat → Option (σ × VmMap)}
    {virt : Nat → Nat} {indices : List Nat} {state final : σ × VmMap} {count : Nat}
    (rounds : ∀ {state after i count}, i ∈ indices →
      Sound bmp reserved own ∅ maps m state (count + cost) → Absent state.2 (virt i) →
        round state i = some after → Sound bmp reserved own ∅ maps m after count ∧
          MapsOne state.2 after.2 (virt i))
    (sound : Sound bmp reserved own ∅ maps m state (count + cost * indices.length))
    (unmapped : Unmapped state.2 (indices.map virt))
    (ran : indices.foldlM round state = some final) :
    Sound bmp reserved own ∅ maps m final count := by
  induction indices generalizing state final count with
  | nil =>
    cases ran
    exact sound
  | cons i indices ih =>
    obtain ⟨after, first, rest⟩ := bind_eq_some_iff.mp ran
    obtain ⟨distinct, absent⟩ := unmapped
    simp only [map_cons, nodup_cons, forall_mem_cons] at distinct absent
    obtain ⟨notLater, distinct⟩ := distinct
    have enough : Sound bmp reserved own ∅ maps m state (count + cost * indices.length + cost) := by
      have total : count + cost * (i :: indices).length = count + cost * indices.length + cost := by
        rw [length_cons, Nat.mul_succ, Nat.add_assoc]
      exact total ▸ sound
    obtain ⟨soundAfter, mappedAfter⟩ := rounds mem_cons_self enough absent.1 first
    refine ih (fun mem => rounds (mem_cons_of_mem _ mem)) soundAfter ⟨distinct, ?_⟩ rest
    intro other mem
    rw [Bool.eq_false_iff]
    intro mapped
    rcases (mappedAfter _ _ _).mp mapped with old | same
    · rw [absent.2 other mem] at old
      cases old
    · apply notLater
      rw [← same]
      exact mem_map_of_mem mem

/-! ## Areas -/

variable {fixed : Bool}

theorem SameTables.trans {first second third : VmMap} (before : SameTables first second)
    (after : SameTables second third) : SameTables first third := by
  rw [before] at after
  exact after

theorem SameTables.frameAt (same : SameTables map after) (slot : Slot) :
    frameAt after slot = frameAt map slot := by
  rw [same]
  cases slot <;> rfl

theorem setObj_tables (map : VmMap) (index : Nat) (obj : VmObject) :
    SameTables map (setObj map index obj) := rfl

theorem vmMapAnon_tables (found : vmMapAnon map base size fixed = some (after, index)) :
    SameTables map after := by
  simp only [vmMapAnon] at found
  cases isFound : allocVmarea map base size fixed with
  | none =>
    simp only [isFound] at found
    cases found
  | some _ =>
    simp only [isFound] at found
    cases found
    obtain ⟨_, sameTables, _⟩ := allocVmarea_new isFound
    exact sameTables.trans (setObj_tables _ _ _)

theorem Tidy.areas (tidy : Tidy map) (same : SameTables map after) : Tidy after := by
  rw [same]
  exact ⟨tidy.backed, tidy.user⟩

theorem Sound.areas (sound : Sound bmp reserved own taken maps m (dev, map) count) (same : SameTables map after) :
    Sound bmp reserved own taken maps m (dev, after) count := by
  have sameHolds := @holds_congr m map maps reserved after fun slot g _ => by rw [same.frameAt]
  refine ⟨⟨sameHolds ▸ sound.kept.ledger, sound.kept.spare⟩, sound.tidy.areas same, ?_⟩
  intro isOwn slot frame inSlot
  exact sound.clean isOwn slot frame ((same.frameAt slot).symm.trans inSlot)

/-! ## The calls that map pages -/

section Calls

variable (laws : PhysLaws machine bmp) {area : VmArea}
  {after : σ × VmMap}

include laws

theorem Sound.allocPage {virt : Nat} {obj : VmObject}
    (sound : Sound bmp reserved own ∅ maps m (dev, map) (count + 2)) (absent : Absent map virt)
    (mapped : mmuMap machine (machine.mmuAllocPhys dev).1 (setObj map index obj) virt
      (machine.mmuAllocPhys dev).2 3 = some after) :
    Sound bmp reserved own ∅ maps m after count ∧ MapsOne map after.2 virt := by
  obtain ⟨_, isFrame, fresh, taken⟩ := sound.alloc laws
  rw [isFrame] at mapped
  have absent : Absent (setObj map index obj) virt := absent
  have sound := taken.areas (setObj_tables map index obj)
  have placed := sound.mapOwn laws absent mapped (by decide) (by decide) fresh
  exact placed

/-- The addresses `vm_map_anon_alloc` maps pages at. -/
def anonVirts (area : VmArea) (base size : Nat) : List Nat :=
  (List.range' (subWord base area.base / 0x1000)
    (addWord (subWord base area.base) size / 0x1000 - subWord base area.base / 0x1000)).map
      fun i => addWord (i * 0x1000) area.base

theorem vmMapAnonAlloc_sound (isArea : map.vmAreas.items[index]? = some area)
    (sound : Sound bmp reserved own ∅ maps m (dev, map)
      (count + 2 * (anonVirts area base size).length))
    (unmapped : Unmapped map (anonVirts area base size))
    (ran : vmMapAnonAlloc machine dev map index base size = some after) :
    Sound bmp reserved own ∅ maps m after count := by
  simp only [vmMapAnonAlloc, isArea] at ran
  refine mapPages_sound 2 ?_ ?_ unmapped ran
  · intro _ _ _ _ _ sound absent ran
    obtain ⟨_, _, rest⟩ := bind_eq_some_iff.mp ran
    split at rest
    · exact sound.allocPage laws absent rest
    · cases rest
  · rw [anonVirts, length_map] at sound
    exact sound

theorem faultScan_sound {addr : Nat} {code : Int} {dev' : σ} {after : VmMap}
    (sound : Sound bmp reserved own ∅ maps m (dev, map) (count + 2)) (absent : Absent map addr)
    {areas : List VmArea} {index : Nat}
    (ran : faultScan machine dev map addr areas index = some (dev', after, code)) :
    Sound bmp reserved own ∅ maps m (dev', after) count := by
  induction areas generalizing index with
  | nil =>
    cases ran
    exact sound.mono (Nat.le_add_right _ _)
  | cons _ areas ih =>
    simp only [faultScan] at ran
    split at ran
    · split at ran
      · cases ran
      · obtain ⟨_, mapped, isDone⟩ := map_eq_some_iff.mp ran
        cases isDone
        exact (sound.allocPage laws absent mapped).1
      · exact ih ran
    · exact ih ran

/-- The addresses the `mmap` of a device maps pages at. -/
def deviceVirts (area : VmArea) : List Nat :=
  (List.range (subWord area.end_ area.base / 0x1000)).map fun i => addWord area.base (i * 0x1000)

theorem deviceMmap_sound (aligned : phys % 0x1000 = 0)
    (isReserved : ∀ i < (deviceVirts area).length, addWord phys (i * 0x1000) / 0x1000 ∈ reserved)
    (sound : Sound bmp reserved False ∅ maps m (dev, map) (count + (deviceVirts area).length))
    (unmapped : Unmapped map (deviceVirts area))
    (ran : deviceMmap machine phys (dev, map) area = some after) :
    Sound bmp reserved False ∅ maps m after count := by
  simp only [deviceVirts, length_map, length_range] at isReserved sound
  refine mapPages_sound 1 ?_ ?_ unmapped ran
  · intro _ after i count mem sound absent mapped
    have isFrame : addWord phys (i * 0x1000) = addWord phys (i * 0x1000) / 0x1000 * 0x1000 := by
      simp only [addWord]
      omega
    rw [mmapPage, isFrame] at mapped
    exact sound.mapReserved laws absent mapped (by decide) (by decide)
      (isReserved i (mem_range.mp mem))
  · rw [length_range, Nat.one_mul]
    exact sound

end Calls

end Micro.Mm
