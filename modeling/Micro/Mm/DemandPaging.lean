import Micro.Fs.UniqueNames
import Micro.Mm.FrameCalls
import Micro.Mm.Mmap
import Micro.Mm.Spaces

/-!
# Demand paging

Anonymous memory gets its frames when it is first touched: the page fault handler looks for the
area of the address, takes a frame, notes it in the page array of the area and maps it.  Areas
are ranges of bytes and faults are handled page by page, so the handler asks for an area that
has the whole page.  A page of which the area has only a part is never mapped.
-/

namespace Micro.Mm

open Kern Lib Fs Function Option

variable {map map' : VmMap} {area : VmArea} {areas : List VmArea} {start flags : Nat} {σ : Type}
  {machine : Machine σ} {dev dev' : σ}

/-- The first byte of the page of an address. -/
def pageOf (a : Nat) : Nat := a - a % 0x1000

/-- The test of `vm_map_handle_fault` for the area of a page. -/
def HasPage (area : VmArea) (page : Nat) : Prop :=
  area.base ≤ page ∧ addWord page 0x1000 ≤ area.end_

/-- The bytes that `vm_map_anon` allocates for the page array. -/
def pagesBytes (size : Nat) : Nat := 8 * size % 2 ^ 64 / 0x1000

/-- The fault at `a` is handled, right after `vm_map_anon` added the area at `index` for `size`
bytes. -/
structure FaultServed (machine : Machine σ) (bmp : σ → PhysBmp) (dev : σ) (map : VmMap)
    (index size a frame i : Nat) (dev' : σ) (map' : VmMap) : Prop where
  /-- The handler returns 0. -/
  handled : vmMapHandleFault machine dev map a = some (dev', map', 0)
  /-- A frame that was not in use, ... -/
  fresh : frame ≠ 0 ∧ frame ∈ allFrames ∧ frame ∉ usedFrames (bmp dev)
  /-- ... mapped at the page of the address, ... -/
  mapped : a < 2 ^ 39 ∧ ∃ table, map'.pts (pdptIdx a) (pdIdx a) = some table ∧
    table (ptIdx a) = frame * 0x1000 ||| 7
  /-- ... and noted in the page array of the area, ... -/
  noted : ∃ area pages, map'.vmAreas.items[index]? = some area ∧
    area.obj = some (.anon 1 pages) ∧ pages i = frame * 0x1000
  /-- ... at an index that the array has. -/
  inside : 8 * (i + 1) ≤ pagesBytes size

/-- The areas in front of a position that have the page are those of devices. -/
def Passed (areas : List VmArea) (page k : Nat) : Prop :=
  ∀ j < k, ∀ other, areas[j]? = some other → HasPage other page →
    ∃ inode flags pages, other.obj = some (.inode inode flags pages)

/-- What it takes for a fault to be handled. -/
structure Servable (used : Set Nat) (map : VmMap) (index : Nat) (area : VmArea) (size a : Nat) :
    Prop where
  /-- The area has the whole page of the address. -/
  whole : area.base ≤ pageOf a ∧ pageOf a + 0x1000 ≤ area.end_
  /-- No anonymous area in front of it has the page. -/
  front : Passed map.vmAreas.items (pageOf a) index
  /-- The page tables have the page. -/
  low : a < 2 ^ 39
  backed : pagePr (map.pds (pdptIdx a) (pdIdx a)) = true →
    (map.pts (pdptIdx a) (pdIdx a)).isSome = true
  /-- There is a frame. -/
  spare : 0 ∈ used ∧ ∃ frame ∈ allFrames, frame ∉ used
  /-- The size of the page array did not overflow. -/
  array : 8 * ((pageOf a - area.base) / 0x1000 + 1) ≤ pagesBytes size

/-! ## The handler -/

section Handler

variable {addr : Nat}

theorem Passed.cons {page k : Nat}
    (here : HasPage area page → ∃ inode flags pages, area.obj = some (.inode inode flags pages))
    (passed : Passed areas page k) : Passed (area :: areas) page (k + 1) := by
  intro j _ other isOther
  cases j with
  | zero =>
    cases isOther
    exact here
  | succ j => exact passed j (by omega) other isOther

theorem faultScan_inv
    (handled : faultScan machine dev map addr areas start = some (dev', map', 0)) :
    ∃ k area flags pages, areas[k]? = some area ∧ HasPage area addr ∧
      area.obj = some (.anon flags pages) ∧ Passed areas addr k ∧
      faultPage machine dev map (start + k) addr area.base flags pages = some (dev', map') := by
  induction areas generalizing start with
  | nil => cases handled
  | cons area areas ih =>
    have later : (HasPage area addr → ∃ inode flags pages,
        area.obj = some (.inode inode flags pages)) →
        faultScan machine dev map addr areas (start + 1) = some (dev', map', 0) →
        ∃ k found flags pages, (area :: areas)[k]? = some found ∧ HasPage found addr ∧
          found.obj = some (.anon flags pages) ∧ Passed (area :: areas) addr k ∧
          faultPage machine dev map (start + k) addr found.base flags pages =
            some (dev', map') := by
      intro here rest
      obtain ⟨k, found, flags, pages, isFound, has, obj, passed, page⟩ := ih rest
      rw [Nat.add_right_comm] at page
      exact ⟨k + 1, found, flags, pages, isFound, has, obj, passed.cons here, page⟩
    simp only [faultScan] at handled
    split at handled
    · rename_i has
      split at handled
      · cases handled
      · rename_i flags pages obj
        obtain ⟨_, page, isDone⟩ := map_eq_some_iff.mp handled
        cases isDone
        exact ⟨0, area, flags, pages, rfl, has, obj, fun j _ => by omega, page⟩
      · rename_i inode flags pages obj
        exact later (fun _ => ⟨inode, flags, pages, obj⟩) handled
    · rename_i hasNot
      exact later (fun has => absurd has hasNot) handled

theorem faultScan_eq {k : Nat} {pages : Nat → Nat} (isArea : areas[k]? = some area)
    (has : HasPage area addr) (obj : area.obj = some (.anon flags pages))
    (passed : Passed areas addr k) :
    faultScan machine dev map addr areas start =
      (faultPage machine dev map (start + k) addr area.base flags pages).map
        fun done => (done.1, done.2, 0) := by
  induction areas generalizing start k with
  | nil => cases isArea
  | cons head areas ih =>
    cases k with
    | zero =>
      cases isArea
      have test : addr ≥ area.base ∧ addWord addr 0x1000 ≤ area.end_ := has
      rw [faultScan, if_pos test, obj]
      rfl
    | succ k =>
      have rest := @ih (start + 1) k isArea fun j _ => passed (j + 1) (by omega)
      rw [Nat.add_right_comm] at rest
      simp only [faultScan]
      split
      · rename_i hasHead
        obtain ⟨_, flags, pages, device⟩ := passed 0 (by omega) head rfl hasHead
        rw [device]
        exact rest
      · exact rest

end Handler

/-! ## Page tables -/

theorem pageOf_indices (a : Nat) : pdptIdx (pageOf a) = pdptIdx a ∧ pdIdx (pageOf a) = pdIdx a ∧
    ptIdx (pageOf a) = ptIdx a := by
  simp only [pdptIdx, pdIdx, ptIdx, pageOf]
  omega

/-! ## Frames -/

/-- `mmu_alloc_phys` returns a frame when there is one; 0 stands for failure. -/
theorem mmuAllocPhys_frame_iff (bmp : PhysBmp) :
    (∃ frame, frame ≠ 0 ∧ frame ∈ allFrames ∧ frame ∉ usedFrames bmp ∧
      (mmuAllocPhys bmp).2 = frame * 0x1000) ↔
    0 ∈ usedFrames bmp ∧ ∃ frame ∈ allFrames, frame ∉ usedFrames bmp := by
  constructor
  · rintro ⟨frame, nonzero, inRange, free, isFrame⟩
    refine ⟨?_, frame, inRange, free⟩
    by_contra zeroFree
    rw [mmuAllocPhys_eq (Nat.zero_lt_of_lt inRange) zeroFree (fun _ _ => by omega)] at isFrame
    omega
  · rintro ⟨zeroUsed, frame, inRange, free⟩
    rcases takesLeast zeroUsed with ⟨first, least, isFirst, nonzero, -⟩ | ⟨full, -⟩
    · refine ⟨first, ?_, least.1.1, least.1.2, isFirst.trans (Nat.mul_comm _ _)⟩
      rintro rfl
      exact nonzero isFirst
    · exact absurd (full inRange) free

/-! ## Faults in a new area -/

section NewArea

variable {bmp : σ → PhysBmp} {index base end_ size a : Nat}

theorem pageOf_le (a : Nat) : pageOf a ≤ a := Nat.sub_le _ _

theorem pageIndex_eq (low : a < 2 ^ 39) (above : base ≤ pageOf a) :
    subWord (pageOf a) base / 0x1000 % 2 ^ 32 = (pageOf a - base) / 0x1000 := by
  have page := pageOf_le a
  rw [subWord_of_le above (by omega)]
  omega

theorem hasPage_iff (low : a < 2 ^ 39) (area : VmArea) :
    HasPage area (pageOf a) ↔ area.base ≤ pageOf a ∧ pageOf a + 0x1000 ≤ area.end_ := by
  have page := pageOf_le a
  rw [HasPage, addWord_of_lt (by omega)]

variable (laws : PhysLaws machine bmp)
  (isArea : map.vmAreas.items[index]? = some ⟨base, end_, some (.anon 1 fun _ => 0)⟩)
include laws isArea

theorem FaultServed.servable {frame i : Nat}
    (served : FaultServed machine bmp dev map index size a frame i dev' map') :
    Servable (usedFrames (bmp dev)) map index ⟨base, end_, some (.anon 1 fun _ => 0)⟩ size a := by
  obtain ⟨handled, ⟨nonzero, inRange, free⟩, ⟨low, -⟩, ⟨_, _, isAfter, obj, isFrame⟩,
    inside⟩ := served
  obtain ⟨k, _, _, _, isFound, has, isAnon, passed, page⟩ :=
    @faultScan_inv _ _ _ _ _ _ _ _ (pageOf a) handled
  rw [Nat.zero_add] at page
  have areas := (mmuMap_maps page).vmAreas
  rw [areas, getElem?_setObj, isArea, map_some, some.injEq] at isAfter
  obtain rfl : k = index := by
    by_contra different
    rw [if_neg different] at isAfter
    subst isAfter
    cases obj
    dsimp only at isFrame
    omega
  rw [isArea] at isFound
  cases isFound
  cases isAnon
  rw [if_pos rfl] at isAfter
  subst isAfter
  cases obj
  have whole := (hasPage_iff low _).mp has
  have position := pageIndex_eq low whole.1
  rw [position] at isFrame
  obtain rfl : i = (pageOf a - base) / 0x1000 := by
    by_contra different
    rw [update_of_ne different] at isFrame
    omega
  rw [update_self] at isFrame
  have taken := congrArg Prod.snd (laws.alloc dev)
  have backed := mmuMap_some_iff.mp ⟨_, page⟩
  rw [(pageOf_indices a).1, (pageOf_indices a).2.1] at backed
  exact
    { whole := whole
      front := passed
      low := low
      backed := backed
      spare := (mmuAllocPhys_frame_iff _).mp
        ⟨frame, nonzero, inRange, free, taken.symm.trans isFrame⟩
      array := inside }

theorem Servable.served (servable : Servable (usedFrames (bmp dev)) map index
      ⟨base, end_, some (.anon 1 fun _ => 0)⟩ size a) :
    ∃ frame i dev' map', FaultServed machine bmp dev map index size a frame i dev' map' := by
  obtain ⟨whole, front, low, backed, spare, array⟩ := servable
  obtain ⟨frame, nonzero, inRange, free, isFrame⟩ := (mmuAllocPhys_frame_iff _).mpr spare
  have taken := congrArg Prod.snd (laws.alloc dev)
  rw [isFrame] at taken
  have position := pageIndex_eq low whole.1
  rw [← (pageOf_indices a).1, ← (pageOf_indices a).2.1] at backed
  obtain ⟨⟨dev', map'⟩, mapped⟩ := (@mmuMap_some_iff _ machine (machine.mmuAllocPhys dev).1
    (setObj map index
      (.anon 1 (update (fun _ => 0) ((pageOf a - base) / 0x1000) (frame * 0x1000))))
    (pageOf a) (frame * 0x1000) 3).mpr backed
  have maps := mmuMap_maps mapped
  obtain ⟨_, isTable, _⟩ := maps.table
  have handled := @faultScan_eq map _ _ 0 _ _ machine dev (pageOf a) _ _ isArea ((hasPage_iff low
      _).mpr whole) rfl front
  rw [Nat.zero_add, faultPage, taken, position, mapped] at handled
  rw [(pageOf_indices a).1, (pageOf_indices a).2.1, (pageOf_indices a).2.2, Nat.or_assoc] at isTable
  refine ⟨frame, (pageOf a - base) / 0x1000, dev', map', handled, ⟨nonzero, inRange, free⟩,
    ⟨low, _, isTable, update_self _ _ _⟩, ?_, array⟩
  rw [maps.vmAreas, getElem?_setObj, isArea, map_some, if_pos rfl]
  exact ⟨_, _, rfl, rfl, update_self _ _ _⟩

end NewArea

/-- After every call of `mmap` or `brk` that mapped anonymous memory, from every kernel state: a
fault at an address of the new area is handled exactly when the area has the whole page, no
anonymous area in front of it has it, the page is below 2^39, a frame is left, and the size of
the page array did not overflow. -/
theorem demand_paged_iff (machine : Machine σ) (bmp : σ → PhysBmp) (laws : PhysLaws machine bmp)
    (phys : FnPtr → Nat) (kernel kernel' : Kernel σ) (self : ThreadId) (call : MapCall)
    (request : AreaRequest) (isRequest : areaRequest kernel self call = some request)
    (anonymous : request.anonymous = true) (value : Int)
    (returned : mapCall machine phys kernel self call = .ret kernel' value) :
    ∃ index area, (current kernel' self).vmMap.vmAreas.items[index]? = some area ∧
      (∀ addr length flags fdno, call = .mmap addr length flags fdno → value = toSigned area.base) ∧
      ∀ a, area.base ≤ a → a < area.end_ →
        ((∃ frame i dev' map', FaultServed machine bmp kernel'.dev (current kernel' self).vmMap
            index request.size a frame i dev' map') ↔
          Servable (usedFrames (bmp kernel'.dev)) (current kernel' self).vmMap index area
            request.size a) := by
  obtain ⟨_, ended, called⟩ := @mapCall_end _ kernel self machine phys call
  rw [isRequest] at ended
  cases ended with
  | null _ =>
    rw [called] at returned
    cases returned
  | device _ device _ => simp [anonymous] at device
  | deviceFault _ device => simp [anonymous] at device
  | @anon _ placed index found _ =>
    rw [called] at returned
    cases returned
    obtain ⟨base, _, isArea⟩ := allocVmarea_new found
    have isNew : (current (setBrk (withMap kernel self kernel.dev
        (setObj placed index (.anon 1 fun _ => 0))) self call) self).vmMap.vmAreas.items[index]? =
        some ⟨base, addWord base request.size, some (.anon 1 fun _ => 0)⟩ := by
      rw [current_setBrk_vmMap, current_withMap_vmMap, getElem?_setObj, isArea, map_some,
        if_pos rfl]
    refine ⟨index, _, isNew, ?_, fun a _ _ => ⟨?_, ?_⟩⟩
    · rintro addr length flags fdno rfl
      simp [callValue, areaBase, isArea]
    · rintro ⟨frame, i, dev', map', served⟩
      exact served.servable laws isNew
    · exact fun servable => servable.served laws isNew

/-- One task without areas; only frame 0 is in use. -/
def freshTask : Kernel PhysBmp := Proc.oneTaskOn (setBit (fun _ => 0#8) 0) []

/-- Two pages are mapped at 4 MiB. -/
theorem demand_paged_pages :
    ∃ kernel' value, mapCall frameMachine (fun _ => 0xb8000) freshTask 0
        (.mmap 0x400000 0x2000 0x22 (-1)) = .ret kernel' value ∧
      ∃ index area, (current kernel' 0).vmMap.vmAreas.items[index]? = some area ∧
        (∀ addr length flags fdno, MapCall.mmap 0x400000 0x2000 0x22 (-1) =
          .mmap addr length flags fdno → value = toSigned area.base) ∧
        ∀ a, area.base ≤ a → a < area.end_ →
          ((∃ frame i dev' map', FaultServed frameMachine id kernel'.dev (current kernel' 0).vmMap
              index 0x2000 a frame i dev' map') ↔
            Servable (usedFrames (id kernel'.dev)) (current kernel' 0).vmMap index area 0x2000 a) :=
  ⟨_, _, rfl, demand_paged_iff frameMachine id frameMachine_laws (fun _ => 0xb8000) freshTask _ 0
    (.mmap 0x400000 0x2000 0x22 (-1)) ⟨0x400000, 0x2000, false, true⟩ rfl rfl _ rfl⟩

/-- `mmap` of 100 bytes returns an area of 100 bytes, and none of them can be touched. -/
theorem short_area_unpaged :
    ∃ kernel', mapCall frameMachine (fun _ => 0xb8000) freshTask 0
        (.mmap 0x400000 100 0x22 (-1)) = .ret kernel' 0x400000 ∧
      ¬ ∃ frame i dev' map', FaultServed frameMachine id kernel'.dev (current kernel' 0).vmMap 0
          100 0x400000 frame i dev' map' := by
  refine ⟨_, rfl, ?_⟩
  rintro ⟨frame, i, dev', map', served⟩
  have unhandled := served.handled
  cases unhandled

end Micro.Mm
