import Micro.Mm.FrameCalls
import Micro.Mm.Ownership

/-!
# Address spaces over time

Along a sequence of calls the frames in use are those that were in use before it and
those of the live address spaces, as long as no page is mapped over another one, frames
do not run out, and no address space with device memory in it is destroyed.
-/

namespace Micro.Mm

open Kern Lib List Option Function

variable {map : VmMap} {σ : Type} {machine : Machine σ}

/-- The live address spaces.  `device` records which of them device memory was mapped into. -/
structure Spaces (σ : Type) where
  dev : σ
  maps : Nat → Option VmMap
  device : Nat → Bool

variable {spaces : Spaces σ}

/-- An address space as a call leaves it. -/
def Spaces.put (spaces : Spaces σ) (m : Nat) (device : Bool) (done : σ × VmMap) : Spaces σ where
  dev := done.1
  maps := Function.update spaces.maps m (some done.2)
  device := Function.update spaces.device m device

/-- The calls that create, change, copy and destroy address spaces. -/
inductive SpaceCall where
  | create (m : Nat)
  | anon (m base size : Nat) (fixed : Bool)
  | anonAlloc (m index base size : Nat)
  | fault (m addr : Nat)
  | device (m base size : Nat) (fixed : Bool) (phys : Nat) (inode : InodeId)
  | clone (src m : Nat)
  | destroy (m : Nat)
  deriving DecidableEq

/-- One call.  A new address space is not one of the live ones. -/
def spaceStep (machine : Machine σ) (spaces : Spaces σ) : SpaceCall → Option (Spaces σ)
  | .create m =>
      if (spaces.maps m).isNone then
        some (spaces.put m false (mmuCreateVmmap machine spaces.dev))
      else none
  | .anon m base size fixed =>
      (spaces.maps m).bind fun map =>
        (vmMapAnon map base size fixed).map fun area =>
          spaces.put m (spaces.device m) (spaces.dev, area.1)
  | .anonAlloc m index base size =>
      (spaces.maps m).bind fun map =>
        (vmMapAnonAlloc machine spaces.dev map index base size).map (spaces.put m (spaces.device m))
  | .fault m addr =>
      (spaces.maps m).bind fun map =>
        (vmMapHandleFault machine spaces.dev map addr).map fun done =>
          spaces.put m (spaces.device m) (done.1, done.2.1)
  | .device m base size fixed phys inode =>
      (spaces.maps m).bind fun map =>
        (vmMapFile machine spaces.dev map base size fixed phys inode).map (spaces.put m true)
  | .clone src m =>
      if (spaces.maps m).isNone then
        (spaces.maps src).map fun map =>
          spaces.put m false (mmuCloneVmmap machine spaces.dev map)
      else none
  | .destroy m =>
      (spaces.maps m).map fun map =>
        { spaces with
          dev := mmuDestroyVmmap machine spaces.dev map
          maps := Function.update spaces.maps m none }

section Runs

variable (bmp : σ → PhysBmp) (start : Set Nat)

/-- There are frames for the call, pages are mapped only where none is present, a device's
memory was in use from the start, and no address space with device memory is destroyed. -/
def Careful (spaces : Spaces σ) : SpaceCall → Prop
  | .create _ => Spare allFrames (usedFrames (bmp spaces.dev)) createCost
  | .anon _ _ _ _ => True
  | .anonAlloc m index base size => ∀ map area, spaces.maps m = some map →
      map.vmAreas.items[index]? = some area →
      Unmapped map (anonVirts area base size) ∧
        Spare allFrames (usedFrames (bmp spaces.dev)) (2 * (anonVirts area base size).length)
  | .fault m addr => ∀ map, spaces.maps m = some map →
      Unmapped map [addr - addr % 0x1000] ∧ Spare allFrames (usedFrames (bmp spaces.dev)) 2
  | .device m base size fixed phys _ => ∀ map after index area, spaces.maps m = some map →
      allocVmarea map base (fileSize size) fixed = some (after, index) →
      after.vmAreas.items[index]? = some area →
      Unmapped map (deviceVirts area) ∧ phys % 0x1000 = 0 ∧
        (∀ i < (deviceVirts area).length, addWord phys (i * 0x1000) / 0x1000 ∈ start) ∧
        Spare allFrames (usedFrames (bmp spaces.dev)) (deviceVirts area).length
  | .clone src _ => ∀ map, spaces.maps src = some map →
      Spare allFrames (usedFrames (bmp spaces.dev)) (cloneCost map + createCost)
  | .destroy m => spaces.device m = false

/-- The frames in use are those in use at the start and those of the live address spaces. -/
structure Owned (spaces : Spaces σ) : Prop where
  ledger : Ledger start (usedFrames (bmp spaces.dev)) (Holds start spaces.maps)
  tidy : ∀ {m map}, spaces.maps m = some map → Tidy map
  clean : ∀ {m map}, spaces.maps m = some map → spaces.device m = false →
    ∀ slot frame, frameAt map slot = some frame → frame ∉ start

variable {bmp start} {count m : Nat}

theorem Owned.initial (noMaps : ∀ m, spaces.maps m = none) :
    Owned bmp (usedFrames (bmp spaces.dev)) spaces := by
  have notLive : ∀ {m map}, spaces.maps m ≠ some map := by simp [noMaps]
  refine ⟨⟨by simp [Holds, noMaps], ?_, ?_⟩, ?_, ?_⟩
  · rintro _ _ ⟨_, isMap, _⟩
    exact absurd isMap notLive
  · rintro _ _ _ ⟨_, isMap, _⟩
    exact absurd isMap notLive
  · exact fun isMap => absurd isMap notLive
  · exact fun isMap => absurd isMap notLive

section

variable (owned : Owned bmp start spaces)
include owned

theorem Owned.kept (spare : Spare allFrames (usedFrames (bmp spaces.dev)) count) :
    Kept bmp start ∅ spaces.dev spaces.maps count := by
  refine ⟨?_, spare⟩
  rw [Set.empty_union]
  exact owned.ledger

theorem Owned.sound (isMap : spaces.maps m = some map)
    (spare : Spare allFrames (usedFrames (bmp spaces.dev)) count) :
    Sound bmp start (spaces.device m = false) ∅ spaces.maps m (spaces.dev, map) count := by
  have same : update spaces.maps m (some map) = spaces.maps := by
    rw [← isMap, update_eq_self]
  refine ⟨?_, owned.tidy isMap, owned.clean isMap⟩
  rw [same]
  exact owned.kept spare

/-- What a call leaves of one address space is put in its place. -/
theorem Owned.put {device : Bool} {done : σ × VmMap}
    (sound : Sound bmp start (device = false) ∅ spaces.maps m done 0) :
    Owned bmp start (spaces.put m device done) where
  ledger := by
    have ledger := sound.kept.ledger
    rw [Set.empty_union] at ledger
    exact ledger
  tidy := by
    intro other map isMap
    simp only [Spaces.put, update_apply] at isMap
    split_ifs at isMap
    · cases isMap
      exact sound.tidy
    · exact owned.tidy isMap
  clean := by
    intro other map isMap noDevice
    simp only [Spaces.put, update_apply] at isMap noDevice
    split_ifs at isMap noDevice
    · cases isMap
      exact sound.clean noDevice
    · exact owned.clean isMap noDevice

end

variable (laws : PhysLaws machine bmp)
include laws

/-- An address space without device memory gives back exactly the frames it holds. -/
theorem Owned.destroy (owned : Owned bmp start spaces) (isMap : spaces.maps m = some map)
    (noDevice : spaces.device m = false) :
    Owned bmp start { spaces with
      dev := mmuDestroyVmmap machine spaces.dev map
      maps := update spaces.maps m none } where
  ledger := by
    have freed : usedFrames (bmp (mmuDestroyVmmap machine spaces.dev map)) =
        usedFrames (bmp spaces.dev) \
          {frame | ∃ owner : Nat × Slot, owner.1 = m ∧ Holds start spaces.maps owner frame} := by
      rw [mmuDestroyVmmap_frees laws (owned.tidy isMap) spaces.dev]
      congr 1
      ext frame
      constructor
      · rintro ⟨slot, isFrame⟩
        exact ⟨(m, slot), rfl, map, isMap, isFrame, owned.clean isMap noDevice slot frame isFrame⟩
      · rintro ⟨⟨handle, slot⟩, rfl, _, isHeld, isFrame, _⟩
        obtain rfl := some.inj (isMap.symm.trans isHeld)
        exact ⟨slot, isFrame⟩
    rw [freed]
    apply owned.ledger.release
    rintro ⟨handle, slot⟩ _
    by_cases same : handle = m
    · simp [Holds, same]
    · rw [holds_other same]
      simp [same]
  tidy := by
    intro other map isMap
    simp only [update_apply] at isMap
    split_ifs at isMap
    exact owned.tidy isMap
  clean := by
    intro other map isMap noDevice
    simp only [update_apply] at isMap
    split_ifs at isMap
    exact owned.clean isMap noDevice

theorem spaceStep_owned {call : SpaceCall} {next : Spaces σ} (owned : Owned bmp start spaces)
    (careful : Careful bmp start spaces call) (stepped : spaceStep machine spaces call = some next) :
    Owned bmp start next := by
  cases call with
  | create m =>
    obtain ⟨unused, stepped⟩ := ite_none_right_eq_some.mp stepped
    obtain rfl := some.inj stepped
    rw [isNone_iff_eq_none] at unused
    apply owned.put
    apply mmuCreateVmmap_sound laws unused
    rw [Nat.zero_add]
    exact owned.kept careful
  | anon m base size fixed =>
    obtain ⟨map, isMap, stepped⟩ := bind_eq_some_iff.mp stepped
    obtain ⟨area, found, stepped⟩ := map_eq_some_iff.mp stepped
    subst stepped
    apply owned.put
    exact (owned.sound isMap ⟨[], nodup_nil, rfl, by simp⟩).areas (vmMapAnon_tables found)
  | anonAlloc m index base size =>
    obtain ⟨map, isMap, stepped⟩ := bind_eq_some_iff.mp stepped
    obtain ⟨done, ran, stepped⟩ := map_eq_some_iff.mp stepped
    subst stepped
    obtain ⟨area, isArea, _⟩ := bind_eq_some_iff.mp ran
    obtain ⟨unmapped, spare⟩ := careful map area isMap isArea
    apply owned.put
    apply vmMapAnonAlloc_sound laws isArea _ unmapped ran
    rw [Nat.zero_add]
    exact owned.sound isMap spare
  | fault m _ =>
    obtain ⟨map, isMap, stepped⟩ := bind_eq_some_iff.mp stepped
    obtain ⟨done, ran, stepped⟩ := map_eq_some_iff.mp stepped
    subst stepped
    obtain ⟨unmapped, spare⟩ := careful map isMap
    apply owned.put
    exact faultScan_sound laws (owned.sound isMap spare) (unmapped.2 _ mem_cons_self) ran
  | device m base size fixed _ _ =>
    obtain ⟨map, isMap, stepped⟩ := bind_eq_some_iff.mp stepped
    obtain ⟨done, ran, stepped⟩ := map_eq_some_iff.mp stepped
    subst stepped
    obtain ⟨⟨placed, index⟩, isPlaced, ran⟩ := bind_eq_some_iff.mp ran
    obtain ⟨area, isArea, ran⟩ := bind_eq_some_iff.mp ran
    obtain ⟨⟨_, _⟩, isMapped, isDone⟩ := bind_eq_some_iff.mp ran
    obtain rfl := some.inj isDone
    obtain ⟨unmapped, aligned, inUse, spare⟩ := careful map placed index area isMap isPlaced isArea
    obtain ⟨_, sameTables, _⟩ := allocVmarea_new isPlaced
    have sameTables : SameTables map placed := sameTables
    have unmappedPlaced : Unmapped placed (deviceVirts area) := by
      rw [sameTables]
      exact unmapped
    have soundPlaced : Sound bmp start False ∅ spaces.maps m (spaces.dev, placed)
        (0 + (deviceVirts area).length) := by
      rw [Nat.zero_add]
      exact ((owned.sound isMap spare).areas sameTables).weaken False.elim
    have soundMapped := deviceMmap_sound laws aligned inUse soundPlaced unmappedPlaced isMapped
    apply owned.put
    exact (soundMapped.areas (setObj_tables _ _ _)).weaken Bool.noConfusion
  | clone _ m =>
    obtain ⟨unused, stepped⟩ := ite_none_right_eq_some.mp stepped
    obtain ⟨map, isMap, stepped⟩ := map_eq_some_iff.mp stepped
    subst stepped
    rw [isNone_iff_eq_none] at unused
    apply owned.put
    apply mmuCloneVmmap_sound laws unused
    rw [Nat.zero_add]
    exact owned.kept (careful map isMap)
  | destroy m =>
    obtain ⟨map, isMap, stepped⟩ := map_eq_some_iff.mp stepped
    subst stepped
    exact owned.destroy laws isMap careful

omit laws in
theorem Owned.reached (owned : Owned bmp start spaces) (isMap : spaces.maps m = some map) :
    framesOf map ⊆ usedFrames (bmp spaces.dev) := by
  rintro frame ⟨slot, isFrame⟩
  rw [owned.ledger.mem_used]
  by_cases inUse : frame ∈ start
  · exact .inl inUse
  · exact .inr ⟨(m, slot), map, isMap, isFrame, inUse⟩

omit laws in
theorem Owned.allDestroyed (owned : Owned bmp start spaces) (noMaps : ∀ m, spaces.maps m = none) :
    usedFrames (bmp spaces.dev) = start := by
  ext frame
  rw [owned.ledger.mem_used]
  simp [Holds, noMaps]

end Runs

/-- Along every sequence of careful calls the frames in use before it stay in use, so that
only frames `mmu_alloc_phys` handed out are marked as free; no frame a live address space
reaches is marked as free; and once all are destroyed `phys_bmp` is what it was. -/
theorem frames_owned {machine : Machine σ} {bmp : σ → PhysBmp} (laws : PhysLaws machine bmp)
    {spaces final : Spaces σ} {calls : List SpaceCall} (noMaps : ∀ m, spaces.maps m = none)
    (run : Run (Restricted (fun spaces call next => spaceStep machine spaces call = some next)
      (Careful bmp (usedFrames (bmp spaces.dev)))) spaces calls final) :
    usedFrames (bmp spaces.dev) ⊆ usedFrames (bmp final.dev) ∧
      (∀ m map, final.maps m = some map → framesOf map ⊆ usedFrames (bmp final.dev)) ∧
      ((∀ m, final.maps m = none) → bmp final.dev = bmp spaces.dev) := by
  have owned : Owned bmp (usedFrames (bmp spaces.dev)) final := by
    apply run.invariant _ (.initial noMaps)
    exact fun _ _ _ owned stepped => spaceStep_owned laws owned stepped.2 stepped.1
  refine ⟨fun frame inUse => owned.ledger.mem_used.mpr (.inl inUse), ?_, ?_⟩
  · exact fun m map isMap => owned.reached isMap
  · exact fun noneLeft => usedFrames_injective (owned.allDestroyed noneLeft)

/-- A machine that is nothing but `phys_bmp`. -/
def frameMachine : Machine PhysBmp where
  __ := Machine.idle _
  mmuAllocPhys := mmuAllocPhys
  mmuFreePhys := fun bmp p => mmuFreePhys bmp p 1

theorem frameMachine_laws : PhysLaws frameMachine id where
  alloc := by
    intro bmp
    have pair : ∀ alloc : PhysBmp → PhysBmp × Nat, (id (alloc bmp).1, (alloc bmp).2) = alloc (id bmp) :=
      fun _ => rfl
    exact pair frameMachine.mmuAllocPhys
  free := fun _ _ => rfl
  copy := fun _ _ _ => rfl

/-- No address space is live. -/
def noSpaces : Spaces PhysBmp := ⟨lowInUse, fun _ => none, fun _ => false⟩

theorem noSpaces_spare : Spare allFrames (usedFrames noSpaces.dev) (2 + createCost) := by
  refine ⟨range' 0x100 (2 + createCost), nodup_range', length_range', ?_⟩
  intro _ mem
  rw [mem_range'_1, createCost_eq] at mem
  rw [mem_allFrames, noSpaces, mem_lowInUse, bufSz]
  omega

theorem mmuMap_first {dev : σ} {phys flags : Nat} (noEntry : map.pds 0 0 = 0) :
    mmuMap machine dev map 0x1000 phys flags = some ((mktable machine dev map 0 0).1,
      setPage (mktable machine dev map 0 0).2 0 0 1 (phys ||| flags ||| 4)) := by
  have noTable : needTable machine dev map 0 0 = mktable machine dev map 0 0 := by
    simp [needTable, noEntry, pagePr]
  have isTable : (needTable machine dev map 0 0).2.pts 0 0 = some fun _ => 0 := by
    rw [noTable]
    exact mktable_pts machine dev map 0 0
  rw [← noTable]
  exact mmuMap_eq isTable

/-- With enough frames an address space can be created, take a page fault and be destroyed. -/
theorem create_fault_destroy {bmp : σ → PhysBmp} (laws : PhysLaws machine bmp)
    (noMaps : ∀ m, spaces.maps m = none)
    (spare : Spare allFrames (usedFrames (bmp spaces.dev)) (2 + createCost)) :
    ∃ final, Run (Restricted (fun spaces call next => spaceStep machine spaces call = some next)
      (Careful bmp (usedFrames (bmp spaces.dev)))) spaces
      [.create 0, .anon 0 0x1000 0x1000 true, .fault 0 0x1000, .destroy 0] final ∧
      ∀ m, final.maps m = none := by
  have sound := @mmuCreateVmmap_sound _ _ _ _ True _ _ _ _ laws (noMaps 0) ((Owned.initial
      noMaps).kept spare)
  have create : spaceStep machine spaces (.create 0) =
      some (spaces.put 0 false (mmuCreateVmmap machine spaces.dev)) := by
    simp [spaceStep, noMaps]
  rw [mmuCreateVmmap_eq] at sound create
  generalize allocFrames machine createCost spaces.dev = taken at sound create
  obtain ⟨map, mapped, areas, noEntry, noTable⟩ : ∃ map,
      vmMapAnon (created taken.2) 0x1000 0x1000 true = some (map, 0) ∧
      map.vmAreas.items = [⟨0x1000, 0x2000, some (.anon 1 fun _ => 0)⟩] ∧ map.pds 0 0 = 0 ∧
      map.pts 0 0 = none :=
    ⟨_, rfl, rfl, rfl, rfl⟩
  have anon : spaceStep machine (spaces.put 0 false (taken.1, created taken.2))
      (.anon 0 0x1000 0x1000 true) = some
        ((spaces.put 0 false (taken.1, created taken.2)).put 0 false (taken.1, map)) := by
    simp [spaceStep, Spaces.put, mapped]
  have page : ∃ done, vmMapHandleFault machine taken.1 map 0x1000 = some done := by
    have scanned : vmMapHandleFault machine taken.1 map 0x1000 =
        (faultPage machine taken.1 map 0 0x1000 0x1000 1 fun _ => 0).map
          fun done => (done.1, done.2, 0) := by
      simp [vmMapHandleFault, areas, faultScan, addWord]
    rw [scanned, faultPage, mmuMap_first]
    · exact ⟨_, rfl⟩
    · exact noEntry
  obtain ⟨done, faulted⟩ := page
  have fault : spaceStep machine
      ((spaces.put 0 false (taken.1, created taken.2)).put 0 false (taken.1, map))
      (.fault 0 0x1000) = some (((spaces.put 0 false (taken.1, created taken.2)).put 0 false
        (taken.1, map)).put 0 false (done.1, done.2.1)) := by
    simp [spaceStep, Spaces.put, faulted]
  have careful : Careful bmp (usedFrames (bmp spaces.dev))
      ((spaces.put 0 false (taken.1, created taken.2)).put 0 false (taken.1, map))
      (.fault 0 0x1000) := by
    intro _ isMap
    simp only [Spaces.put, update_self, some.injEq] at isMap
    subst isMap
    exact ⟨⟨by simp, by simp [isMapped, pdptIdx, pdIdx, noTable]⟩, sound.kept.spare⟩
  refine ⟨_, .cons ⟨create, spare.mono (Nat.le_add_left _ _)⟩ (.cons ⟨anon, trivial⟩
    (.cons ⟨fault, careful⟩ (.cons ⟨rfl, rfl⟩ (.nil _)))), ?_⟩
  intro m
  cases m with
  | zero => rfl
  | succ m => exact noMaps (m + 1)

/-- An address space is created, takes a page fault and is destroyed. -/
theorem frames_owned_fault : ∃ final,
    Run (Restricted (fun spaces call next => spaceStep frameMachine spaces call = some next)
      (Careful id (usedFrames noSpaces.dev))) noSpaces
      [.create 0, .anon 0 0x1000 0x1000 true, .fault 0 0x1000, .destroy 0] final ∧
    (∀ m, final.maps m = none) ∧ final.dev = noSpaces.dev := by
  obtain ⟨final, run, noneLeft⟩ :=
    create_fault_destroy frameMachine_laws (fun _ => rfl) noSpaces_spare
  exact ⟨final, run, noneLeft, (frames_owned frameMachine_laws (fun _ => rfl) run).2.2 noneLeft⟩

/-- The VGA text buffer mapped at `0x1000` of a new address space. -/
theorem vmMapFile_created (machine : Machine σ) (dev : σ) (frames : List Nat) :
    ∃ done, vmMapFile machine dev (created frames) 0x1000 0x1000 true 0xb8000 0 = some done ∧
      Tidy done.2 ∧ frameAt done.2 (.page 0 0 1) = some 0xb8 := by
  obtain ⟨placed, area, isArea, sameTables, noEntry⟩ : ∃ placed,
      allocVmarea (created frames) 0x1000 (fileSize 0x1000) true = some (placed, 0) ∧
      placed.vmAreas.items[0]? = some ⟨0x1000, 0x2000, none⟩ ∧ SameTables (created frames) placed ∧
      placed.pds 0 0 = 0 :=
    ⟨(pushArea (created frames) 0x1000 0x2000).1, rfl, rfl, rfl, rfl⟩
  have onePage : range (subWord 0x2000 0x1000 / 0x1000) = [0] := by decide
  have page := @mmuMap_first placed _ machine dev 0xb8000 7 noEntry
  have isTable := mktable_pts machine dev placed 0 0
  have tidy := ((tidy_created frames).areas sameTables).mktable machine dev 0 0
  have mapped : vmMapFile machine dev (created frames) 0x1000 0x1000 true 0xb8000 0 =
      some ((mktable machine dev placed 0 0).1, setObj
        (setPage (mktable machine dev placed 0 0).2 0 0 1 (0xb8000 ||| 7 ||| 4)) 0
        (.inode 0 0 fun _ => 0)) := by
    simp only [vmMapFile, area, isArea, deviceMmap, onePage, foldlM_cons, mmapPage,
      Option.bind_eq_bind, Option.bind_some, Nat.zero_mul, addWord, Nat.reducePow, Nat.reduceMod,
      Nat.add_zero]
    rw [page]
    rfl
  refine ⟨_, mapped, (tidy.setPage isTable (by decide)).areas (setObj_tables _ _ _), ?_⟩
  have absent : isMapped (mktable machine dev placed 0 0).2 0 0 1 = false := by
    simp [isMapped, isTable, pagePr]
  rw [(setObj_tables _ _ _).frameAt, frameAt_setPage isTable (by decide) absent (by decide)]
  exact .inr ⟨rfl, by decide⟩

/-- A new address space with the VGA text buffer in it is destroyed. -/
theorem device_destroyed {bmp : σ → PhysBmp} (laws : PhysLaws machine bmp)
    (noMaps : ∀ m, spaces.maps m = none) :
    ∃ final, drive (spaceStep machine) spaces
      [.create 0, .device 0 0x1000 0x1000 true 0xb8000 0, .destroy 0] = some final ∧
      (∀ m, final.maps m = none) ∧ 0xb8 ∉ usedFrames (bmp final.dev) := by
  have create : spaceStep machine spaces (.create 0) =
      some (spaces.put 0 false (mmuCreateVmmap machine spaces.dev)) := by
    simp [spaceStep, noMaps]
  rw [mmuCreateVmmap_eq] at create
  generalize allocFrames machine createCost spaces.dev = taken at create
  obtain ⟨done, mapped, tidy, isFrame⟩ := vmMapFile_created machine taken.1 taken.2
  have device : spaceStep machine (spaces.put 0 false (taken.1, created taken.2))
      (.device 0 0x1000 0x1000 true 0xb8000 0) =
      some ((spaces.put 0 false (taken.1, created taken.2)).put 0 true done) := by
    simp [spaceStep, Spaces.put, mapped]
  have freed := mmuDestroyVmmap_frees laws tidy done.1
  simp only [drive, create, device, bind_some]
  refine ⟨_, rfl, ?_, ?_⟩
  · intro m
    cases m with
    | zero => rfl
    | succ m => exact noMaps (m + 1)
  · intro inUse
    have stays : 0xb8 ∈ usedFrames (bmp (mmuDestroyVmmap machine done.1 done.2)) := inUse
    rw [freed] at stays
    exact stays.2 ⟨.page 0 0 1, isFrame⟩

/-- The frame of the VGA text buffer is in use; an address space it is mapped into is
created and destroyed, and the frame is marked as free. -/
theorem vga_frame_freed : ∃ final, drive (spaceStep frameMachine) noSpaces
    [.create 0, .device 0 0x1000 0x1000 true 0xb8000 0, .destroy 0] = some final ∧
    (∀ m, final.maps m = none) ∧ 0xb8 ∈ usedFrames noSpaces.dev ∧ 0xb8 ∉ usedFrames final.dev := by
  obtain ⟨final, driven, noneLeft, freed⟩ :=
    @device_destroyed _ _ noSpaces _ frameMachine_laws fun _ => rfl
  refine ⟨final, driven, noneLeft, ?_, freed⟩
  rw [noSpaces, mem_lowInUse]
  decide

end Micro.Mm
