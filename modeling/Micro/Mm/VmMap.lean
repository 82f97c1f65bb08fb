import Micro.Lib.Word
import Micro.Mm.Mmu

/-!
# Virtual memory areas

The areas of an address space form a list ordered by base address.  A function
of the source that returns a pointer to an area returns its position in the list
here, with `none` for a null pointer that the caller goes on to dereference.
-/

namespace Micro.Mm

open Kern Lib

variable {σ : Type}

/-- The `Intersects/Encapsulates` test. -/
def intersects (base end_ : Nat) (area : VmArea) : Bool :=
  (base ≥ area.base && base < area.end_)
    || (end_ > area.base && end_ ≤ area.end_)
    || (base < area.base && end_ > area.end_)

/-- `list_insert_before` of a fresh area without object. -/
def insertArea (map : VmMap) (index base end_ : Nat) : VmMap × Nat :=
  ({ map with vmAreas := map.vmAreas.insertBefore index ⟨base, end_, none⟩ }, index)

/-- `list_enqueue` of a fresh area without object. -/
def pushArea (map : VmMap) (base end_ : Nat) : VmMap × Nat :=
  ({ map with vmAreas := map.vmAreas.enqueue ⟨base, end_, none⟩ }, map.vmAreas.items.length)

/-- The loop of `vm_map_alloc` over the remaining areas. -/
def vmMapAllocScan (map : VmMap) (size : Nat) :
    List VmArea → (i base : Nat) → Option (VmMap × Nat)
  | [], _, base =>
      let end_ := addWord base size
      if end_ < 0xffffffff80000000 then some (pushArea map base end_) else none
  | area :: areas, i, base =>
      let end_ := addWord base size
      if area.base ≥ end_ then
        some (insertArea map i base end_)
      else if intersects base end_ area then
        vmMapAllocScan map size areas (i + 1) area.end_
      else
        vmMapAllocScan map size areas (i + 1) base

def vmMapAlloc (map : VmMap) (size : Nat) : Option (VmMap × Nat) :=
  vmMapAllocScan map size map.vmAreas.items 0 0x1000

/-- The loop of `vm_map_allocat`, ending in the attempt to push the area back. -/
def vmMapAllocatScan (map : VmMap) (base end_ : Nat) :
    List VmArea → (i : Nat) → Option (VmMap × Nat)
  | [], _ =>
      if map.vmAreas.size = 0
          ∨ map.vmAreas.items.getLast?.all (fun last => last.end_ ≤ base) then
        some (pushArea map base end_)
      else none
  | area :: areas, i =>
      if intersects base end_ area then none
      else if area.end_ ≤ base then vmMapAllocatScan map base end_ areas (i + 1)
      else if area.base ≥ end_ then some (insertArea map i base end_)
      else vmMapAllocatScan map base end_ areas i

def vmMapAllocat (map : VmMap) (base size : Nat) : Option (VmMap × Nat) :=
  vmMapAllocatScan map base (addWord base size) map.vmAreas.items 0

def allocVmarea (map : VmMap) (base size : Nat) (fixed : Bool) : Option (VmMap × Nat) :=
  if base ≠ 0 then
    match vmMapAllocat map base size with
    | some area => some area
    | none => if fixed then none else vmMapAlloc map size
  else vmMapAlloc map size

/-- Assign `area->obj` for the area at a position. -/
def setObj (map : VmMap) (index : Nat) (obj : VmObject) : VmMap :=
  { map with vmAreas :=
      { map.vmAreas with
        items := map.vmAreas.items.modify index fun area => { area with obj := some obj } } }

/-- `vm_map_anon`, where the kernel's heap has room for the array of pages: `kmalloc` stops the
kernel otherwise. -/
def vmMapAnon (map : VmMap) (base size : Nat) (fixed : Bool) : Option (VmMap × Nat) :=
  match allocVmarea map base size fixed with
  | some (map, index) => some (setObj map index (.anon 1 fun _ => 0), index)
  | none => none

/-- One iteration of `vm_map_anon_alloc`: a frame for page `i` of the area. -/
def anonAllocPage (machine : Machine σ) (areaBase index : Nat) (state : σ × VmMap)
    (i : Nat) : Option (σ × VmMap) := do
  let area ← state.2.vmAreas.items[index]?
  match area.obj with
  | some (.anon flags pages) =>
      let frame := machine.mmuAllocPhys state.1
      let map := setObj state.2 index (.anon flags (Function.update pages i frame.2))
      mmuMap machine frame.1 map (addWord (i * 0x1000) areaBase) frame.2 3
  | _ => none

def vmMapAnonAlloc (machine : Machine σ) (dev : σ) (map : VmMap) (index base size : Nat) :
    Option (σ × VmMap) := do
  let area ← map.vmAreas.items[index]?
  let base := subWord base area.base
  let first := base / 0x1000
  let last := addWord base size / 0x1000
  (List.range' first (last - first)).foldlM (anonAllocPage machine area.base index) (dev, map)

/-- The mapping of a frame that `vm_map_handle_fault` makes for page `addr` of the area at a
position. -/
def faultPage (machine : Machine σ) (dev : σ) (map : VmMap) (index addr base flags : Nat)
    (pages : Nat → Nat) : Option (σ × VmMap) :=
  let frame := machine.mmuAllocPhys dev
  let i := subWord addr base / 0x1000 % 2 ^ 32
  mmuMap machine frame.1 (setObj map index (.anon flags (Function.update pages i frame.2)))
    addr frame.2 3

/-- The loop of `vm_map_handle_fault` over the areas from a position on; `none` when an area
without object is read. -/
def faultScan (machine : Machine σ) (dev : σ) (map : VmMap) (addr : Nat) :
    List VmArea → (index : Nat) → Option (σ × VmMap × Int)
  | [], _ => some (dev, map, -1)
  | area :: areas, index =>
      if addr ≥ area.base ∧ addWord addr 0x1000 ≤ area.end_ then
        match area.obj with
        | none => none
        | some (.anon flags pages) =>
            (faultPage machine dev map index addr area.base flags pages).map
              fun done => (done.1, done.2, 0)
        | some (.inode _ _ _) => faultScan machine dev map addr areas (index + 1)
      else faultScan machine dev map addr areas (index + 1)

def vmMapHandleFault (machine : Machine σ) (dev : σ) (map : VmMap) (addr : Nat) :
    Option (σ × VmMap × Int) :=
  faultScan machine dev map (addr - addr % 0x1000) map.vmAreas.items 0

/-- One iteration of `fb_mmap` and `vga_mmap`. -/
def mmapPage (machine : Machine σ) (phys base : Nat) (state : σ × VmMap) (i : Nat) :
    Option (σ × VmMap) :=
  mmuMap machine state.1 state.2 (addWord base (i * 0x1000)) (addWord phys (i * 0x1000)) 7

/-- `fb_mmap` with `phys = fb.phys`, and `vga_mmap` with `phys = 0xb8000` -/
def deviceMmap (machine : Machine σ) (phys : Nat) (state : σ × VmMap) (area : VmArea) :
    Option (σ × VmMap) :=
  (List.range (subWord area.end_ area.base / 0x1000)).foldlM (mmapPage machine phys area.base) state

/-- The size `vm_map_file` maps. -/
def fileSize (size : Nat) : Nat :=
  if size % 0x1000 ≠ 0 then addWord size (0x1000 - size % 0x1000) else size

/-- `vm_map_file` for a device -/
def vmMapFile (machine : Machine σ) (dev : σ) (map : VmMap) (base size : Nat) (fixed : Bool)
    (phys : Nat) (inode : InodeId) : Option (σ × VmMap) := do
  let (map, index) ← allocVmarea map base (fileSize size) fixed
  let area ← map.vmAreas.items[index]?
  let (dev, map) ← deviceMmap machine phys (dev, map) area
  pure (dev, setObj map index (.inode inode 0 fun _ => 0))

/-! ## Placement -/

/-- An address space with the same tables; its areas may differ. -/
def SameTables (map after : VmMap) : Prop := after = { map with vmAreas := after.vmAreas }

/-- The tables are the same, and a new area is at the index. -/
def NewArea (map : VmMap) (placed : VmMap × Nat) (base end_ : Nat) : Prop :=
  SameTables map placed.1 ∧ placed.1.vmAreas.items[placed.2]? = some ⟨base, end_, none⟩

section Places

variable {map : VmMap} {placed : VmMap × Nat} {base end_ index i size : Nat} {areas : List VmArea}

theorem insertArea_new (short : index ≤ map.vmAreas.items.length) :
    NewArea map (insertArea map index base end_) base end_ := by
  refine ⟨rfl, ?_⟩
  simp only [insertArea, KList.insertBefore]
  rw [List.getElem?_insertIdx_self, if_pos short]

theorem pushArea_new : NewArea map (pushArea map base end_) base end_ := ⟨rfl, by simp [pushArea]⟩

section

variable (short : i + areas.length ≤ map.vmAreas.items.length)
include short

theorem vmMapAllocatScan_new (found : vmMapAllocatScan map base end_ areas i = some placed) :
    NewArea map placed base end_ := by
  induction areas generalizing i with
  | nil =>
    simp only [vmMapAllocatScan] at found
    split at found
    · cases found
      exact pushArea_new
    · cases found
  | cons _ areas ih =>
    simp only [List.length_cons] at short
    simp only [vmMapAllocatScan] at found
    split at found
    · cases found
    · split at found
      · exact ih (by omega) found
      · split at found
        · cases found
          exact insertArea_new (by omega)
        · exact ih (by omega) found

theorem vmMapAllocScan_new (found : vmMapAllocScan map size areas i base = some placed) :
    ∃ base, NewArea map placed base (addWord base size) := by
  induction areas generalizing i base with
  | nil =>
    simp only [vmMapAllocScan] at found
    split at found
    · cases found
      exact ⟨base, pushArea_new⟩
    · cases found
  | cons _ areas ih =>
    simp only [List.length_cons] at short
    simp only [vmMapAllocScan] at found
    split at found
    · cases found
      exact ⟨base, insertArea_new (by omega)⟩
    · split at found
      · exact ih (by omega) found
      · exact ih (by omega) found

end

theorem allocVmarea_new {fixed : Bool} (found : allocVmarea map base size fixed = some placed) :
    ∃ base, NewArea map placed base (addWord base size) := by
  unfold allocVmarea at found
  split at found
  · split at found
    · rename_i atBase
      rw [found] at atBase
      exact ⟨base, vmMapAllocatScan_new (by omega) atBase⟩
    · split at found
      · cases found
      · exact vmMapAllocScan_new (by omega) found
  · exact vmMapAllocScan_new (by omega) found

end Places

end Micro.Mm
