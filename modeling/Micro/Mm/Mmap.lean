import Micro.Fs.ReadWrite
import Micro.Mm.Clone

/-!
# The calls that map memory

`mmap.c`: `mmap` of anonymous memory and of devices, and `brk`.  Both come down to
`alloc_vmarea`, which returns `NULL` when there is no place for the area.  Nobody looks: the
object of the area is assigned, or the memory of the device is mapped, through the null pointer.

Two drivers map memory, `fb_mmap` and `vga_mmap`; they differ in the physical address.
-/

namespace Micro.Mm

open Kern Lib Fs

variable {σ : Type}

def mapShared (flags : UInt32) : Bool := flags &&& 0x1 != 0
def mapPrivate (flags : UInt32) : Bool := flags &&& 0x2 != 0
def mapFixed (flags : UInt32) : Bool := flags &&& 0x10 != 0
def mapAnonymous (flags : UInt32) : Bool := flags &&& 0x20 != 0

/-- The calling task with another address space. -/
def withMap (kernel : Kernel σ) (self : ThreadId) (dev : σ) (map : VmMap) : Kernel σ :=
  ({ kernel with dev }).setTask (currentId kernel self) fun task => { task with vmMap := map }

def areaBase (map : VmMap) (index : Nat) : Nat :=
  (map.vmAreas.items[index]?).elim 0 VmArea.base

/-- The anonymous branch of `ksys_do_mmap`. -/
def mmapAnon (kernel : Kernel σ) (self : ThreadId) (addr length : Nat) (fixed : Bool) : Outcome σ :=
  let task := current kernel self
  let addr := if addr < task.brk then task.brk else addr
  match vmMapAnon task.vmMap addr length fixed with
  | some (map, index) =>
      .ret (withMap kernel self kernel.dev map) (toSigned (areaBase map index))
  | none => .fault kernel

/-- `vm_map_file(..)->base`, where the device's memory is at `phys` -/
def mmapFile (machine : Machine σ) (phys : Nat) (kernel : Kernel σ) (self : ThreadId)
    (addr length : Nat) (fixed : Bool) (file : File) : Outcome σ :=
  let map := (current kernel self).vmMap
  match allocVmarea map addr (fileSize length) fixed,
      vmMapFile machine kernel.dev map addr length fixed phys file.inode with
  | some (_, index), some (dev, map) =>
      .ret (withMap kernel self dev map) (toSigned (areaBase map index))
  | _, _ => .fault kernel

/-- `ksys_do_mmap`; `phys` is what the driver behind a function pointer maps. -/
def ksysDoMmap (machine : Machine σ) (phys : FnPtr → Nat) (kernel : Kernel σ) (self : ThreadId)
    (addr length : Nat) (flags : UInt32) (fdno : Int) : Outcome σ :=
  if length = 0 then .ret kernel (-einval)
  else if !mapShared flags && !mapPrivate flags then .ret kernel (-einval)
  else if mapAnonymous flags then
    if mapShared flags then .ret kernel (-einval)
    else mmapAnon kernel self addr length (mapFixed flags)
  else if mapShared flags then .ret kernel (-einval)
  else
    match fdValid kernel self fdno with
    | none => .ret kernel (-ebadf)
    | some fd =>
        match (kernel.file fd).ops.mmap with
        | some mmap =>
            mmapFile machine (phys mmap) kernel self addr length (mapFixed flags) (kernel.file fd)
        | none => .ret kernel 0

def sysBrk (machine : Machine σ) (phys : FnPtr → Nat) (kernel : Kernel σ) (self : ThreadId)
    (addr : Nat) : Outcome σ :=
  let old := (current kernel self).brk
  if addr = 0 then .ret kernel (toSigned old)
  else
    match ksysDoMmap machine phys kernel self old (subWord addr old) 0x22 (-1) with
    | .ret kernel _ =>
        .ret (kernel.setTask (currentId kernel self) fun task => { task with brk := addr })
          (toSigned addr)
    | .fault kernel => .fault kernel

/-- A call of a user program. -/
inductive MapCall where
  | mmap (addr length : UInt64) (flags : UInt32) (fdno : Int)
  | brk (addr : UInt64)
  deriving DecidableEq, Repr

/-- `sys_mmap` and `sys_brk` -/
def mapCall (machine : Machine σ) (phys : FnPtr → Nat) (kernel : Kernel σ) (self : ThreadId) :
    MapCall → Outcome σ
  | .mmap addr length flags fdno =>
      ksysDoMmap machine phys kernel self addr.toNat length.toNat flags fdno
  | .brk addr => sysBrk machine phys kernel self addr.toNat

/-! ## What a call asks `alloc_vmarea` for -/

/-- The arguments of `alloc_vmarea`, and whether the area is for anonymous memory. -/
structure AreaRequest where
  base : Nat
  size : Nat
  fixed : Bool
  anonymous : Bool
  deriving DecidableEq, Repr

/-- The request that `ksys_do_mmap` makes, if it accepts its arguments. -/
def mmapRequest (kernel : Kernel σ) (self : ThreadId) (addr length : Nat) (flags : UInt32)
    (fdno : Int) : Option AreaRequest :=
  if length = 0 ∨ mapShared flags ∨ !mapPrivate flags then none
  else if mapAnonymous flags then
    some ⟨max addr (current kernel self).brk, length, mapFixed flags, true⟩
  else
    (fdValid kernel self fdno).bind fun fd =>
      (kernel.file fd).ops.mmap.map fun _ => ⟨addr, fileSize length, mapFixed flags, false⟩

/-- The request that a call makes. -/
def areaRequest (kernel : Kernel σ) (self : ThreadId) : MapCall → Option AreaRequest
  | .mmap addr length flags fdno =>
      mmapRequest kernel self addr.toNat length.toNat flags fdno
  | .brk addr =>
      let old := (current kernel self).brk
      if addr = 0 then none
      else mmapRequest kernel self old (subWord addr.toNat old) 0x22 (-1)

/-- How `ksys_do_mmap` ends, given its request. -/
inductive MmapEnd (kernel : Kernel σ) (self : ThreadId) :
    Option AreaRequest → Outcome σ → Prop where
  /-- The arguments are not accepted, or the file has no `mmap` operation. -/
  | rejected {value : Int} : value ≤ 0 → MmapEnd kernel self none (.ret kernel value)
  /-- The missing area is dereferenced. -/
  | null {request : AreaRequest} :
      allocVmarea (current kernel self).vmMap request.base request.size request.fixed = none →
      MmapEnd kernel self (some request) (.fault kernel)
  | anon {request : AreaRequest} {placed : VmMap} {index : Nat} :
      allocVmarea (current kernel self).vmMap request.base request.size request.fixed =
        some (placed, index) → request.anonymous = true →
      MmapEnd kernel self (some request)
        (.ret (withMap kernel self kernel.dev (setObj placed index (.anon 1 fun _ => 0)))
          (toSigned (areaBase placed index)))
  | device {request : AreaRequest} {placed map : VmMap} {index : Nat} {dev : σ}
      {inode : InodeId} {value : Int} :
      allocVmarea (current kernel self).vmMap request.base request.size request.fixed =
        some (placed, index) → request.anonymous = false →
      map.vmAreas = (setObj placed index (.inode inode 0 fun _ => 0)).vmAreas →
      MmapEnd kernel self (some request) (.ret (withMap kernel self dev map) value)
  /-- A directory entry of the address space has no table. -/
  | deviceFault {request : AreaRequest} {placed : VmMap} {index : Nat} :
      allocVmarea (current kernel self).vmMap request.base request.size request.fixed =
        some (placed, index) → request.anonymous = false →
      MmapEnd kernel self (some request) (.fault kernel)

/-- Where an area begins and ends. -/
def VmArea.extent (area : VmArea) : Nat × Nat := (area.base, area.end_)

theorem getElem?_setObj (map : VmMap) (index : Nat) (obj : VmObject) (j : Nat) :
    (setObj map index obj).vmAreas.items[j]? = (map.vmAreas.items[j]?).map fun area =>
      if index = j then { area with obj := some obj } else area := by
  simp only [setObj, List.getElem?_modify]
  rfl

theorem extents_setObj (map : VmMap) (index : Nat) (obj : VmObject) :
    (setObj map index obj).vmAreas.items.map VmArea.extent =
      map.vmAreas.items.map VmArea.extent := by
  apply List.ext_getElem?
  intro i
  rw [List.getElem?_map, List.getElem?_map, getElem?_setObj, Option.map_map]
  split <;> rfl

section Ends

variable {machine : Machine σ} {kernel : Kernel σ} {self : ThreadId}

theorem areaBase_setObj (map : VmMap) (index : Nat) (obj : VmObject) :
    areaBase (setObj map index obj) index = areaBase map index := by
  rw [areaBase, areaBase, getElem?_setObj]
  cases map.vmAreas.items[index]? with
  | none => rfl
  | some _ => simp

theorem mmapAnon_end (addr length : Nat) (fixed : Bool) :
    MmapEnd kernel self (some ⟨max addr (current kernel self).brk, length, fixed, true⟩)
      (mmapAnon kernel self addr length fixed) := by
  have hint : (if addr < (current kernel self).brk then (current kernel self).brk else addr) =
      max addr (current kernel self).brk := by
    split <;> omega
  simp only [mmapAnon, hint, vmMapAnon]
  cases found : allocVmarea (current kernel self).vmMap (max addr (current kernel self).brk) length
      fixed with
  | none => exact .null found
  | some _ =>
    dsimp only
    rw [areaBase_setObj]
    exact MmapEnd.anon found rfl

theorem deviceMmap_vmAreas {phys : Nat} {state after : σ × VmMap} {area : VmArea}
    (mapped : deviceMmap machine phys state area = some after) :
    after.2.vmAreas = state.2.vmAreas := by
  unfold deviceMmap at mapped
  generalize List.range _ = pages at mapped
  induction pages generalizing state with
  | nil =>
    cases mapped
    rfl
  | cons i pages ih =>
    obtain ⟨_, first, rest⟩ := Option.bind_eq_some_iff.mp mapped
    rw [ih rest]
    exact (mmuMap_maps first).vmAreas

theorem mmapFile_end (phys addr length : Nat) (fixed : Bool) (file : File) :
    MmapEnd kernel self (some ⟨addr, fileSize length, fixed, false⟩)
      (mmapFile machine phys kernel self addr length fixed file) := by
  unfold mmapFile
  dsimp only
  cases found : allocVmarea (current kernel self).vmMap addr (fileSize length) fixed with
  | none => exact .null found
  | some _ =>
    cases mapped : vmMapFile machine kernel.dev (current kernel self).vmMap addr length fixed
        phys file.inode with
    | none => exact MmapEnd.deviceFault found rfl
    | some _ =>
      simp only [vmMapFile, found, Option.bind_eq_bind, Option.bind_some] at mapped
      obtain ⟨_, -, mapped⟩ := Option.bind_eq_some_iff.mp mapped
      obtain ⟨_, device, mapped⟩ := Option.bind_eq_some_iff.mp mapped
      cases mapped
      apply @MmapEnd.device _ _ _ ⟨addr, fileSize length, fixed, false⟩ _ _ _ _ file.inode _
        found rfl
      simp only [setObj, deviceMmap_vmAreas device]

theorem ksysDoMmap_end (machine : Machine σ) (phys : FnPtr → Nat) (addr length : Nat)
    (flags : UInt32) (fdno : Int) :
    MmapEnd kernel self (mmapRequest kernel self addr length flags fdno)
      (ksysDoMmap machine phys kernel self addr length flags fdno) := by
  unfold mmapRequest ksysDoMmap
  by_cases noLength : length = 0
  · simp only [noLength]
    exact .rejected (by decide)
  · cases isShared : mapShared flags with
    | true =>
      simp only [noLength, false_or, true_or, if_true, if_false, Bool.not_true, Bool.false_and,
        Bool.false_eq_true]
      split <;> exact .rejected (by decide)
    | false =>
      cases isPrivate : mapPrivate flags with
      | false =>
        simp only [noLength]
        exact .rejected (by decide)
      | true =>
        simp only [noLength, if_false, Bool.not_true, Bool.false_eq_true, or_self]
        split
        · exact mmapAnon_end addr length (mapFixed flags)
        · cases fdValid kernel self fdno with
          | none => exact .rejected (by decide)
          | some fd =>
            dsimp only [Option.bind_some]
            cases (kernel.file fd).ops.mmap with
            | none => exact .rejected (Int.le_refl 0)
            | some mmap => exact mmapFile_end (phys mmap) addr length (mapFixed flags) _

/-- The kernel after a call of `brk` that set the break; `mmap` leaves it as it is. -/
def setBrk (kernel : Kernel σ) (self : ThreadId) : MapCall → Kernel σ
  | .mmap _ _ _ _ => kernel
  | .brk addr =>
      if addr = 0 then kernel
      else kernel.setTask (currentId kernel self) fun task => { task with brk := addr.toNat }

section

variable (kernel : Kernel σ) (self : ThreadId) (call : MapCall)

theorem setBrk_vmMap (task : TaskId) :
    ((setBrk kernel self call).task task).vmMap = (kernel.task task).vmMap := by
  cases call with
  | mmap => rfl
  | brk _ =>
    simp only [setBrk]
    split
    · rfl
    · apply kernel.setTask_read Task.vmMap
      exact fun _ => rfl

@[simp] theorem setBrk_thread : (setBrk kernel self call).thread = kernel.thread := by
  cases call with
  | mmap => rfl
  | brk _ =>
    simp only [setBrk]
    split <;> rfl

@[simp] theorem current_setBrk_vmMap :
    (current (setBrk kernel self call) self).vmMap = (current kernel self).vmMap := by
  rw [current, setBrk_vmMap, currentId, setBrk_thread]
  rfl

@[simp] theorem current_withMap_vmMap (dev : σ) (map : VmMap) :
    (current (withMap kernel self dev map) self).vmMap = map := by
  have same : currentId (withMap kernel self dev map) self = currentId kernel self := rfl
  rw [current, same, withMap, Kernel.setTask_task_self]

end

/-- What a call returns when `ksys_do_mmap` returned `value`. -/
def callValue (kernel : Kernel σ) (self : ThreadId) (value : Int) : MapCall → Int
  | .mmap _ _ _ _ => value
  | .brk addr => if addr = 0 then toSigned (current kernel self).brk else toSigned addr.toNat

/-- A call does what `ksys_do_mmap` does for its request, and then sets the break. -/
theorem mapCall_end (machine : Machine σ) (phys : FnPtr → Nat) (call : MapCall) :
    ∃ outcome, MmapEnd kernel self (areaRequest kernel self call) outcome ∧
      mapCall machine phys kernel self call = match outcome with
        | .ret middle value => .ret (setBrk middle self call) (callValue kernel self value call)
        | .fault middle => .fault middle := by
  cases call with
  | mmap addr length flags fdno =>
    refine ⟨_, ksysDoMmap_end machine phys addr.toNat length.toNat flags fdno, ?_⟩
    split <;> rename_i same <;> exact same
  | brk addr =>
    have isZero : addr.toNat = 0 ↔ addr = 0 := by
      rw [← UInt64.toNat_inj, UInt64.toNat_zero]
    simp only [areaRequest, mapCall, sysBrk, setBrk, callValue, isZero]
    split
    · exact ⟨.ret kernel 0, .rejected (Int.le_refl 0), rfl⟩
    · exact ⟨_, ksysDoMmap_end machine phys _ _ _ _, rfl⟩

end Ends

end Micro.Mm
