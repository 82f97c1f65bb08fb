import Micro.Kern.State

/-!
# Page tables

The user half of an address space is one page directory pointer table: 512 page
directories whose entries point to page tables.  The kernel reaches a page table
through `pts`, and `pds` holds what the processor sees.

Pages of the kernel window that only give the kernel access to its own tables,
and heap blocks whose address no modelled function observes, are not
represented; nor are the `invlpg` and `cr3` updates.
-/

namespace Micro.Mm

open Kern

variable {σ : Type}

def pml4Idx (vaddr : Nat) : Nat := vaddr / 0x8000000000 % 512
def pdptIdx (vaddr : Nat) : Nat := vaddr / 0x40000000 % 512
def pdIdx (vaddr : Nat) : Nat := vaddr / 0x200000 % 512
def ptIdx (vaddr : Nat) : Nat := vaddr / 0x1000 % 512

def pageFrame (entry : Nat) : Nat := entry / 0x1000 * 0x1000

def pagePr (entry : Nat) : Bool := entry.testBit 0

def pageUsr (entry : Nat) : Bool := entry.testBit 2

def mmuVirt2phys (map : VmMap) (virt : Nat) : Nat :=
  if pml4Idx virt = 0 then
    if pagePr (map.pds (pdptIdx virt) (pdIdx virt)) then
      match map.pts (pdptIdx virt) (pdIdx virt) with
      | some table => pageFrame (table (ptIdx virt))
      | none => 0
    else 0
  else 0

/-- Assign one cell of a table of tables. -/
def assign₂ {α : Type} (table : Nat → Nat → α) (i j : Nat) (value : α) : Nat → Nat → α :=
  Function.update table i (Function.update (table i) j value)

section

variable (machine : Machine σ) (dev : σ) (map : VmMap)

def mktable (i j : Nat) : σ × VmMap :=
  let table := machine.mmuAllocPhys dev
  (table.1, { map with
      pds := assign₂ map.pds i j (table.2 ||| 7)
      pts := assign₂ map.pts i j (some fun _ => 0) })

/-- The check at the head of `mmu_map`: make the page table when it is missing. -/
def needTable (i j : Nat) : σ × VmMap :=
  if pagePr (map.pds i j) then (dev, map) else mktable machine dev map i j

/-- `mmu_map`; `none` when the directory entry is present without a table, where
the source writes through a null pointer. -/
def mmuMap (virt phys flags : Nat) : Option (σ × VmMap) :=
  let i := pdptIdx virt
  let j := pdIdx virt
  let ready := needTable machine dev map i j
  match ready.2.pts i j with
  | some table =>
      let table := Function.update table (ptIdx virt) (phys ||| flags ||| 4)
      some (ready.1, { ready.2 with pts := assign₂ ready.2.pts i j (some table) })
  | none => none

end

def allocFrames (machine : Machine σ) : Nat → σ → σ × List Nat
  | 0, dev => (dev, [])
  | count + 1, dev =>
      let frame := machine.mmuAllocPhys dev
      let rest := allocFrames machine count frame.1
      (rest.1, frame.2 :: rest.2)

@[irreducible] def mmuCreateVmmap (machine : Machine σ) (dev : σ) : σ × VmMap :=
  let pml4 := machine.mmuAllocPhys dev
  let pdpt := machine.mmuAllocPhys pml4.1
  let directories := allocFrames machine 512 pdpt.1
  (directories.1,
    { pml4Phys := pml4.2
      pdptPhys := pdpt.2
      physPds := fun i => directories.2.getD i 0
      pds := fun _ _ => 0
      pts := fun _ _ => none
      vmAreas := .create })

/-- Copy one page table entry: a user page gets a frame of its own. -/
def cloneEntry (machine : Machine σ) (srcpt : Nat → Nat) (state : σ × (Nat → Nat))
    (k : Nat) : σ × (Nat → Nat) :=
  if pagePr (srcpt k) && pageUsr (srcpt k) then
    let phys2 := machine.mmuAllocPhys state.1
    let dev := machine.copyFrame phys2.1 (pageFrame (srcpt k)) phys2.2
    (dev, Function.update state.2 k (srcpt k % 0x1000 ||| phys2.2))
  else state

/-- The body of the loop over page tables in `mmu_clone_vmmap`. -/
def cloneTable (machine : Machine σ) (src : VmMap) (state : σ × VmMap)
    (index : Nat × Nat) : σ × VmMap :=
  match src.pts index.1 index.2 with
  | some srcpt =>
      let made := mktable machine state.1 state.2 index.1 index.2
      let table := (List.range 512).foldl (cloneEntry machine srcpt) (made.1, fun _ => 0)
      (table.1, { made.2 with pts := assign₂ made.2.pts index.1 index.2 (some table.2) })
  | none =>
      (state.1, { state.2 with
          pds := assign₂ state.2.pds index.1 index.2 0
          pts := assign₂ state.2.pts index.1 index.2 none })

/-- The pairs of indices visited by two nested loops over the directory. -/
@[irreducible] def tableIndices : List (Nat × Nat) :=
  (List.range 512).flatMap fun i => (List.range 512).map fun j => (i, j)

section

variable (machine : Machine σ)

@[irreducible] def mmuCloneVmmap (dev : σ) (src : VmMap) : σ × VmMap :=
  tableIndices.foldl (cloneTable machine src) (mmuCreateVmmap machine dev)

/-- Give back the user pages of one page table, then its own frame. -/
def destroyTable (map : VmMap) (dev : σ) (index : Nat × Nat) : σ :=
  match map.pts index.1 index.2 with
  | some table =>
      let dev := (List.range 512).foldl (fun dev k =>
        if pagePr (table k) && pageUsr (table k) then
          machine.mmuFreePhys dev (pageFrame (table k))
        else dev) dev
      machine.mmuFreePhys dev (pageFrame (map.pds index.1 index.2))
  | none => dev

/-- The body of the outer loop of `mmu_destroy_vmmap`. -/
def destroyDirectory (map : VmMap) (dev : σ) (i : Nat) : σ :=
  let dev := (List.range 512).foldl
    (fun dev j => destroyTable machine map dev (i, j)) dev
  machine.mmuFreePhys dev (map.physPds i)

@[irreducible] def mmuDestroyVmmap (dev : σ) (map : VmMap) : σ :=
  let dev := (List.range 512).foldl (destroyDirectory machine map) dev
  let dev := machine.mmuFreePhys dev map.pml4Phys
  machine.mmuFreePhys dev map.pdptPhys

end

end Micro.Mm
