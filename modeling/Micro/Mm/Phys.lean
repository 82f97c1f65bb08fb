import Micro.Lib.Ledger
import Micro.Kern.State

/-!
# Physical frames

`phys_bmp` has one bit for each frame of physical memory, set when the frame is in use.
`mmu_alloc_phys` takes the first frame whose bit is clear, and returns 0 when there is
none.
-/

namespace Micro.Mm

open Kern Lib List Option Function

variable {σ : Type} {frame : Nat}

def bufSz : Nat := 200000

abbrev PhysBmp := Nat → BitVec 8

variable {bmp : PhysBmp}

section

variable (bmp : PhysBmp)

/-- `phys_bmp[i / 8] |= 1 << (i % 8)` -/
def setBit (i : Nat) : PhysBmp :=
  Function.update bmp (i / 8) (bmp (i / 8) ||| 1#8 <<< (i % 8))

/-- `phys_bmp[j] &= ~(1 << i)` -/
def clearBit (it : Nat) : PhysBmp :=
  Function.update bmp (it / 8) (bmp (it / 8) &&& ~~~(1#8 <<< (it % 8)))

def mmuAllocPhysAt (p cnt : Nat) : PhysBmp :=
  (List.range' (p / 0x1000) cnt).foldl setBit bmp

/-- The first `j` with a clear bit in byte `i`, if the byte is not `0xff`. -/
def clearBitIn (i : Nat) : Option Nat :=
  if bmp i ≠ 0xff#8 then
    ((List.range 8).find? fun j => bmp i &&& 1#8 <<< j = 0#8).map fun j => i * 8 + j
  else none

/-- The loops of `mmu_alloc_phys`: the first frame with a clear bit. -/
@[irreducible] def firstClear : Option Nat :=
  (List.range bufSz).findSome? (clearBitIn bmp)

/-- What `mmu_alloc_phys` does with the frame it has found. -/
def takeFrame : Option Nat → PhysBmp × Nat
  | some frame => (mmuAllocPhysAt bmp (frame * 0x1000) 1, frame * 0x1000)
  | none => (bmp, 0)

def mmuAllocPhys : PhysBmp × Nat := takeFrame bmp (firstClear bmp)

def mmuFreePhys (p cnt : Nat) : PhysBmp :=
  (List.range' (p / 0x1000) cnt).foldl clearBit bmp

def usedFrames : Set Nat := {frame | (bmp (frame / 8)).getLsbD (frame % 8) = true}

end

/-- The frames `phys_bmp` has bits for. -/
def allFrames : Set Nat := {frame | frame < 8 * bufSz}

theorem mem_usedFrames :
    frame ∈ usedFrames bmp ↔ (bmp (frame / 8)).getLsbD (frame % 8) = true := Iff.rfl

theorem mem_allFrames : frame ∈ allFrames ↔ frame < 8 * bufSz := Iff.rfl

theorem usedFrames_injective {other : PhysBmp} (same : usedFrames bmp = usedFrames other) :
    bmp = other := by
  funext i
  apply BitVec.eq_of_getLsbD_eq
  intro j _
  have bit : 8 * i + j ∈ usedFrames bmp ↔ 8 * i + j ∈ usedFrames other := by rw [same]
  have index : (8 * i + j) / 8 = i ∧ (8 * i + j) % 8 = j := by omega
  rw [mem_usedFrames, mem_usedFrames, index.1, index.2] at bit
  exact Bool.eq_iff_iff.mpr bit

theorem getLsbD_mask {j k : Nat} (inByte : k < 8) :
    (1#8 <<< j).getLsbD k = decide (k = j) := by
  grind

theorem usedFrames_setBit (bmp : PhysBmp) (frame : Nat) :
    usedFrames (setBit bmp frame) = insert frame (usedFrames bmp) := by
  ext other
  rw [Set.mem_insert_iff, mem_usedFrames, mem_usedFrames, setBit]
  by_cases sameByte : other / 8 = frame / 8
  · have same : other % 8 = frame % 8 ↔ other = frame := by omega
    rw [sameByte, update_self, BitVec.getLsbD_or,
      getLsbD_mask (Nat.mod_lt _ (by decide)), Bool.or_eq_true,
      decide_eq_true_eq, same]
    exact Or.comm
  · have ne : other ≠ frame := fun same => sameByte (by rw [same])
    simp [update_of_ne sameByte, ne]

theorem usedFrames_clearBit (bmp : PhysBmp) (frame : Nat) :
    usedFrames (clearBit bmp frame) = usedFrames bmp \ {frame} := by
  ext other
  rw [Set.mem_sdiff, mem_usedFrames, mem_usedFrames, clearBit]
  by_cases sameByte : other / 8 = frame / 8
  · have same : other % 8 = frame % 8 ↔ other = frame := by omega
    rw [sameByte, update_self, BitVec.getLsbD_and, BitVec.getLsbD_not,
      getLsbD_mask (Nat.mod_lt _ (by decide))]
    simp [Nat.mod_lt, same]
  · have ne : other ≠ frame := fun same => sameByte (by rw [same])
    simp [update_of_ne sameByte, ne]

theorem and_mask_eq_zero {byte : BitVec 8} {j : Nat} (inByte : j < 8) :
    byte &&& 1#8 <<< j = 0#8 ↔ byte.getLsbD j = false := by
  constructor
  · intro zero
    have bit := congrArg (BitVec.getLsbD · j) zero
    simpa [getLsbD_mask inByte] using bit
  · intro clear
    apply BitVec.eq_of_getLsbD_eq
    intro k inByte'
    rw [BitVec.getLsbD_and, getLsbD_mask inByte']
    by_cases same : k = j
    · simp [same, clear]
    · simp [same]

theorem firstClear_some (found : firstClear bmp = some frame) :
    frame ∈ allFrames ∧ frame ∉ usedFrames bmp := by
  unfold firstClear at found
  obtain ⟨i, inBuffer, isFound⟩ := exists_of_findSome?_eq_some found
  have inBuffer := mem_range.mp inBuffer
  rw [clearBitIn] at isFound
  by_cases full : bmp i ≠ 0xff#8
  · rw [if_pos full] at isFound
    obtain ⟨j, clear, _⟩ := map_eq_some_iff.mp isFound
    have isClear := find?_some clear
    have inByte := mem_range.mp (mem_of_find?_eq_some clear)
    rw [decide_eq_true_eq, and_mask_eq_zero inByte] at isClear
    have index : frame / 8 = i ∧ frame % 8 = j := by omega
    constructor
    · rw [mem_allFrames]
      omega
    · simp [mem_usedFrames, index, isClear]
  · rw [if_neg full] at isFound
    cases isFound

theorem clearBitIn_none {i j : Nat} (none : clearBitIn bmp i = none) (inByte : j < 8) :
    i * 8 + j ∈ usedFrames bmp := by
  have index : (i * 8 + j) / 8 = i ∧ (i * 8 + j) % 8 = j := by omega
  rw [mem_usedFrames, index.1, index.2]
  by_cases full : bmp i ≠ 0xff#8
  · rw [clearBitIn, if_pos full, map_eq_none_iff] at none
    have set := find?_eq_none.mp none j (mem_range.mpr inByte)
    rw [decide_eq_true_eq, and_mask_eq_zero inByte] at set
    simpa using set
  · have all : ∀ j : Fin 8, (0xff#8).getLsbD j.val = true := by decide
    rw [Classical.not_not.mp full]
    exact all ⟨j, inByte⟩

theorem firstClear_none (none : firstClear bmp = none) (inRange : frame ∈ allFrames) :
    frame ∈ usedFrames bmp := by
  unfold firstClear at none
  rw [mem_allFrames] at inRange
  have notHere := findSome?_eq_none_iff.mp none (frame / 8) (mem_range.mpr (by omega))
  have used := clearBitIn_none notHere (Nat.mod_lt frame (by decide))
  rwa [Nat.div_add_mod'] at used

theorem firstClear_least {other : Nat} (found : firstClear bmp = some frame) (below : other < frame) :
    other ∈ usedFrames bmp := by
  unfold firstClear at found
  rw [range_eq_range'] at found
  obtain ⟨_, i, _, isRange, clear, earlier⟩ := findSome?_eq_some_iff.mp found
  obtain ⟨k, -, rfl, isRest⟩ := range'_eq_append_iff.mp isRange
  obtain ⟨isFirst, -, -⟩ := range'_eq_cons_iff.mp isRest.symm
  rw [clearBitIn] at clear
  by_cases full : bmp i ≠ 0xff#8
  · rw [if_pos full] at clear
    obtain ⟨j, isFirst, rfl⟩ := map_eq_some_iff.mp clear
    obtain ⟨-, isBit, earlierBits⟩ := find?_range_eq_some.mp isFirst
    have inByte := mem_range.mp isBit
    by_cases sameByte : other / 8 = i
    · have bit := earlierBits (other % 8) (by omega)
      have small : other % 8 < 8 := Nat.mod_lt _ (by decide)
      rw [Bool.not_eq_true', decide_eq_false_iff_not, and_mask_eq_zero small] at bit
      rw [mem_usedFrames, sameByte]
      simpa using bit
    · have used := clearBitIn_none
        (earlier (other / 8) (mem_range'_1.mpr (by omega))) (Nat.mod_lt other (by decide))
      rwa [Nat.div_add_mod'] at used
  · rw [if_neg full] at clear
    cases clear

theorem mmuAllocPhys_spec (bmp : PhysBmp) :
    (∃ frame, frame ∉ usedFrames bmp ∧ (mmuAllocPhys bmp).2 = frame * 0x1000 ∧
      usedFrames (mmuAllocPhys bmp).1 = insert frame (usedFrames bmp)) ∨
    ∀ frame ∈ allFrames, frame ∈ usedFrames bmp := by
  cases found : firstClear bmp with
  | some frame =>
    left
    rw [mmuAllocPhys, found]
    refine ⟨frame, (firstClear_some found).2, rfl, ?_⟩
    simp only [takeFrame, mmuAllocPhysAt, range'_one, foldl_cons, foldl_nil]
    rw [usedFrames_setBit, Nat.mul_div_cancel _ (by decide)]
  | none => exact .inr fun _ => firstClear_none found

theorem mmuAllocPhys_spare {count : Nat} (spare : Spare allFrames (usedFrames bmp) (count + 1)) :
    ∃ frame, frame ∉ usedFrames bmp ∧ (mmuAllocPhys bmp).2 = frame * 0x1000 ∧
      usedFrames (mmuAllocPhys bmp).1 = insert frame (usedFrames bmp) ∧
      Spare allFrames (usedFrames (mmuAllocPhys bmp).1) count := by
  rcases mmuAllocPhys_spec bmp with ⟨frame, free, isFrame, marks⟩ | full
  · exact ⟨frame, free, isFrame, marks, marks ▸ spare.take frame⟩
  · obtain ⟨frame, inRange, free⟩ := spare.exists_free
    exact absurd (full frame inRange) free

/-- A machine whose frames are those of `phys_bmp`. -/
structure PhysLaws (machine : Machine σ) (bmp : σ → PhysBmp) : Prop where
  alloc : ∀ dev, (bmp (machine.mmuAllocPhys dev).1, (machine.mmuAllocPhys dev).2) =
    mmuAllocPhys (bmp dev)
  free : ∀ dev p, bmp (machine.mmuFreePhys dev p) = mmuFreePhys (bmp dev) p 1
  copy : ∀ dev src dst, bmp (machine.copyFrame dev src dst) = bmp dev

end Micro.Mm
