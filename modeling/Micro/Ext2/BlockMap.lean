import Micro.Ext2.Model

/-!
# The block map

`ext2_inode_blk` as it is computed in 32-bit arithmetic, against the layout of ext2.  Past the
doubly indirect blocks it takes the index of the first pointer block from where the doubly
indirect blocks begin, and so reads behind the block it has.
-/

namespace Micro.Ext2

open Lib

section Map

variable (vol : Volume) (ino : Buf) (i : Nat)

/-- The pointer that the layout of ext2 assigns to a block of a file. -/
def layoutBlk : Nat :=
  let p := vol.blksize / 4
  let entry blk index := le32 (vol.disk blk) (4 * index)
  let j := i - 12 - p - p ^ 2
  if i < 12 then blocks ino i
  else if i < 12 + p then entry (blocks ino 12) (i - 12)
  else if i < 12 + p + p ^ 2 then
    entry (entry (blocks ino 13) ((i - 12 - p) / p)) ((i - 12 - p) % p)
  else entry (entry (entry (blocks ino 14) (j / p ^ 2)) (j / p % p)) (j % p)

end Map

variable {vol : Volume} {i k : Nat}

/-- Where `ext2_inode_blk` leaves the layout: behind the doubly indirect blocks, or in front of them
if the start of the triply indirect ones wraps around. -/
def mapEnd (vol : Volume) : Nat :=
  if vol.blksize < 2 ^ 18 then 12 + vol.blksize / 4 + (vol.blksize / 4) ^ 2 else 12 + vol.blksize / 4

theorem pointerAt_eq {index : Nat} (blk : Nat) (inside : index < vol.blksize / 4) :
    pointerAt vol blk index = some (le32 (vol.disk blk) (4 * index)) := if_pos inside

/-- What is found inside of the blocks of pointers is what is found without the checks. -/
theorem inodeBlkChecked_some {ino : Buf} {blk : Nat} (found : inodeBlkChecked vol ino i = some blk) :
    blk = inodeBlk vol ino i := by
  have pointer : ∀ {blk index found : Nat}, pointerAt vol blk index = some found →
      le32 (readBlocks vol blk) (4 * index) = found := by
    intro blk index found isFound
    rw [pointerAt] at isFound
    split at isFound
    · exact Option.some.inj isFound
    · cases isFound
  simp only [inodeBlkChecked, Option.bind_eq_bind] at found
  simp only [inodeBlk]
  split_ifs at found ⊢
  · cases found
    rfl
  · exact (pointer found).symm
  · obtain ⟨_, isBlk, found⟩ := Option.bind_eq_some_iff.mp found
    rw [pointer isBlk, pointer found]
  · obtain ⟨_, isSind, found⟩ := Option.bind_eq_some_iff.mp found
    obtain ⟨_, isDind, found⟩ := Option.bind_eq_some_iff.mp found
    rw [pointer isSind, pointer isDind, pointer found]

section

variable (isSize : vol.blksize = 1024 * 2 ^ k)
include isSize

theorem dindStart_eq (small : k ≤ 21) : dindStart vol = 12 + vol.blksize / 4 := by
  have upTo : 2 ^ k ≤ 2 ^ 21 := Nat.pow_le_pow_right (by decide) small
  apply Nat.mod_eq_of_lt
  omega

/-- The square of the pointers of a block wraps around for the larger block sizes. -/
theorem tindStart_eq (small : k ≤ 21) : tindStart vol =
      if k < 8 then 12 + vol.blksize / 4 + (vol.blksize / 4) ^ 2 else 12 + vol.blksize / 4 := by
  have pointers : vol.blksize / 4 = 2 ^ (8 + k) := by
    rw [Nat.pow_add]
    omega
  have square : (vol.blksize / 4) ^ 2 = 2 ^ (2 * (8 + k)) := by
    rw [pointers, ← Nat.pow_mul, Nat.mul_comm]
  rw [tindStart, dindStart_eq isSize small, ← Nat.pow_two]
  split
  · have most : 2 ^ (8 + k) ≤ 2 ^ 15 := Nat.pow_le_pow_right (by decide) (by omega)
    have mostSquare : 2 ^ (2 * (8 + k)) ≤ 2 ^ 30 := Nat.pow_le_pow_right (by decide) (by omega)
    omega
  · rename_i wide
    have most : 2 ^ (8 + k) ≤ 2 ^ 29 := Nat.pow_le_pow_right (by decide) (by omega)
    obtain ⟨more, _⟩ := Nat.exists_eq_add_of_le (Nat.not_lt.mp wide)
    have multiple : 2 ^ (2 * (8 + k)) = 2 ^ 32 * 2 ^ (2 * more) := by
      rw [← Nat.pow_add]
      congr 1
      omega
    omega

/-- The blocks up to the doubly indirect ones are those of the layout, unless the start of the
triply indirect ones has wrapped around. -/
theorem inodeBlkChecked_eq (small : k ≤ 21) (ino : Buf)
    (reached : i < 12 + vol.blksize / 4 ∨
      k < 8 ∧ i < 12 + vol.blksize / 4 + (vol.blksize / 4) ^ 2) :
    inodeBlkChecked vol ino i = some (layoutBlk vol ino i) := by
  have pos : 0 < vol.blksize / 4 := by
    have one : 0 < 2 ^ k := Nat.pow_pos (by decide)
    omega
  simp only [inodeBlkChecked, layoutBlk, dindStart_eq isSize small, tindStart_eq isSize small]
  by_cases direct : i < 12
  · rw [if_pos direct, if_pos direct]
  rw [if_neg direct, if_neg direct]
  by_cases single : i < 12 + vol.blksize / 4
  · rw [if_pos single, if_pos single, pointerAt_eq _ (by omega)]
  rw [if_neg single, if_neg single]
  obtain ⟨narrow, double⟩ := reached.resolve_left single
  have row : (i - (12 + vol.blksize / 4)) / (vol.blksize / 4) < vol.blksize / 4 := by
    rw [Nat.div_lt_iff_lt_mul pos, ← Nat.pow_two]
    omega
  have column := Nat.mod_lt (i - (12 + vol.blksize / 4)) pos
  rw [if_pos narrow, if_pos double, if_pos double, pointerAt_eq _ row, Nat.sub_sub]
  exact pointerAt_eq _ column

theorem mapEnd_eq : mapEnd vol =
    if k < 8 then 12 + vol.blksize / 4 + (vol.blksize / 4) ^ 2 else 12 + vol.blksize / 4 := by
  have narrow : vol.blksize < 2 ^ 18 ↔ k < 8 := by
    rw [isSize, show 2 ^ 18 = 1024 * 2 ^ 8 by rfl, Nat.mul_lt_mul_left (by decide),
      Nat.pow_lt_pow_iff_right (by decide)]
  simp only [mapEnd, narrow]

theorem inodeBlkChecked_inside (small : k ≤ 21) (ino : Buf) (inside : i < mapEnd vol) :
    inodeBlkChecked vol ino i = some (inodeBlk vol ino i) := by
  have isLayout : inodeBlkChecked vol ino i = some (layoutBlk vol ino i) := by
    apply inodeBlkChecked_eq isSize small
    rw [mapEnd_eq isSize] at inside
    split at inside
    · exact .inr ⟨by assumption, inside⟩
    · exact .inl inside
  rw [isLayout, inodeBlkChecked_some isLayout]

theorem inodeBlkChecked_none (narrow : k < 8) (ino : Buf)
    (past : 12 + vol.blksize / 4 + (vol.blksize / 4) ^ 2 ≤ i) :
    inodeBlkChecked vol ino i = none := by
  have pos : 0 < vol.blksize / 4 := by
    have one : 0 < 2 ^ k := Nat.pow_pos (by decide)
    omega
  have row : ¬ (i - (12 + vol.blksize / 4)) / (vol.blksize / 4) < vol.blksize / 4 := by
    rw [Nat.div_lt_iff_lt_mul pos, ← Nat.pow_two]
    omega
  simp only [inodeBlkChecked, dindStart_eq isSize (by omega), tindStart_eq isSize (by omega)]
  rw [if_neg (by omega), if_neg (by omega), if_pos narrow, if_neg (by omega), pointerAt, if_neg row]
  rfl

/-- Block 0 holds zeros, and every other block ones. -/
def onesDisk : Nat → Buf := fun blk _ => if blk = 0 then 0 else 1

/-- An inode whose only pointer is that of the doubly indirect block. -/
def dindInode : Buf := put (fun _ => 0) 92 [1]

/-- With the start of the triply indirect blocks at that of the doubly indirect ones, the wrong
pointer of the inode is followed. -/
theorem inodeBlkChecked_wide (small : k ≤ 21) (wide : ¬ k < 8)
    (past : 12 + vol.blksize / 4 ≤ i) (isWord : i < 2 ^ 32) :
    inodeBlkChecked { vol with disk := onesDisk } dindInode i ≠
      some (layoutBlk { vol with disk := onesDisk } dindInode i) := by
  have most : 2 ^ 16 ≤ vol.blksize / 4 := by
    have atLeast : 2 ^ 8 ≤ 2 ^ k := Nat.pow_le_pow_right (by decide) (Nat.not_lt.mp wide)
    omega
  have upTo := Nat.pow_le_pow_left most 2
  have zero : ∀ index, le32 (onesDisk 0) index = 0 := fun _ => rfl
  have isPointer : blocks dindInode 13 = 1 := by decide
  have noPointer : blocks dindInode 14 = 0 := by decide
  have ones : ∀ blk index, blk ≠ 0 → le32 (onesDisk blk) index = 0x01010101 := by
    intro blk index isBlk
    simp [le32, le16, onesDisk, isBlk]
  have start := @tindStart_eq { vol with disk := onesDisk } k isSize small
  have dind := @dindStart_eq { vol with disk := onesDisk } k isSize small
  rw [if_neg wide] at start
  intro same
  simp only [inodeBlkChecked, start, dind, layoutBlk] at same
  rw [if_neg (by omega), if_neg (by omega), if_neg (by omega), if_neg (by omega), if_neg (by omega),
    if_pos (by omega)] at same
  simp only [pointerAt, readBlocks, noPointer, isPointer, zero] at same
  rw [ones 1 _ (by decide), ones _ _ (by decide)] at same
  revert same
  split <;> simp [zero]

end

/-- `ext2_inode_blk` follows the layout, for all contents, exactly for the direct and the singly
indirect blocks and, with blocks of less than 256 KiB, the doubly indirect ones. -/
theorem block_map_iff (vol : Volume) {k : Nat} (isSize : vol.blksize = 1024 * 2 ^ k) (small : k ≤ 21)
    {i : Nat} (isWord : i < 2 ^ 32) :
    (∀ disk ino, inodeBlkChecked { vol with disk := disk } ino i =
      some (layoutBlk { vol with disk := disk } ino i)) ↔
    i < 12 + vol.blksize / 4 ∨ k < 8 ∧ i < 12 + vol.blksize / 4 + (vol.blksize / 4) ^ 2 := by
  constructor
  · intro follows
    by_cases single : i < 12 + vol.blksize / 4
    · exact .inl single
    by_cases narrow : k < 8
    · refine Or.inr ⟨narrow, Nat.lt_of_not_le fun past => ?_⟩
      have follows := follows vol.disk fun _ => 0
      rw [inodeBlkChecked_none isSize narrow _ past] at follows
      cases follows
    · exact absurd (follows onesDisk dindInode)
        (inodeBlkChecked_wide isSize small narrow (Nat.not_lt.mp single) isWord)
  · intro reached disk ino
    exact @inodeBlkChecked_eq { vol with disk := disk } i k isSize small ino reached

/-- The last of the doubly indirect blocks of 1 KiB. -/
theorem block_map_iff_kib : inodeBlkChecked ⟨1024, 8192, 8192, 128, [], onesDisk⟩ dindInode 65803 =
    some (layoutBlk ⟨1024, 8192, 8192, 128, [], onesDisk⟩ dindInode 65803) :=
  (block_map_iff ⟨1024, 8192, 8192, 128, [], onesDisk⟩ (k := 0) rfl (by decide)
    (i := 65803) (by decide)).mpr (.inr ⟨by decide, by decide⟩) onesDisk dindInode

/-- The first of the triply indirect blocks of 1 KiB is looked for at entry 256 of a block of
256 pointers. -/
theorem block_map_overrun : inodeBlkChecked ⟨1024, 8192, 8192, 128, [], fun _ _ => 0⟩
    (fun _ => 0) 65804 ≠
      some (layoutBlk ⟨1024, 8192, 8192, 128, [], fun _ _ => 0⟩ (fun _ => 0) 65804) := by
  decide

end Micro.Ext2
