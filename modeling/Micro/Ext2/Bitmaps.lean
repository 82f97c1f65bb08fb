import Micro.Ext2.Model

/-!
# Bitmaps

The bits of a bitmap, and the loop of `ext2_alloc_blk` and `ext2_alloc_inode`, which is the same
for the bitmaps of the blocks and those of the inodes.
-/

namespace Micro.Ext2

open Lib List

variable {buf : Buf} {count j : Nat}

theorem bitSet_setBit (buf : Buf) (j k : Nat) :
    bitSet (setBit buf j) k = (bitSet buf k || decide (k = j)) := by
  simp only [bitSet, setBit]
  by_cases sameByte : k / 8 = j / 8
  · have same : j % 8 = k % 8 ↔ k = j := by omega
    have inByte : (buf (j / 8)).toNat ||| 1 <<< (j % 8) < 2 ^ 8 := by
      apply Nat.or_lt_two_pow (buf (j / 8)).toNat_lt
      rw [Nat.one_shiftLeft]
      exact Nat.pow_lt_pow_right (by decide) (Nat.mod_lt _ (by decide))
    rw [sameByte, Function.update_self, UInt8.toNat_ofNat', Nat.mod_eq_of_lt inByte, Nat.testBit_or,
      Nat.one_shiftLeft, Nat.testBit_two_pow, decide_eq_decide.mpr same]
  · have ne : k ≠ j := fun equal => sameByte (by rw [equal])
    simp [Function.update_of_ne sameByte, ne]

theorem firstUnset_eq (buf : Buf) (count j : Nat) :
    firstUnset buf count j = (range' j count).find? fun k => !bitSet buf k := by
  induction count generalizing j with
  | zero => rfl
  | succ count ih =>
    rw [firstUnset, ih, range'_succ, find?_cons]
    cases bitSet buf j <;> rfl

theorem firstUnset_some {found : Nat} (isFound : firstUnset buf count j = some found) :
    bitSet buf found = false ∧ j ≤ found ∧ found < j + count := by
  rw [firstUnset_eq] at isFound
  have unset := find?_some isFound
  exact ⟨by simpa using unset, mem_range'_1.mp (mem_of_find?_eq_some isFound)⟩

theorem firstUnset_none (notFound : firstUnset buf count j = none) {k : Nat} (from_ : j ≤ k)
    (below : k < j + count) : bitSet buf k = true := by
  rw [firstUnset_eq, find?_eq_none] at notFound
  simpa using notFound k (mem_range'_1.mpr ⟨from_, below⟩)

def unsetBits (buf : Buf) (count : Nat) : Nat := (List.range count).countP fun j => !bitSet buf j

theorem countP_drop {before after : Nat → Bool} (was : before j = true) (isNot : after j = false)
    (same : ∀ k, k ≠ j → after k = before k) {items : List Nat} (nodup : items.Nodup)
    (mem : j ∈ items) : items.countP after + 1 = items.countP before := by
  have rest : (items.erase j).countP after = (items.erase j).countP before :=
    countP_congr fun k later => by rw [same k (nodup.mem_erase_iff.mp later).1]
  rw [(perm_cons_erase mem).countP_eq, (perm_cons_erase mem).countP_eq, countP_cons_of_pos was,
    countP_cons_of_neg (by simp [isNot]), rest]

theorem unsetBits_setBit (inside : j < count) (unset : bitSet buf j = false) :
    unsetBits (setBit buf j) count + 1 = unsetBits buf count := by
  apply countP_drop (by simp [unset]) (by simp [bitSet_setBit]) _ nodup_range (mem_range.mpr inside)
  intro k ne
  simp [bitSet_setBit, ne]

theorem exists_unset (some_ : unsetBits buf count ≠ 0) : ∃ j < count, bitSet buf j = false := by
  obtain ⟨j, mem, unset⟩ := countP_pos_iff.mp (Nat.pos_of_ne_zero some_)
  exact ⟨j, mem_range.mp mem, by simpa using unset⟩

/-! ## Allocation -/

/-- One of the two kinds of bitmaps: the block of a group's bitmap, the count of its unset bits,
the group with a count one less, and the bits of a group. -/
structure Bitmap where
  blk : Bgd → Nat
  free : Bgd → Nat
  less : Bgd → Bgd
  perGrp : Volume → Nat

def blkBitmap : Bitmap where
  blk := Bgd.blockBmp
  free := Bgd.freeBlocks
  less := fun group => { group with freeBlocks := group.freeBlocks - 1 }
  perGrp := Volume.blksPerGrp

def inodeBitmap : Bitmap where
  blk := Bgd.inodeBmp
  free := Bgd.freeInodes
  less := fun group => { group with freeInodes := group.freeInodes - 1 }
  perGrp := Volume.inodesPerGrp

namespace Bitmap

variable (map : Bitmap) (vol : Volume)

/-- Mark bit `j` of group `i` as used. -/
def take (group : Bgd) (i j : Nat) : Option (Volume × Nat) :=
  let marked := writeBlocks vol (setBit (readBlocks vol (map.blk group)) j) (map.blk group)
  (rewriteBgds { marked with groups := vol.groups.set i (map.less group) }).map fun after =>
    (after, (i * map.perGrp after + j + 1) % 2 ^ 32)

/-- The loop over the groups from `i` on. -/
def allocFrom : List Bgd → (i : Nat) → Option (Volume × Nat)
  | [], _ => some (vol, 0)
  | group :: groups, i =>
      if map.free group = 0 then allocFrom groups (i + 1)
      else
        match firstUnset (readBlocks vol (map.blk group)) (vol.blksize * 8) 0 with
        | none => allocFrom groups (i + 1)
        | some j => map.take vol group i j

/-- `ext2_alloc_blk` or `ext2_alloc_inode` -/
def alloc : Option (Volume × Nat) := map.allocFrom vol vol.groups 0

end Bitmap

def allocInode (vol : Volume) : Option (Volume × Nat) := inodeBitmap.alloc vol

section Alloc

variable {map : Bitmap} {vol : Volume}

theorem blkBitmap_alloc : blkBitmap.alloc vol = allocBlk vol := by
  have scan : ∀ (groups : List Bgd) (i : Nat),
      blkBitmap.allocFrom vol groups i = allocBlkFrom vol groups i := by
    intro groups
    induction groups with
    | nil => exact fun _ => rfl
    | cons _ groups ih =>
      intro i
      rw [Bitmap.allocFrom, ih]
      rfl
  exact scan vol.groups 0

/-- The bit that is taken is the first unset one of a group that has one by its count. -/
theorem Bitmap.alloc_cases (map : Bitmap) (vol : Volume) :
    (map.alloc vol = some (vol, 0) ∧ ∀ group ∈ vol.groups, map.free group ≠ 0 →
      ∀ j < vol.blksize * 8, bitSet (vol.disk (map.blk group)) j = true) ∨
    ∃ group i j, vol.groups[i]? = some group ∧ map.free group ≠ 0 ∧ j < vol.blksize * 8 ∧
      bitSet (vol.disk (map.blk group)) j = false ∧ map.alloc vol = map.take vol group i j := by
  have scan : ∀ {groups before : List Bgd}, vol.groups = before ++ groups →
      (map.allocFrom vol groups before.length = some (vol, 0) ∧ ∀ group ∈ groups,
        map.free group ≠ 0 → ∀ j < vol.blksize * 8, bitSet (vol.disk (map.blk group)) j = true) ∨
      ∃ group i j, vol.groups[i]? = some group ∧ map.free group ≠ 0 ∧ j < vol.blksize * 8 ∧
        bitSet (vol.disk (map.blk group)) j = false ∧
        map.allocFrom vol groups before.length = map.take vol group i j := by
    intro groups
    induction groups with
    | nil => exact fun _ => .inl ⟨rfl, by simp⟩
    | cons group groups ih =>
      intro before isGroups
      have next := @ih (before ++ [group]) (by simp [isGroups])
      rw [length_append] at next
      rw [forall_mem_cons]
      simp only [allocFrom]
      by_cases noneHere : map.free group = 0
      · simpa [noneHere] using next
      rw [if_neg noneHere]
      cases found : firstUnset (readBlocks vol (map.blk group)) (vol.blksize * 8) 0 with
      | none =>
        refine next.imp_left fun ⟨isAlloc, isSet⟩ => ⟨isAlloc, fun _ j inside => ?_, isSet⟩
        exact firstUnset_none found (Nat.zero_le _) (by omega)
      | some j =>
        obtain ⟨unset, _, inside⟩ := firstUnset_some found
        exact .inr ⟨group, before.length, j, by simp [isGroups], noneHere, by omega, unset, rfl⟩
  exact scan (nil_append _).symm

end Alloc

end Micro.Ext2
