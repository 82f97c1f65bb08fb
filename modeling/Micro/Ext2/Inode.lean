import Micro.Ext2.Layout

/-!
# Inodes

Where an inode of a well-formed volume is, that it is read back as it was written, and
what assigning one of its fields does to the others.
-/

namespace Micro.Ext2

open Lib Option List

variable {i blk off : Nat} {vol : Volume}

/-! ## Fields -/

section Fields

variable {ino : Buf}

theorem sectors_setSectors {count : Nat} (small : count < 2 ^ 32) :
    sectors (setSectors ino count) = count := (le32_put_self count).trans (Nat.mod_eq_of_lt small)

theorem blocks_setSectors (count i : Nat) : blocks (setSectors ino count) i = blocks ino i :=
  le32_put_outside (by rw [length_bytes32]; omega)

theorem blocks_setBlocks_self (small : blk < 2 ^ 32) :
    blocks (setBlocks ino i blk) i = blk := (le32_put_self blk).trans (Nat.mod_eq_of_lt small)

theorem blocks_setBlocks_ne {k : Nat} (blk : Nat) (ne : k ≠ i) :
    blocks (setBlocks ino i blk) k = blocks ino k :=
  le32_put_outside (by rw [length_bytes32]; omega)

end Fields

/-! ## The inode table -/

/-- The number of an inode of the volume. -/
def ValidIno (vol : Volume) (num : Nat) : Prop :=
  0 < num ∧ num ≤ vol.groups.length * vol.inodesPerGrp

def inodeTblBlk (vol : Volume) (num : Nat) : Nat := (inodePlace vol num).elim 0 Prod.fst

section Place

variable {after : Volume} {num : Nat}

theorem Same.inodeTblBlk (same : Same vol after) (num : Nat) :
    inodeTblBlk after num = inodeTblBlk vol num := by
  rw [Ext2.inodeTblBlk, Ext2.inodeTblBlk, same.inodePlace]

theorem ValidIno.same (valid : ValidIno vol num) (same : Same vol after) : ValidIno after num := by
  rw [ValidIno, same.length, same.inodesPerGrp]
  exact valid

theorem Same.readInode_map {α : Type} (same : Same vol after) (num : Nat) (value : α) :
    (readInode after num).map (fun _ => value) = (readInode vol num).map fun _ => value := by
  simp only [readInode, same.inodePlace, same.blksize]
  cases Ext2.inodePlace vol num with
  | none => rfl
  | some _ =>
    simp only [bind_some]
    split <;> rfl

theorem Same.readInode (same : Same vol after)
    (sameBlk : after.disk (Ext2.inodeTblBlk vol num) = vol.disk (Ext2.inodeTblBlk vol num)) :
    readInode after num = readInode vol num := by
  simp only [Ext2.inodeTblBlk] at sameBlk
  simp only [Ext2.readInode, same.inodePlace, same.blksize, readBlocks]
  cases isPlace : Ext2.inodePlace vol num with
  | none => rfl
  | some _ =>
    rw [isPlace, elim_some] at sameBlk
    simp only [bind_some, sameBlk]

/-- Inodes fill the blocks of an inode table. -/
structure Slots (vol : Volume) : Prop where
  blksize : 0 < vol.blksize
  inodeSz : 128 ≤ vol.inodeSz ∧ vol.inodeSz ∣ vol.blksize
  inodeCnt : vol.groups.length * vol.inodesPerGrp < 2 ^ 32

/-- The block of its inode table that an inode is in, and its offset there. -/
theorem Slots.place (slots : Slots vol) (valid : ValidIno vol num) :
    ∃ group, vol.groups[(num - 1) / vol.inodesPerGrp]? = some group ∧
      (num - 1) % vol.inodesPerGrp * vol.inodeSz / vol.blksize <
        blksFor vol (vol.inodesPerGrp * vol.inodeSz) ∧
      (num - 1) % vol.inodesPerGrp * vol.inodeSz % vol.blksize + inodeBytes ≤ vol.blksize ∧
      inodePlace vol num = some
        (group.inodeTbl + (num - 1) % vol.inodesPerGrp * vol.inodeSz / vol.blksize,
          (num - 1) % vol.inodesPerGrp * vol.inodeSz % vol.blksize) := by
  obtain ⟨size, ⟨_, count, isSize⟩, _⟩ := slots
  obtain ⟨_, upTo⟩ := valid
  have perGrp : 0 < vol.inodesPerGrp := by
    apply Nat.pos_of_ne_zero
    intro none
    rw [none] at upTo
    omega
  have index : (num + (2 ^ 32 - 1)) % 2 ^ 32 = num - 1 := by omega
  have inGroups : (num - 1) / vol.inodesPerGrp < vol.groups.length := by
    rw [Nat.div_lt_iff_lt_mul perGrp]
    omega
  refine ⟨_, getElem?_eq_getElem inGroups, ?_, ?_, ?_⟩
  · have next := Nat.mul_le_mul_right vol.inodeSz (Nat.mod_lt (num - 1) perGrp)
    rw [Nat.succ_mul] at next
    refine Nat.lt_of_lt_of_le (Nat.lt_add_one _) ?_
    rw [← Nat.add_div_right _ size]
    exact Nat.div_le_div_right (by omega)
  · have some_ : 0 < count := by
      apply Nat.pos_of_ne_zero
      rintro rfl
      omega
    have whole := Nat.mul_le_mul_left vol.inodeSz (Nat.mod_lt ((num - 1) % vol.inodesPerGrp) some_)
    rw [Nat.mul_succ] at whole
    rw [isSize, Nat.mul_comm, Nat.mul_mod_mul_left, inodeBytes]
    omega
  · simp only [inodePlace, index, getElem?_eq_getElem inGroups, map_some]
    rw [Nat.mul_comm, Nat.mul_add_div size]

theorem Slots.exists_place (slots : Slots vol) (valid : ValidIno vol num) :
    ∃ blk off, inodePlace vol num = some (blk, off) ∧ off + inodeBytes ≤ vol.blksize := by
  obtain ⟨_, _, _, inside, isPlace⟩ := slots.place valid
  exact ⟨_, _, isPlace, inside⟩

section At

variable (isPlace : inodePlace vol num = some (blk, off)) (inside : off + inodeBytes ≤ vol.blksize)
include isPlace inside

theorem readInode_at : readInode vol num = some fun k => vol.disk blk (off + k) := by
  simp only [readInode, isPlace, bind_some, if_pos inside, readBlocks]

theorem writeInode_at (ino : Buf) : writeInode vol num ino =
    some (writeBlocks vol (put (vol.disk blk) off (slice ino 0 inodeBytes)) blk) := by
  have fits : off + (slice ino 0 inodeBytes).length ≤ vol.blksize := by simpa using inside
  simp only [writeInode, isPlace, bind_some, store, if_pos fits, map_some, readBlocks]

end At

variable (wf : WellFormed vol) (valid : ValidIno vol num)
include wf valid

theorem inodePlace_spec : ∃ off, inodePlace vol num = some (inodeTblBlk vol num, off) ∧
    off + inodeBytes ≤ vol.blksize ∧ inodeTblBlk vol num ∈ otherMeta vol := by
  obtain ⟨group, isGroup, _, inside, isPlace⟩ :=
    Slots.place ⟨wf.blksize_pos, wf.inodeSz, wf.inodeCnt⟩ valid
  have isBlk : inodeTblBlk vol num =
      group.inodeTbl + (num - 1) % vol.inodesPerGrp * vol.inodeSz / vol.blksize := by
    rw [inodeTblBlk, isPlace, elim_some]
  refine ⟨_, isBlk ▸ isPlace, inside, ?_⟩
  refine mem_append_right _ (mem_flatMap.mpr ⟨group, mem_of_getElem? isGroup, ?_⟩)
  rw [isBlk]
  refine mem_cons_of_mem _ (mem_range'_1.mpr ⟨Nat.le_add_right _ _, ?_⟩)
  omega

theorem inodeTblBlk_not_bitmap : inodeTblBlk vol num ∉ bitmaps vol := by
  obtain ⟨_, _, _, isMeta⟩ := inodePlace_spec wf valid
  exact fun bitmap => wf.bitmap_ne bitmap isMeta rfl

theorem inodeTblBlk_not_free : ¬ Free vol (inodeTblBlk vol num) := by
  obtain ⟨_, _, _, isMeta⟩ := inodePlace_spec wf valid
  exact wf.metaUsed _ (mem_metaBlks.mpr (.inr isMeta))

theorem writeInode_spec (ino : Buf) : ∃ buf, writeInode vol num ino =
      some (writeBlocks vol buf (inodeTblBlk vol num)) ∧
    ∃ back, readInode (writeBlocks vol buf (inodeTblBlk vol num)) num = some back ∧
      ∀ k < inodeBytes, back k = ino k := by
  obtain ⟨off, isPlace, inside, _⟩ := inodePlace_spec wf valid
  have same := (Same.write vol (put (vol.disk (inodeTblBlk vol num)) off (slice ino 0 inodeBytes))
    (inodeTblBlk vol num)).inodePlace num
  refine ⟨_, writeInode_at isPlace inside ino, _, readInode_at (same.trans isPlace) inside,
    fun k inside => ?_⟩
  rw [writeBlocks_disk_self, put_inside (getElem?_slice inside), Nat.zero_add]

end Place

/-! ## Slots -/

/-- The size of an inode is a power of two between 128 and the size of a block, and no block is
in two inode tables. -/
structure InodeTables (vol : Volume) : Prop where
  blksize : ∃ n, vol.blksize = 1024 * 2 ^ n
  inodeSz : (∃ n, vol.inodeSz = 2 ^ n) ∧ 128 ≤ vol.inodeSz ∧ vol.inodeSz ≤ vol.blksize
  inodeCnt : vol.groups.length * vol.inodesPerGrp < 2 ^ 32
  apart : ∀ {i i' : Nat} {group group' : Bgd} {q q' : Nat}, vol.groups[i]? = some group →
    vol.groups[i']? = some group' → q < blksFor vol (vol.inodesPerGrp * vol.inodeSz) →
    q' < blksFor vol (vol.inodesPerGrp * vol.inodeSz) →
    group.inodeTbl + q = group'.inodeTbl + q' → i = i'

section Independent

variable {n m : Nat}

theorem InodeTables.slots (tables : InodeTables vol) : Slots vol := by
  obtain ⟨⟨n, isSize⟩, ⟨⟨m, isInodeSz⟩, atLeast, upTo⟩, inodeCnt, _⟩ := tables
  have power : vol.blksize = 2 ^ (10 + n) := by rw [isSize, Nat.pow_add]
  refine ⟨power ▸ Nat.pow_pos (by decide), ⟨atLeast, ?_⟩, inodeCnt⟩
  rw [power, isInodeSz] at upTo ⊢
  exact Nat.pow_dvd_pow 2 ((Nat.pow_le_pow_iff_right (by decide)).mp upTo)

/-- Two inodes are in different blocks, or do not overlap in one. -/
theorem InodeTables.apart_slots (tables : InodeTables vol) (validN : ValidIno vol n)
    (validM : ValidIno vol m) (different : n ≠ m) {off' : Nat}
    (isPlace : inodePlace vol n = some (blk, off)) (isPlace' : inodePlace vol m = some (blk, off')) :
    off + inodeBytes ≤ off' ∨ off' + inodeBytes ≤ off := by
  obtain ⟨_, isGroup, inTable, _, isPlaceN⟩ := tables.slots.place validN
  obtain ⟨_, isGroup', inTable', _, isPlaceM⟩ := tables.slots.place validM
  obtain ⟨rfl, rfl⟩ := Prod.mk.inj (some.inj (isPlace.symm.trans isPlaceN))
  obtain ⟨sameBlk, rfl⟩ := Prod.mk.inj (some.inj (isPlace'.symm.trans isPlaceM))
  have sameGroup := tables.apart isGroup isGroup' inTable inTable' sameBlk
  rw [sameGroup, isGroup'] at isGroup
  obtain rfl := some.inj isGroup
  have sameRow := Nat.add_left_cancel sameBlk
  generalize isA : (n - 1) % vol.inodesPerGrp = a at sameRow ⊢
  generalize isB : (m - 1) % vol.inodesPerGrp = b at sameRow ⊢
  have ne : a ≠ b := by
    have splitN := Nat.div_add_mod (n - 1) vol.inodesPerGrp
    have splitM := Nat.div_add_mod (m - 1) vol.inodesPerGrp
    have positiveN := validN.1
    have positiveM := validM.1
    rw [sameGroup] at splitN
    omega
  have splitA := Nat.div_add_mod (a * vol.inodeSz) vol.blksize
  have splitB := Nat.div_add_mod (b * vol.inodeSz) vol.blksize
  have atLeast := tables.inodeSz.2.1
  rw [sameRow] at splitA
  rw [inodeBytes]
  rcases Nat.lt_or_gt_of_ne ne with less | more
  · have next := Nat.mul_le_mul_right vol.inodeSz less
    rw [Nat.succ_mul] at next
    omega
  · have next := Nat.mul_le_mul_right vol.inodeSz more
    rw [Nat.succ_mul] at next
    omega

/-- Writing an inode changes its 128 bytes on the disk and nothing else, so that it is read back
and every other inode is as before. -/
theorem inode_slots_independent (tables : InodeTables vol) (validN : ValidIno vol n)
    (validM : ValidIno vol m) (different : n ≠ m) (ino : Buf) :
    ∃ after blk off, inodePlace vol n = some (blk, off) ∧ writeInode vol n ino = some after ∧
      (∃ back, readInode after n = some back ∧ ∀ k < inodeBytes, back k = ino k) ∧
      (∃ old new, readInode vol m = some old ∧ readInode after m = some new ∧
        ∀ k < inodeBytes, new k = old k) ∧
      ∀ b k, after.disk b k ≠ vol.disk b k → b = blk ∧ off ≤ k ∧ k < off + inodeBytes := by
  obtain ⟨blk, off, isPlace, inside⟩ := tables.slots.exists_place validN
  obtain ⟨blk', _, isPlace', inside'⟩ := tables.slots.exists_place validM
  let buf := put (vol.disk blk) off (slice ino 0 inodeBytes)
  have same := (Same.write vol buf blk).inodePlace
  have length : (slice ino 0 inodeBytes).length = inodeBytes := length_slice
  refine ⟨writeBlocks vol buf blk, blk, off, isPlace, writeInode_at isPlace inside ino,
    ⟨_, readInode_at ((same n).trans isPlace) inside, ?_⟩,
    ⟨_, _, readInode_at isPlace' inside', readInode_at ((same m).trans isPlace') inside', ?_⟩, ?_⟩
  · intro k inSlot
    have stored := @put_inside off _ _ (vol.disk blk) _ (@getElem?_slice 0 _ ino _ inSlot)
    rw [Nat.zero_add] at stored
    rw [writeBlocks_disk_self]
    exact stored
  · intro k inSlot
    by_cases sameBlk : blk' = blk
    · subst sameBlk
      have apart := tables.apart_slots validN validM different isPlace isPlace'
      rw [writeBlocks_disk_self]
      exact put_outside (by omega)
    · rw [writeBlocks_disk_ne vol buf sameBlk]
  · intro b k changed
    by_cases sameBlk : b = blk
    · subst sameBlk
      rw [writeBlocks_disk_self] at changed
      refine ⟨rfl, Nat.le_of_not_lt fun before => ?_, Nat.lt_of_not_le fun after => ?_⟩
      · exact changed (put_before before)
      · exact changed (put_after (by omega))
    · exact absurd (congrFun (writeBlocks_disk_ne vol buf sameBlk) k) changed

end Independent

/-- Two inodes of one block of the inode table. -/
theorem inode_slots_independent_pair : ∃ after, writeInode ⟨1024, 8192, 16, 128, [⟨3, 4, 5, 0, 0, 0, []⟩],
      fun _ _ => 0⟩ 2 (fun _ => 1) = some after ∧
    ∃ old new, readInode ⟨1024, 8192, 16, 128, [⟨3, 4, 5, 0, 0, 0, []⟩], fun _ _ => 0⟩ 3 = some old ∧
      readInode after 3 = some new ∧ ∀ k < inodeBytes, new k = old k := by
  have tables : InodeTables ⟨1024, 8192, 16, 128, [⟨3, 4, 5, 0, 0, 0, []⟩], fun _ _ => 0⟩ := by
    refine ⟨⟨0, rfl⟩, ⟨⟨7, rfl⟩, by decide, by decide⟩, by decide, ?_⟩
    rintro (_ | i) (_ | _) _ _ _ _ isGroup isGroup' _ _ _
    · rfl
    · simp at isGroup'
    · simp at isGroup
    · simp at isGroup
  obtain ⟨after, _, _, _, written, _, others, _⟩ := @inode_slots_independent _ 2 3 tables
    ⟨by decide, by decide⟩ ⟨by decide, by decide⟩ (by decide) fun _ => 1
  exact ⟨after, written, others⟩

end Micro.Ext2
