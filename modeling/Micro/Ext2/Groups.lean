import Micro.Ext2.Layout

/-!
# Group descriptors and bitmaps

Where `ext2_mount` and `ext2_rewrite_bgds` look for the group descriptors, and which block a bit
of a bitmap stands for.  Both are right for blocks of 1 KiB only.
-/

namespace Micro.Ext2

open Lib List

/-! ## The table of group descriptors -/

def superBlk : Nat := 1

/-- A group descriptor in a buffer. -/
def bgdAt (buf : Buf) (pos : Nat) : Bgd where
  blockBmp := le32 buf pos
  inodeBmp := le32 buf (pos + 4)
  inodeTbl := le32 buf (pos + 8)
  freeBlocks := le16 buf (pos + 12)
  freeInodes := le16 buf (pos + 14)
  dirCnt := le16 buf (pos + 16)
  res := slice buf (pos + 18) 14

/-- `vol->groups` as `ext2_mount` reads it from the device -/
def mountGroups (vol : Volume) : List Bgd :=
  (List.range vol.groups.length).map fun i =>
    bgdAt (fun k => vol.disk (superBlk + 1 + k / vol.blksize) (k % vol.blksize)) (32 * i)

/-- The values of a `struct ext2_bgd`. -/
structure Bgd.Fits (group : Bgd) : Prop where
  blockBmp : group.blockBmp < 2 ^ 32
  inodeBmp : group.inodeBmp < 2 ^ 32
  inodeTbl : group.inodeTbl < 2 ^ 32
  freeBlocks : group.freeBlocks < 2 ^ 16
  freeInodes : group.freeInodes < 2 ^ 16
  dirCnt : group.dirCnt < 2 ^ 16
  res : group.res.length = 14

theorem bgdAt_eq {buf : Buf} {pos : Nat} {group : Bgd} (fits : group.Fits)
    (found : slice buf pos 32 = group.bytes) : bgdAt buf pos = group := by
  simp only [Bgd.bytes, append_assoc] at found
  obtain ⟨blockBmp, found⟩ := slice_append found
  obtain ⟨inodeBmp, found⟩ := slice_append found
  obtain ⟨inodeTbl, found⟩ := slice_append found
  obtain ⟨freeBlocks, found⟩ := slice_append found
  obtain ⟨freeInodes, found⟩ := slice_append found
  obtain ⟨dirCnt, res⟩ := slice_append found
  rw [fits.res] at res
  obtain ⟨_, _, _, _, _, _, _⟩ := group
  simp only [bgdAt, Bgd.mk.injEq]
  refine ⟨?_, ?_, ?_, ?_, ?_, ?_, res⟩
  · exact (le32_of_slice blockBmp).trans (Nat.mod_eq_of_lt fits.blockBmp)
  · exact (le32_of_slice inodeBmp).trans (Nat.mod_eq_of_lt fits.inodeBmp)
  · exact (le32_of_slice inodeTbl).trans (Nat.mod_eq_of_lt fits.inodeTbl)
  · exact (le16_of_slice freeBlocks).trans (Nat.mod_eq_of_lt fits.freeBlocks)
  · exact (le16_of_slice freeInodes).trans (Nat.mod_eq_of_lt fits.freeInodes)
  · exact (le16_of_slice dirCnt).trans (Nat.mod_eq_of_lt fits.dirCnt)

theorem bgds_at {buf : Buf} {groups : List Bgd} {pos count : Nat}
    (fits : ∀ group ∈ groups, group.Fits) (found : slice buf pos count = groups.flatMap Bgd.bytes) :
    (range groups.length).map (fun i => bgdAt buf (pos + 32 * i)) = groups := by
  induction groups generalizing pos count with
  | nil => rfl
  | cons group groups ih =>
    obtain ⟨first, others⟩ := forall_mem_cons.mp fits
    obtain ⟨isFirst, found⟩ := slice_append (flatMap_cons ▸ found)
    rw [Bgd.length_bytes first.res] at isFirst found
    rw [length_cons, range_succ_eq_map, map_cons, map_map]
    refine cons_eq_cons.mpr ⟨bgdAt_eq first isFirst, Eq.trans ?_ (ih others found)⟩
    apply map_congr_left
    intro i _
    simp only [Function.comp_apply]
    congr 1
    omega

variable {vol after : Volume}

/-- What `ext2_rewrite_bgds` stores is mounted again, and nothing else is changed. -/
theorem rewriteBgds_spec (fits : ∀ group ∈ vol.groups, group.Fits)
    (inBlk : 32 * vol.groups.length ≤ vol.blksize) :
    ∃ after, rewriteBgds vol = some after ∧ after = { vol with disk := after.disk } ∧
      mountGroups after = vol.groups ∧
      (∀ blk, blk ≠ bgdsBlk → after.disk blk = vol.disk blk) ∧
      ∀ k, 32 * vol.groups.length ≤ k → after.disk bgdsBlk k = vol.disk bgdsBlk k := by
  have length := length_bgds fun group isGroup => (fits group isGroup).res
  have room : 0 + (vol.groups.flatMap Bgd.bytes).length ≤ vol.blksize := by omega
  let buf := put (vol.disk bgdsBlk) 0 (vol.groups.flatMap Bgd.bytes)
  refine ⟨writeBlocks vol buf bgdsBlk, ?_, rfl, ?_, ?_, ?_⟩
  · rw [rewriteBgds, store, if_pos room]
    rfl
  · have found := @slice_put 0 (vol.groups.flatMap Bgd.bytes) (vol.disk bgdsBlk)
    have mounted := @bgds_at (fun k => (writeBlocks vol buf bgdsBlk).disk (superBlk + 1 + k / vol.blksize)
      (k % vol.blksize)) vol.groups 0 (vol.groups.flatMap Bgd.bytes).length fits
      (Eq.trans (slice_congr fun k _ => ?_) found)
    · simp only [Nat.zero_add] at mounted
      exact mounted
    · rw [Nat.zero_add, Nat.div_eq_of_lt (by omega), Nat.mod_eq_of_lt (by omega)]
      exact congrFun (writeBlocks_disk_self vol buf bgdsBlk) k
  · exact fun blk ne => writeBlocks_disk_ne vol _ ne
  · intro k _
    rw [writeBlocks_disk_self]
    exact put_after (by omega)

/-- The group descriptors are read from behind the superblock, and what is written back is read
again, with nothing written outside of the buffer or of the table. -/
def WritesBack (vol : Volume) : Prop :=
  superBlk + 1 = 1024 / vol.blksize + 1 ∧
    ∃ after, rewriteBgds vol = some after ∧ mountGroups after = vol.groups ∧
      ∀ blk, ∀ k < vol.blksize, after.disk blk k ≠ vol.disk blk k →
        (1024 / vol.blksize + 1) * vol.blksize ≤ blk * vol.blksize + k ∧
          blk * vol.blksize + k < (1024 / vol.blksize + 1) * vol.blksize + 32 * vol.groups.length

/-- Group descriptors survive exactly on volumes with blocks of 1 KiB and at most 32 groups. -/
theorem writes_back_iff (vol : Volume) {n : Nat} (isSize : vol.blksize = 1024 * 2 ^ n)
    (fits : ∀ group ∈ vol.groups, group.Fits) :
    WritesBack vol ↔ vol.blksize = 1024 ∧ vol.groups.length ≤ 32 := by
  have length := length_bgds fun group isGroup => (fits group isGroup).res
  constructor
  · rintro ⟨isBlk, after, stored, _⟩
    have kib : vol.blksize = 1024 := by
      have one : 1024 / vol.blksize = 1 := (Nat.add_right_cancel isBlk).symm
      have upTo := Nat.div_mul_le_self 1024 vol.blksize
      have power : 0 < 2 ^ n := Nat.pow_pos (by decide)
      rw [one] at upTo
      omega
    refine ⟨kib, Nat.le_of_not_lt fun _ => ?_⟩
    rw [rewriteBgds, store, if_neg (by omega)] at stored
    cases stored
  · rintro ⟨kib, _⟩
    obtain ⟨after, stored, _, mounted, others, rest⟩ := rewriteBgds_spec fits (by omega)
    refine ⟨by rw [kib]; rfl, after, stored, mounted, fun blk k _ changed => ?_⟩
    by_cases isBgds : blk = bgdsBlk
    · subst isBgds
      have inside : k < 32 * vol.groups.length := Nat.lt_of_not_le fun past => changed (rest k past)
      rw [kib, bgdsBlk]
      omega
    · exact absurd (congrFun (others blk isBgds) k) changed

/-- A volume of one group, in which bit 10 of the bitmap in block 3 is the only unset one. -/
def oneFree (blksize : Nat) : Volume where
  blksize := blksize
  blksPerGrp := blksize * 8
  inodesPerGrp := 8
  inodeSz := 128
  groups := [⟨3, 4, 5, 1, 0, 0, List.replicate 14 0⟩]
  disk := fun blk =>
    if blk = bgdsBlk then put (fun _ => 0) 0 (Bgd.bytes ⟨3, 4, 5, 1, 0, 0, List.replicate 14 0⟩)
    else fun k => if blk = 3 ∧ k = 1 then 0xfb else 0xff

theorem oneFree_fits (blksize : Nat) : ∀ group ∈ (oneFree blksize).groups, group.Fits := by
  simp only [oneFree, mem_singleton, forall_eq]
  constructor <;> decide

theorem writes_back_iff_kib : WritesBack (oneFree 1024) :=
  (writes_back_iff (oneFree 1024) (n := 0) rfl (oneFree_fits 1024)).mpr ⟨rfl, by decide⟩

/-- The descriptors of a volume with blocks of 4 KiB are in block 1. -/
theorem mounts_wrong_block : ¬ WritesBack (oneFree 4096) := fun back => absurd back.1 (by decide)

/-! ## Bits and blocks -/

/-- The block that a bit of the bitmap of a group stands for, `firstDatBlock` being that of the
superblock. -/
def describedBlk (vol : Volume) (firstDatBlock i j : Nat) : Nat :=
  firstDatBlock + i * vol.blksPerGrp + j

/-- The bitmaps say that a block is in use. -/
def InUse (vol : Volume) (firstDatBlock blk : Nat) : Prop :=
  ∃ i j group, vol.groups[i]? = some group ∧ j < vol.blksPerGrp ∧
    bitSet (vol.disk group.blockBmp) j = true ∧ blk = describedBlk vol firstDatBlock i j

/-- The bits past those of the blocks of a group are set, and block numbers have 32 bits. -/
structure Numbered (vol : Volume) (firstDatBlock : Nat) : Prop where
  padding : ∀ group ∈ vol.groups, ∀ j, vol.blksPerGrp ≤ j → j < vol.blksize * 8 →
    bitSet (vol.disk group.blockBmp) j = true
  blkCnt : firstDatBlock + vol.groups.length * vol.blksPerGrp ≤ 2 ^ 32

/-- A call of `ext2_alloc_blk` sets bit `j` of group `i`, which was not set. -/
def SetsBit (vol after : Volume) (blk i j : Nat) : Prop :=
  ∃ group, vol.groups[i]? = some group ∧ j < vol.blksize * 8 ∧
    bitSet (vol.disk group.blockBmp) j = false ∧ takeBlk vol group i j = some (after, blk)

section Described

variable {firstDatBlock blk i j : Nat}

theorem SetsBit.number (numbered : Numbered vol firstDatBlock) (sets : SetsBit vol after blk i j)
    (isBlk : blk ≠ 0) : blk = i * vol.blksPerGrp + j + 1 ∧ j < vol.blksPerGrp := by
  obtain ⟨group, isGroup, inBlk, unset, taken⟩ := sets
  have inside : j < vol.blksPerGrp := by
    refine Nat.lt_of_not_le fun past => ?_
    have set := numbered.padding group (mem_of_getElem? isGroup) j past inBlk
    cases unset.symm.trans set
  obtain ⟨_, isStored, isTaken⟩ := Option.map_eq_some_iff.mp taken
  obtain ⟨_, _, rfl⟩ := Option.map_eq_some_iff.mp isStored
  obtain ⟨rfl, isNumber⟩ := Prod.mk.inj isTaken
  have number : (i * vol.blksPerGrp + j + 1) % 2 ^ 32 = blk := isNumber
  have below : i + 1 ≤ vol.groups.length := (List.getElem?_eq_some_iff.mp isGroup).1
  have upTo := Nat.mul_le_mul_right vol.blksPerGrp below
  have all := numbered.blkCnt
  rw [Nat.add_mul] at upTo
  omega

/-- The number that `ext2_alloc_blk` returns is that of the block its bit stands for, and no
block in use, exactly where the first block of the bitmaps is block 1. -/
theorem allocated_described_iff (numbered : Numbered vol firstDatBlock)
    (taken : allocBlk vol = some (after, blk)) (isBlk : blk ≠ 0) :
    (∃ i j, SetsBit vol after blk i j ∧ blk = describedBlk vol firstDatBlock i j ∧
      ¬ InUse vol firstDatBlock blk) ↔ firstDatBlock = 1 := by
  constructor
  · rintro ⟨i, j, sets, isDescribed, _⟩
    have number := (sets.number numbered isBlk).1
    rw [describedBlk] at isDescribed
    omega
  · rintro rfl
    rw [← blkBitmap_alloc] at taken
    rcases blkBitmap.alloc_cases vol with ⟨none_, _⟩ | ⟨group, i, j, isGroup, _, inBlk, unset, isTake⟩
    · rw [none_] at taken
      exact absurd (Prod.mk.inj (Option.some.inj taken)).2.symm isBlk
    have sets : SetsBit vol after blk i j := ⟨group, isGroup, inBlk, unset, isTake.symm.trans taken⟩
    obtain ⟨number, inside⟩ := sets.number numbered isBlk
    have isDescribed : blk = describedBlk vol 1 i j := by
      rw [describedBlk]
      omega
    refine ⟨i, j, sets, isDescribed, ?_⟩
    rintro ⟨i', j', _, isOther, inside', set, isDescribed'⟩
    rw [describedBlk] at isDescribed'
    have same : i' * vol.blksPerGrp + j' = i * vol.blksPerGrp + j := by omega
    obtain ⟨rfl, rfl⟩ := blk_injective inside' inside same
    rw [Option.some.inj (isGroup.symm.trans isOther)] at unset
    cases unset.symm.trans set

end Described

theorem allocated_described_iff_kib : ∃ after blk, allocBlk (oneFree 1024) = some (after, blk) ∧
    ∃ i j, SetsBit (oneFree 1024) after blk i j ∧ blk = describedBlk (oneFree 1024) 1 i j ∧
      ¬ InUse (oneFree 1024) 1 blk := by
  have numbered : Numbered (oneFree 1024) 1 :=
    ⟨fun _ _ j past below => absurd below (Nat.not_lt.mpr past), by decide⟩
  have taken : allocBlk (oneFree 1024) = some (_, 11) := rfl
  exact ⟨_, _, taken, (allocated_described_iff numbered taken (by decide)).mpr rfl⟩

/-- On a volume with blocks of 4 KiB, whose bitmaps begin with block 0, the bit of block 10 is
set, and block 11, which is in use, is returned. -/
theorem allocates_block_in_use : ∃ after, allocBlk (oneFree 4096) = some (after, 11) ∧
    InUse (oneFree 4096) 0 11 ∧ ¬ ∃ i j, SetsBit (oneFree 4096) after 11 i j ∧
      11 = describedBlk (oneFree 4096) 0 i j ∧ ¬ InUse (oneFree 4096) 0 11 := by
  have inUse : InUse (oneFree 4096) 0 11 := ⟨0, 11, _, rfl, by decide, by decide, by decide⟩
  exact ⟨_, rfl, inUse, fun ⟨_, _, _, _, free⟩ => free inUse⟩

end Micro.Ext2
