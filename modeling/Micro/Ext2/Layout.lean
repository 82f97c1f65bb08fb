import Mathlib.Data.List.Nodup
import Mathlib.Data.List.Perm.Basic
import Micro.Ext2.Bitmaps

/-!
# Well-formed volumes

Which blocks of a volume hold its own structures, which blocks the bitmaps mark as free,
and what `ext2_alloc_blk` does to them.
-/

namespace Micro.Ext2

open Lib List Option

variable {blk j i : Nat} {vol after : Volume} {α : Type} {group : Bgd}

/-! ## Layout -/

section

variable (vol : Volume)

/-- `first_dat_block`: the block with the superblock, and the first one the bitmaps cover. -/
def firstBlk : Nat := if vol.blksize = 1024 then 1 else 0

/-- The blocks so many bytes fill. -/
def blksFor (bytes : Nat) : Nat := (bytes + vol.blksize - 1) / vol.blksize

/-- The blocks of a group that hold its own structures. -/
def groupMeta (group : Bgd) : List Nat :=
  group.blockBmp :: group.inodeBmp ::
    List.range' group.inodeTbl (blksFor vol (vol.inodesPerGrp * vol.inodeSz))

/-- The blocks that hold the structures of the volume. -/
def metaBlks : List Nat :=
  firstBlk vol :: List.range' (firstBlk vol + 1) (blksFor vol (32 * vol.groups.length)) ++
    vol.groups.flatMap (groupMeta vol)

/-- The bitmap of its group marks a block as free. -/
def Free (blk : Nat) : Prop :=
  ∃ i j group, blk = firstBlk vol + i * vol.blksPerGrp + j ∧ j < vol.blksPerGrp ∧
    vol.groups[i]? = some group ∧ bitSet (vol.disk group.blockBmp) j = false

end

/-- A volume that `mke2fs` could have made and ext2 drivers have worked on. -/
structure WellFormed (vol : Volume) : Prop where
  blksize : ∃ n, vol.blksize = 1024 * 2 ^ n
  blksPerGrp : 0 < vol.blksPerGrp ∧ vol.blksPerGrp ≤ vol.blksize * 8
  inodesPerGrp : 0 < vol.inodesPerGrp
  inodeSz : 128 ≤ vol.inodeSz ∧ vol.inodeSz ∣ vol.blksize
  blkCnt : vol.groups.length * vol.blksPerGrp < 2 ^ 32
  inodeCnt : vol.groups.length * vol.inodesPerGrp < 2 ^ 32
  res : ∀ group ∈ vol.groups, group.res.length = 14
  freeBlocks : ∀ group ∈ vol.groups,
    group.freeBlocks = unsetBits (vol.disk group.blockBmp) (vol.blksize * 8)
  padding : ∀ group ∈ vol.groups, ∀ j, vol.blksPerGrp ≤ j → j < vol.blksize * 8 →
    bitSet (vol.disk group.blockBmp) j = true
  metaUsed : ∀ blk ∈ metaBlks vol, ¬ Free vol blk
  metaNodup : (metaBlks vol).Nodup

def bitmaps (vol : Volume) : List Nat := vol.groups.map Bgd.blockBmp

/-- The blocks of the other structures. -/
def otherMeta (vol : Volume) : List Nat :=
  firstBlk vol :: List.range' (firstBlk vol + 1) (blksFor vol (32 * vol.groups.length)) ++
    vol.groups.flatMap fun group => (groupMeta vol group).tail

theorem metaBlks_perm (vol : Volume) : (metaBlks vol).Perm (bitmaps vol ++ otherMeta vol) := by
  have split := vol.groups.map_append_flatMap_perm Bgd.blockBmp fun group =>
    (groupMeta vol group).tail
  refine (split.symm.append_left _).trans ?_
  exact perm_append_comm_assoc _ _ _

theorem mem_metaBlks : blk ∈ metaBlks vol ↔ blk ∈ bitmaps vol ∨ blk ∈ otherMeta vol := by
  rw [(metaBlks_perm vol).mem_iff, mem_append]

/-- Everything but the contents of the blocks and the counts of free ones. -/
structure Same (vol after : Volume) : Prop where
  blksize : after.blksize = vol.blksize
  blksPerGrp : after.blksPerGrp = vol.blksPerGrp
  inodesPerGrp : after.inodesPerGrp = vol.inodesPerGrp
  inodeSz : after.inodeSz = vol.inodeSz
  groups : after.groups.map (fun group => { group with freeBlocks := 0 }) =
    vol.groups.map fun group => { group with freeBlocks := 0 }

namespace Same

variable {last : Volume}

theorem refl (vol : Volume) : Same vol vol := ⟨rfl, rfl, rfl, rfl, rfl⟩

theorem trans (first : Same vol after) (second : Same after last) : Same vol last :=
  ⟨second.blksize.trans first.blksize, second.blksPerGrp.trans first.blksPerGrp,
    second.inodesPerGrp.trans first.inodesPerGrp, second.inodeSz.trans first.inodeSz,
    second.groups.trans first.groups⟩

theorem write (vol : Volume) (buf : Buf) (blk : Nat) : Same vol (writeBlocks vol buf blk) :=
  ⟨rfl, rfl, rfl, rfl, rfl⟩

variable (same : Same vol after)
include same

theorem map (read : Bgd → α) (keeps : ∀ group, read { group with freeBlocks := 0 } = read group) :
    after.groups.map read = vol.groups.map read := by
  have mapped := congrArg (List.map read) same.groups
  simpa only [List.map_map, Function.comp_def, keeps] using mapped

theorem length : after.groups.length = vol.groups.length := by
  simpa using congrArg List.length same.groups

theorem bitmaps : bitmaps after = bitmaps vol := same.map Bgd.blockBmp fun _ => rfl

theorem firstBlk : firstBlk after = firstBlk vol := by
  simp only [Ext2.firstBlk, same.blksize]

theorem metaBlks : metaBlks after = metaBlks vol := by
  have groupMeta_eq : groupMeta after = groupMeta vol := by
    funext group
    simp only [groupMeta, blksFor, same.blksize, same.inodesPerGrp, same.inodeSz]
  have groups := same.map (groupMeta vol) fun _ => rfl
  simp only [Ext2.metaBlks, same.firstBlk, blksFor, same.blksize, same.length, groupMeta_eq,
    flatMap_def, groups]

theorem inodePlace (num : Nat) : inodePlace after num = inodePlace vol num := by
  have tables := same.map Bgd.inodeTbl fun _ => rfl
  have table : ∀ i : Nat, after.groups[i]?.map Bgd.inodeTbl = vol.groups[i]?.map Bgd.inodeTbl := by
    intro i
    rw [← getElem?_map, ← getElem?_map, tables]
  have place : ∀ (read : Nat → Nat × Nat) (i : Nat), after.groups[i]?.map (fun group => read group.inodeTbl) =
      vol.groups[i]?.map fun group => read group.inodeTbl := by
    intro read i
    simpa only [Option.map_map, Function.comp_def] using congrArg (Option.map read) (table i)
  simp only [Ext2.inodePlace, same.inodesPerGrp, same.inodeSz, same.blksize]
  exact place (fun tbl => ((tbl * vol.blksize + _) / vol.blksize, _)) _

end Same

section WellFormed

variable (wf : WellFormed vol)
include wf

theorem WellFormed.blksize_pos : 0 < vol.blksize := by
  obtain ⟨n, isSize⟩ := wf.blksize
  rw [isSize]
  exact Nat.mul_pos (by decide) (Nat.pow_pos (by decide))

theorem WellFormed.bitmaps_nodup : (bitmaps vol).Nodup :=
  (nodup_append.mp ((metaBlks_perm vol).nodup_iff.mp wf.metaNodup)).1

theorem WellFormed.bitmap_ne {other : Nat} (bitmap : blk ∈ bitmaps vol)
    (isOther : other ∈ otherMeta vol) : blk ≠ other :=
  (nodup_append.mp ((metaBlks_perm vol).nodup_iff.mp wf.metaNodup)).2.2 blk bitmap other isOther

theorem WellFormed.bitmap_injective {other : Bgd} (isGroup : vol.groups[i]? = some group)
    (isOther : vol.groups[j]? = some other) (same : group.blockBmp = other.blockBmp) : i = j := by
  have inList : i < (bitmaps vol).length := by
    simpa [bitmaps] using (List.getElem?_eq_some_iff.mp isGroup).1
  apply (getElem?_inj inList wf.bitmaps_nodup).mp
  simp [bitmaps, isGroup, isOther, same]

theorem WellFormed.blk_lt (isGroup : vol.groups[i]? = some group) (inside : j < vol.blksPerGrp) :
    i * vol.blksPerGrp + j + 1 < 2 ^ 32 := by
  have below : i + 1 ≤ vol.groups.length := (List.getElem?_eq_some_iff.mp isGroup).1
  have upTo := Nat.mul_le_mul_right vol.blksPerGrp below
  have all := wf.blkCnt
  rw [Nat.add_mul] at upTo
  omega

/-- What has to be checked after a change of bitmaps and counts. -/
theorem WellFormed.of_same (same : Same vol after)
    (freeBlocks : ∀ group ∈ after.groups,
      group.freeBlocks = unsetBits (after.disk group.blockBmp) (vol.blksize * 8))
    (padding : ∀ group ∈ after.groups, ∀ j, vol.blksPerGrp ≤ j → j < vol.blksize * 8 →
      bitSet (after.disk group.blockBmp) j = true)
    (free : ∀ b, Free after b → Free vol b) : WellFormed after := by
  constructor
  case blksize => exact same.blksize ▸ wf.blksize
  case blksPerGrp => exact same.blksize ▸ same.blksPerGrp ▸ wf.blksPerGrp
  case inodesPerGrp => exact same.inodesPerGrp ▸ wf.inodesPerGrp
  case inodeSz => exact same.blksize ▸ same.inodeSz ▸ wf.inodeSz
  case blkCnt => exact same.length ▸ same.blksPerGrp ▸ wf.blkCnt
  case inodeCnt => exact same.length ▸ same.inodesPerGrp ▸ wf.inodeCnt
  case res =>
    have reserved : ∀ res ∈ vol.groups.map Bgd.res, res.length = 14 := forall_mem_map.mpr wf.res
    rw [← same.map Bgd.res fun _ => rfl] at reserved
    exact forall_mem_map.mp reserved
  case freeBlocks => exact same.blksize ▸ freeBlocks
  case padding => exact same.blksize ▸ same.blksPerGrp ▸ padding
  case metaUsed =>
    exact fun b isMeta isFree => wf.metaUsed b (same.metaBlks ▸ isMeta) (free b isFree)
  case metaNodup => exact same.metaBlks ▸ wf.metaNodup

end WellFormed

theorem bgdsBlk_mem (kib : vol.blksize = 1024) (isGroup : group ∈ vol.groups) :
    bgdsBlk ∈ otherMeta vol := by
  have some_ : 0 < vol.groups.length := length_pos_of_mem isGroup
  have isFirst : firstBlk vol = 1 := if_pos kib
  simp only [otherMeta, blksFor, kib, mem_append, mem_cons, mem_range'_1, bgdsBlk]
  omega

/-- Blocks were written, none of which holds a bitmap. -/
structure Quiet (vol after : Volume) : Prop where
  disk : after = { vol with disk := after.disk }
  bitmaps : ∀ b ∈ bitmaps vol, after.disk b = vol.disk b

namespace Quiet

theorem write (buf : Buf) (noBitmap : blk ∉ Ext2.bitmaps vol) :
    Quiet vol (writeBlocks vol buf blk) where
  disk := rfl
  bitmaps := by
    intro b bitmap
    apply writeBlocks_disk_ne
    rintro rfl
    exact noBitmap bitmap

variable (quiet : Quiet vol after)
include quiet

theorem same : Same vol after := by
  rw [quiet.disk]
  exact ⟨rfl, rfl, rfl, rfl, rfl⟩

theorem groups : after.groups = vol.groups := by
  rw [quiet.disk]

theorem free (b : Nat) : Free after b ↔ Free vol b := by
  have sameBits : ∀ {i : Nat} {group}, vol.groups[i]? = some group →
      after.disk group.blockBmp = vol.disk group.blockBmp :=
    fun isGroup => quiet.bitmaps _ (mem_map_of_mem (mem_of_getElem? isGroup))
  simp only [Free, quiet.same.firstBlk, quiet.same.blksPerGrp, quiet.groups]
  constructor
  · rintro ⟨i, j, group, isBlk, inside, isGroup, unset⟩
    exact ⟨i, j, group, isBlk, inside, isGroup, sameBits isGroup ▸ unset⟩
  · rintro ⟨i, j, group, isBlk, inside, isGroup, unset⟩
    exact ⟨i, j, group, isBlk, inside, isGroup, (sameBits isGroup).symm ▸ unset⟩

theorem wellFormed (wf : WellFormed vol) : WellFormed after := by
  have sameBits : ∀ group ∈ vol.groups, after.disk group.blockBmp = vol.disk group.blockBmp :=
    fun group isGroup => quiet.bitmaps _ (mem_map_of_mem isGroup)
  refine wf.of_same quiet.same ?_ ?_ fun b => (quiet.free b).mp
  · intro group isGroup
    rw [quiet.groups] at isGroup
    rw [sameBits group isGroup]
    exact wf.freeBlocks group isGroup
  · intro group isGroup
    rw [quiet.groups] at isGroup
    rw [sameBits group isGroup]
    exact wf.padding group isGroup

end Quiet

/-! ## Allocation -/

/-- The free blocks, as the group descriptors count them. -/
def freeTotal (vol : Volume) : Nat := (vol.groups.map Bgd.freeBlocks).sum

/-- A block was taken: it was free, it is the one that is no longer, and the blocks written
are a bitmap and that of the group descriptors. -/
structure Took (vol after : Volume) (blk : Nat) : Prop where
  same : Same vol after
  wf : WellFormed after
  wasFree : Free vol blk
  free : ∀ b, Free after b ↔ Free vol b ∧ b ≠ blk
  disk : ∀ b, b ∉ bitmaps vol → b ≠ bgdsBlk → after.disk b = vol.disk b
  total : freeTotal after + 1 = freeTotal vol

theorem Bgd.length_bytes (res : group.res.length = 14) : group.bytes.length = 32 := by
  simp [Bgd.bytes, bytes16, res]

theorem length_bgds {groups : List Bgd} (res : ∀ group ∈ groups, group.res.length = 14) :
    (groups.flatMap Bgd.bytes).length = 32 * groups.length := by
  have each := map_congr_left fun group isGroup => Bgd.length_bytes (res group isGroup)
  rw [length_flatMap, each]
  simp [Nat.mul_comm]

theorem rewriteBgds_some (kib : vol.blksize = 1024) (few : vol.groups.length ≤ 32)
    (res : ∀ group ∈ vol.groups, group.res.length = 14) :
    ∃ buf, rewriteBgds vol = some (writeBlocks vol buf bgdsBlk) := by
  have length : (vol.groups.flatMap Bgd.bytes).length ≤ 1024 := by
    rw [length_bgds res]
    omega
  simp only [rewriteBgds, store, kib, Nat.zero_add, if_pos length]
  exact ⟨_, rfl⟩

theorem sum_set {new old : Nat} {counts : List Nat} {i : Nat} (isOld : counts[i]? = some old) :
    (counts.set i new).sum + old = counts.sum + new := by
  induction counts generalizing i with
  | nil =>
    simp at isOld
  | cons _ counts ih =>
    cases i with
    | zero =>
      simp only [getElem?_cons_zero, some.injEq] at isOld
      simp only [set_cons_zero, sum_cons]
      omega
    | succ i =>
      have rest := ih (by simpa using isOld)
      simp only [set_cons_succ, sum_cons]
      omega

theorem set_self {items : List α} {item : α} (isItem : items[i]? = some item) :
    items.set i item = items := by
  obtain ⟨_, rfl⟩ := List.getElem?_eq_some_iff.mp isItem
  exact set_getElem_self _

theorem blk_injective {size i' j' : Nat} (inside : j < size) (inside' : j' < size)
    (same : i * size + j = i' * size + j') : i = i' ∧ j = j' := by
  have quotient : ∀ {a b : Nat}, b < size → (a * size + b) / size = a := by
    intro a b below
    rw [Nat.mul_comm, Nat.mul_add_div (by omega), Nat.div_eq_of_lt below, Nat.add_zero]
  have sameGroup : i = i' := by
    have divided := congrArg (· / size) same
    simpa only [quotient inside, quotient inside'] using divided
  subst sameGroup
  exact ⟨rfl, Nat.add_left_cancel same⟩

/-- The group descriptors and bitmaps after a bit of group `i` was set. -/
structure Marked (vol after : Volume) (group : Bgd) (i j : Nat) : Prop where
  groups : after.groups = vol.groups.set i { group with freeBlocks := group.freeBlocks - 1 }
  bits : after.disk group.blockBmp = setBit (vol.disk group.blockBmp) j
  disk : ∀ b, b ≠ group.blockBmp → b ≠ bgdsBlk → after.disk b = vol.disk b
  params : after.blksize = vol.blksize ∧ after.blksPerGrp = vol.blksPerGrp ∧
    after.inodesPerGrp = vol.inodesPerGrp ∧ after.inodeSz = vol.inodeSz

section Take

theorem res_set (wf : WellFormed vol) (isGroup : vol.groups[i]? = some group) (count : Nat) :
    ∀ other ∈ vol.groups.set i { group with freeBlocks := count }, other.res.length = 14 := by
  intro other isOther
  rcases mem_or_eq_of_mem_set isOther with old | isNew
  · exact wf.res other old
  · rw [isNew]
    exact wf.res group (mem_of_getElem? isGroup)

theorem takeBlk_marked (wf : WellFormed vol) (kib : vol.blksize = 1024)
    (few : vol.groups.length ≤ 32) (isGroup : vol.groups[i]? = some group) :
    ∃ after, takeBlk vol group i j = some (after, (i * vol.blksPerGrp + j + 1) % 2 ^ 32) ∧
      Marked vol after group i j := by
  have isMem := mem_of_getElem? isGroup
  have notBgds : group.blockBmp ≠ bgdsBlk :=
    wf.bitmap_ne (mem_map_of_mem isMem) (bgdsBlk_mem kib isMem)
  let groups := vol.groups.set i { group with freeBlocks := group.freeBlocks - 1 }
  have res : ∀ other ∈ groups, other.res.length = 14 := res_set wf isGroup _
  obtain ⟨_, rewritten⟩ := @rewriteBgds_some
    { writeBlocks vol (setBit (readBlocks vol group.blockBmp) j) group.blockBmp with
      groups := groups } kib (by simpa [groups] using few) res
  simp only [takeBlk]
  rw [rewritten]
  refine ⟨_, rfl, rfl, ?_, ?_, rfl, rfl, rfl, rfl⟩
  · simp [writeBlocks, readBlocks, notBgds]
  · intro b notBitmap notBgds
    simp [writeBlocks, notBitmap, notBgds]

variable (marked : Marked vol after group i j) (isGroup : vol.groups[i]? = some group) {other : Bgd}
  {k : Nat}

include marked isGroup

theorem Marked.same : Same vol after := by
  obtain ⟨blksize, blksPerGrp, inodesPerGrp, inodeSz⟩ := marked.params
  refine ⟨blksize, blksPerGrp, inodesPerGrp, inodeSz, ?_⟩
  rw [marked.groups, map_set]
  apply set_self
  simp [isGroup]

theorem Marked.group_cases (isOther : after.groups[k]? = some other) :
    k = i ∧ other = { group with freeBlocks := group.freeBlocks - 1 } ∨
      k ≠ i ∧ vol.groups[k]? = some other := by
  rw [marked.groups, getElem?_set] at isOther
  by_cases same : i = k
  · rw [if_pos same, if_pos (List.getElem?_eq_some_iff.mp isGroup).1] at isOther
    exact .inl ⟨same.symm, (some.inj isOther).symm⟩
  · rw [if_neg same] at isOther
    exact .inr ⟨Ne.symm same, isOther⟩

variable (wf : WellFormed vol)
include wf

variable (kib : vol.blksize = 1024)
include kib

theorem Marked.other_bits (ne : k ≠ i) (isOther : vol.groups[k]? = some other) :
    after.disk other.blockBmp = vol.disk other.blockBmp := by
  have isMem := mem_of_getElem? isOther
  apply marked.disk
  · exact fun same => ne (wf.bitmap_injective isOther isGroup same)
  · exact wf.bitmap_ne (mem_map_of_mem isMem) (bgdsBlk_mem kib isMem)

variable (inside : j < vol.blksPerGrp)
include inside

theorem Marked.free (b : Nat) : Free after b ↔ Free vol b ∧ b ≠ 1 + i * vol.blksPerGrp + j := by
  have isFirst : firstBlk vol = 1 := if_pos kib
  have same := marked.same isGroup
  constructor
  · rintro ⟨k, l, other, isBlk, insideOther, isOther, unset⟩
    rw [same.firstBlk, same.blksPerGrp] at isBlk
    rw [same.blksPerGrp] at insideOther
    rcases marked.group_cases isGroup isOther with ⟨here, isNew⟩ | ⟨ne, isOther⟩
    · subst here isNew
      simp only [marked.bits, bitSet_setBit, Bool.or_eq_false_iff, decide_eq_false_iff_not] at unset
      refine ⟨⟨k, l, group, isFirst ▸ isBlk, insideOther, isGroup, unset.1⟩, ?_⟩
      omega
    · rw [marked.other_bits isGroup wf kib ne isOther] at unset
      refine ⟨⟨k, l, other, isFirst ▸ isBlk, insideOther, isOther, unset⟩, fun equal => ne ?_⟩
      exact (blk_injective insideOther inside (by omega)).1
  · rintro ⟨⟨k, l, other, isBlk, insideOther, isOther, unset⟩, ne⟩
    rw [isFirst] at isBlk
    by_cases here : k = i
    · subst here
      obtain rfl := some.inj (isGroup.symm.trans isOther)
      have isNew : after.groups[k]? = some { group with freeBlocks := group.freeBlocks - 1 } := by
        rw [marked.groups, List.getElem?_set_self (List.getElem?_eq_some_iff.mp isGroup).1]
      refine ⟨k, l, _, ?_, ?_, isNew, ?_⟩
      · rw [same.firstBlk, isFirst, same.blksPerGrp, isBlk]
      · rw [same.blksPerGrp]
        exact insideOther
      · have otherBit : l ≠ j := fun equal => ne (by rw [isBlk, equal])
        simp [marked.bits, bitSet_setBit, unset, otherBit]
    · refine ⟨k, l, other, ?_, ?_, ?_, ?_⟩
      · rw [same.firstBlk, isFirst, same.blksPerGrp, isBlk]
      · rw [same.blksPerGrp]
        exact insideOther
      · rw [marked.groups, getElem?_set_ne (Ne.symm here), isOther]
      · rw [marked.other_bits isGroup wf kib here isOther, unset]

variable (unset : bitSet (vol.disk group.blockBmp) j = false)
include unset

theorem Marked.wellFormed : WellFormed after := by
  have isMem := mem_of_getElem? isGroup
  have insideBlk : j < vol.blksize * 8 := Nat.lt_of_lt_of_le inside wf.blksPerGrp.2
  refine wf.of_same (marked.same isGroup) ?_ ?_ fun b isFree =>
    ((marked.free isGroup wf kib inside b).mp isFree).1
  · intro other isOther
    obtain ⟨k, isOther⟩ := mem_iff_getElem?.mp isOther
    rcases marked.group_cases isGroup isOther with ⟨_, isNew⟩ | ⟨ne, isOther⟩
    · have count := wf.freeBlocks group isMem
      have less := unsetBits_setBit insideBlk unset
      rw [isNew, marked.bits]
      dsimp only
      omega
    · rw [marked.other_bits isGroup wf kib ne isOther]
      exact wf.freeBlocks other (mem_of_getElem? isOther)
  · intro other isOther l from_ below
    obtain ⟨k, isOther⟩ := mem_iff_getElem?.mp isOther
    rcases marked.group_cases isGroup isOther with ⟨_, isNew⟩ | ⟨ne, isOther⟩
    · simp [isNew, marked.bits, bitSet_setBit, wf.padding group isMem l from_ below]
    · rw [marked.other_bits isGroup wf kib ne isOther]
      exact wf.padding other (mem_of_getElem? isOther) l from_ below

theorem Marked.took (some_ : group.freeBlocks ≠ 0) :
    Took vol after (1 + i * vol.blksPerGrp + j) where
  same := marked.same isGroup
  wf := marked.wellFormed isGroup wf kib inside unset
  wasFree := ⟨i, j, group, by rw [firstBlk, if_pos kib], inside, isGroup, unset⟩
  free := marked.free isGroup wf kib inside
  disk := by
    intro b noBitmap notBgds
    apply marked.disk b _ notBgds
    exact fun same => noBitmap (same ▸ mem_map_of_mem (mem_of_getElem? isGroup))
  total := by
    have counts : (vol.groups.map Bgd.freeBlocks)[i]? = some group.freeBlocks := by simp [isGroup]
    have total := @sum_set (group.freeBlocks - 1) _ _ _ counts
    simp only [freeTotal, marked.groups, map_set]
    omega

end Take

variable (wf : WellFormed vol)
include wf

/-- On a volume with a free block `ext2_alloc_blk` takes an unset bit of some group. -/
theorem allocBlk_eq (some_ : freeTotal vol ≠ 0) :
    ∃ group i j, vol.groups[i]? = some group ∧ group.freeBlocks ≠ 0 ∧ j < vol.blksPerGrp ∧
      bitSet (vol.disk group.blockBmp) j = false ∧ allocBlk vol = takeBlk vol group i j := by
  rw [← blkBitmap_alloc]
  rcases blkBitmap.alloc_cases vol with ⟨_, set⟩ | ⟨group, i, j, isGroup, noneHere, inBlk, unset, isTake⟩
  · apply absurd _ some_
    rw [freeTotal, List.sum_eq_zero_iff_forall_eq_nat, List.forall_mem_map]
    intro group isGroup
    by_contra noneHere
    obtain ⟨j, inside, unset⟩ := exists_unset (wf.freeBlocks group isGroup ▸ noneHere)
    cases unset.symm.trans (set group isGroup noneHere j inside)
  · refine ⟨group, i, j, isGroup, noneHere, Nat.lt_of_not_le fun past => ?_, unset, isTake⟩
    have set := wf.padding group (mem_of_getElem? isGroup) j past inBlk
    cases unset.symm.trans set

theorem allocBlk_spec (kib : vol.blksize = 1024) (few : vol.groups.length ≤ 32)
    (some_ : freeTotal vol ≠ 0) :
    ∃ after blk, allocBlk vol = some (after, blk) ∧ Took vol after blk := by
  obtain ⟨group, i, j, isGroup, noneHere, inside, unset, isTake⟩ := allocBlk_eq wf some_
  obtain ⟨after, taken, marked⟩ := @takeBlk_marked j i vol group wf kib few isGroup
  have small := wf.blk_lt isGroup inside
  rw [Nat.mod_eq_of_lt small, Nat.add_comm, ← Nat.add_assoc] at taken
  exact ⟨after, _, isTake.trans taken, marked.took isGroup wf kib inside unset noneHere⟩

theorem allocBlk_none (kib : vol.blksize = 1024) (many : 32 < vol.groups.length)
    (some_ : freeTotal vol ≠ 0) : allocBlk vol = none := by
  obtain ⟨group, i, j, isGroup, _, _, _, isTake⟩ := allocBlk_eq wf some_
  have res : ∀ other ∈ vol.groups.set i { group with freeBlocks := group.freeBlocks - 1 },
      other.res.length = 14 := res_set wf isGroup _
  have overflows : ¬ 0 + ((vol.groups.set i
      { group with freeBlocks := group.freeBlocks - 1 }).flatMap Bgd.bytes).length ≤ 1024 := by
    rw [length_bgds res, length_set]
    omega
  rw [isTake, takeBlk, rewriteBgds, store]
  rw [writeBlocks, kib, if_neg overflows]
  rfl

theorem Free.total (isFree : Free vol blk) : freeTotal vol ≠ 0 := by
  obtain ⟨i, j, group, _, inside, isGroup, unset⟩ := isFree
  have isMem := mem_of_getElem? isGroup
  intro none
  have count := wf.freeBlocks group isMem
  rw [List.sum_eq_zero_iff_forall_eq_nat.mp none _ (List.mem_map_of_mem isMem), eq_comm, unsetBits,
    countP_eq_zero] at count
  have set := count j (mem_range.mpr (Nat.lt_of_lt_of_le inside wf.blksPerGrp.2))
  simp [unset] at set

end Micro.Ext2
