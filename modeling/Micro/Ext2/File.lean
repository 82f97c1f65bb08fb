import Mathlib.Data.List.GetD
import Micro.Lib.Run
import Micro.Ext2.Contents

/-!
# File contents

A file that only grows at its end, and not beyond its twelve direct blocks, holds what
was written to it.  Past that `ext2_set_inode_blk` puts the number of the new block into
block 0 of the volume, since it never allocates an indirect block.
-/

namespace Micro.Ext2

open Lib List Option

variable {blks : List Nat} {blk off size : Nat} {vol : Volume} {data bytes : List UInt8}

/-! ## Growing -/

variable {ino : Buf}

/-- The direct blocks of an inode, and no others. -/
structure Lists (ino : Buf) (blks : List Nat) : Prop where
  count : sectors ino = 2 * blks.length
  direct : blks.length ≤ 12
  listed : ∀ i blk, blks[i]? = some blk → blocks ino i = blk

theorem Lists.of_fields {other : Buf} (lists : Lists ino blks) (count : sectors other = sectors ino)
    (listed : ∀ i < 12, blocks other i = blocks ino i) : Lists other blks where
  count := count.trans lists.count
  direct := lists.direct
  listed := by
    intro i blk isBlk
    have inList := (List.getElem?_eq_some_iff.mp isBlk).1
    rw [listed i (Nat.lt_of_lt_of_le inList lists.direct)]
    exact lists.listed i blk isBlk

theorem Lists.congr {other : Buf} (lists : Lists ino blks)
    (same : ∀ k < inodeBytes, other k = ino k) : Lists other blks := by
  apply lists.of_fields
  · exact le32_congr fun k _ below => same k (Nat.lt_trans below (by decide))
  · exact fun i small => le32_congr fun k _ _ => same k (by rw [inodeBytes]; omega)

theorem Lists.setSize (lists : Lists ino blks) (size : Nat) : Lists (setSize ino size) blks := by
  refine lists.of_fields rfl fun i small => ?_
  rw [blocks, Ext2.setSize, le32_put_outside (by omega),
    le32_put_outside (by rw [length_bytes32]; omega)]
  rfl

theorem Lists.append (kib : vol.blksize = 1024) (lists : Lists ino blks) (room : blks.length < 12)
    (small : blk < 2 ^ 32) :
    ∃ ino', setInodeBlk vol ino (sectors ino / (vol.blksize / 512)) blk = (vol, ino') ∧
      Lists ino' (blks ++ [blk]) := by
  have index : sectors ino / (vol.blksize / 512) = blks.length := by
    rw [lists.count, kib]
    omega
  have count : sectors ino + vol.blksize / 512 = 2 * (blks.length + 1) := by
    rw [lists.count]
    omega
  rw [setInodeBlk, index, if_pos room, count]
  refine ⟨_, rfl, ?_, ?_, ?_⟩
  · rw [sectors_setSectors (by omega), length_append, length_singleton]
  · rw [length_append]
    exact room
  · intro i _ isOther
    rw [blocks_setSectors]
    by_cases last : i = blks.length
    · subst last
      rw [getElem?_concat_length, some.injEq] at isOther
      rw [blocks_setBlocks_self small, isOther]
    · rw [blocks_setBlocks_ne blk last]
      apply lists.listed
      have inList := (List.getElem?_eq_some_iff.mp isOther).1
      rw [length_append, length_singleton] at inList
      rw [getElem?_append_left (by omega)] at isOther
      exact isOther

/-- Blocks were taken one after the other. -/
structure Grown (vol after : Volume) (new : List Nat) : Prop where
  same : Same vol after
  wf : WellFormed after
  wasFree : ∀ blk ∈ new, Free vol blk
  nodup : new.Nodup
  free : ∀ b, Free after b ↔ Free vol b ∧ b ∉ new
  disk : ∀ b, b ∉ bitmaps vol → b ≠ bgdsBlk → after.disk b = vol.disk b

theorem Free.lt (wf : WellFormed vol) (kib : vol.blksize = 1024) (isFree : Free vol blk) :
    blk < 2 ^ 32 := by
  obtain ⟨i, j, _, isBlk, inside, isGroup, _⟩ := isFree
  have small := wf.blk_lt isGroup inside
  rw [firstBlk, if_pos kib] at isBlk
  omega

theorem growBy_spec {cnt : Nat} (wf : WellFormed vol) (kib : vol.blksize = 1024)
    (few : vol.groups.length ≤ 32) (lists : Lists ino blks) (direct : blks.length + cnt ≤ 12)
    (enough : cnt ≤ freeTotal vol) :
    ∃ after ino' new, growBy cnt vol ino = some (after, ino') ∧ Lists ino' (blks ++ new) ∧
      new.length = cnt ∧ Grown vol after new := by
  induction cnt generalizing vol ino blks with
  | zero =>
    refine ⟨vol, ino, [], rfl, by simpa using lists, rfl, .refl vol, wf, by simp,
      nodup_nil, by simp, fun _ _ _ => rfl⟩
  | succ cnt ih =>
    obtain ⟨taken, blk, isTaken, took⟩ := allocBlk_spec wf kib few (by omega)
    have kibTaken : taken.blksize = 1024 := took.same.blksize.trans kib
    have small := took.wasFree.lt wf kib
    obtain ⟨ino', isSet, lists'⟩ := lists.append kibTaken (by omega) small
    have total := took.total
    obtain ⟨after, last, new, grown, listsAll, length, rest⟩ := ih took.wf kibTaken
      (took.same.length ▸ few) lists' (by rw [length_append, length_singleton]; omega)
      (by omega)
    refine ⟨after, last, blk :: new, ?_, by simpa using listsAll, by simp [length], ?_⟩
    · rw [kibTaken] at isSet
      simp only [growBy, isTaken, bind_some, kib, isSet]
      exact grown
    · constructor
      · exact took.same.trans rest.same
      · exact rest.wf
      · rw [forall_mem_cons]
        exact ⟨took.wasFree, fun other mem => ((took.free other).mp (rest.wasFree other mem)).1⟩
      · rw [nodup_cons]
        exact ⟨fun mem => ((took.free blk).mp (rest.wasFree blk mem)).2 rfl, rest.nodup⟩
      · intro b
        rw [rest.free, took.free, mem_cons, not_or, and_assoc]
      · intro b noBitmap notBgds
        rw [rest.disk b (took.same.bitmaps ▸ noBitmap) notBgds, took.disk b noBitmap notBgds]

/-! ## Contents -/

variable {i p : Nat}

/-- What blocks of 1 KiB hold, one after the other. -/
def content (vol : Volume) (blks : List Nat) : Buf := fun p =>
  vol.disk (blks.getD (p / 1024) 0) (p % 1024)

theorem content_at (isBlk : blks[i]? = some blk) (inBlk : p / 1024 = i) :
    content vol blks p = vol.disk blk (p % 1024) := by
  rw [content, inBlk, List.getD, isBlk, getD_some]

theorem content_congr {other : Volume} {blks' : List Nat} (inside : p < 1024 * blks.length)
    (same : ∀ i b : Nat, blks[i]? = some b → blks'[i]? = some b ∧ other.disk b = vol.disk b) :
    content other blks' p = content vol blks p := by
  have isBlk : blks[p / 1024]? = some blks[p / 1024] := getElem?_eq_getElem (by omega)
  obtain ⟨isBlk', sameDisk⟩ := same _ _ isBlk
  rw [content_at isBlk rfl, content_at isBlk' rfl, sameDisk]

theorem content_eq (kib : vol.blksize = 1024) :
    content vol blks = fileBytes vol fun i => blks.getD i 0 := by
  funext p
  rw [content, fileBytes, kib]

theorem inodeBlk_direct (lists : Lists ino blks) (isBlk : blks[i]? = some blk) :
    inodeBlk vol ino i = blk := by
  have inList := (List.getElem?_eq_some_iff.mp isBlk).1
  have direct := lists.direct
  rw [inodeBlk, if_pos (by omega)]
  exact lists.listed i blk isBlk

theorem Lists.mapped (lists : Lists ino blks) (nodup : blks.Nodup) :
    Mapped vol ino (fun i => blks.getD i 0) blks.length where
  injective := by
    intro i j inside inside' same
    rw [getD_eq_getElem _ _ inside, getD_eq_getElem _ _ inside'] at same
    exact (List.Nodup.getElem_inj_iff nodup).mp same
  blk := by
    intro _ _ i inside
    rw [getD_eq_getElem _ _ inside]
    exact inodeBlk_direct lists (getElem?_eq_getElem inside)

theorem Lists.staysInside (lists : Lists ino blks) (kib : vol.blksize = 1024)
    (room : off + size ≤ 1024 * blks.length) : StaysInside vol ino ((size + off) / vol.blksize) := by
  have direct := lists.direct
  have isEnd : mapEnd vol = 65804 := by
    rw [mapEnd, kib]
    rfl
  apply staysInside_of_lt (k := 0) kib (by decide)
  rw [isEnd, kib]
  omega

section Loops

variable (kib : vol.blksize = 1024) (lists : Lists ino blks) (nodup : blks.Nodup)
include kib lists nodup

theorem readLoop_content (room : off + size ≤ 1024 * blks.length) :
    readLoop vol ino off size = some (slice (content vol blks) off size) := by
  have direct := lists.direct
  rw [content_eq kib]
  apply readLoop_spec (by omega) (lists.mapped nodup)
  · rw [kib]
    exact room
  · exact lists.staysInside kib room
  · rw [kib]
    omega
  · omega

theorem writeLoop_content (room : off + data.length ≤ 1024 * blks.length) :
    ∃ done, writeLoop vol ino data off = some done ∧
      done.1 = { vol with disk := done.1.disk } ∧
      (∀ b, b ∉ blks → done.1.disk b = vol.disk b) ∧
      ∀ p < 1024 * blks.length, content done.1 blks p = put (content vol blks) off data p := by
  have direct := lists.direct
  obtain ⟨done, isDone, only, bytes⟩ := writeLoop_spec (by omega) (lists.mapped nodup)
    (kib ▸ room) (lists.staysInside kib room) (by rw [kib]; omega) (by omega)
  have kibDone : done.1.blksize = 1024 := by rw [only.disk, kib]
  refine ⟨done, isDone, only.disk, fun b notBlk => only.others b fun i inside same => ?_, ?_⟩
  · rw [getD_eq_getElem _ _ inside] at same
    exact notBlk (same ▸ getElem_mem inside)
  · rw [content_eq kib, content_eq kibDone]
    exact kib ▸ bytes

end Loops

/-! ## Sequences of writes -/

/-- A volume and the size of an open file, as `file->inode->size` has it. -/
structure FileState where
  vol : Volume
  size : Nat

/-- `ext2_write` of some bytes at an offset -/
def writeStep (num : Nat) (state : FileState) (call : Nat × List UInt8) : Option FileState :=
  (write state.vol num state.size call.1 call.2).map fun done => ⟨done.1, done.2⟩

/-- A write to an array of bytes, which is filled up with zeros if it ends before `off`. -/
def overwrite (bytes : List UInt8) (off : Nat) (data : List UInt8) : List UInt8 :=
  (bytes ++ List.replicate (off - bytes.length) 0).take off ++ data ++
    bytes.drop (off + data.length)

theorem length_overwrite (within : off ≤ bytes.length) :
    (overwrite bytes off data).length = max bytes.length (off + data.length) := by
  simp only [overwrite, length_append, length_take, length_drop]
  omega

theorem slice_put_overwrite {buf : Buf} (within : off ≤ bytes.length)
    (isBytes : slice buf 0 bytes.length = bytes) :
    slice (put buf off data) 0 (max bytes.length (off + data.length)) = overwrite bytes off data := by
  have total : max bytes.length (off + data.length) =
      off + (data.length + (bytes.length - (off + data.length))) := by omega
  have before : slice (put buf off data) 0 off = bytes.take off := by
    rw [slice_put_outside (.inl (by omega)), ← isBytes, take_slice within]
  have after : slice (put buf off data) (off + data.length) (bytes.length - (off + data.length)) =
      bytes.drop (off + data.length) := by
    conv_rhs => rw [← isBytes]
    rw [slice_put_outside (.inr le_rfl), drop_slice, Nat.zero_add]
  have filled : (bytes ++ replicate (off - bytes.length) 0).take off = bytes.take off := by
    rw [take_append_of_le_length within]
  rw [total, slice_add, slice_add, Nat.zero_add, before, slice_put, after, overwrite, filled,
    append_assoc]

/-- The direct blocks of a file. -/
def fileBlks (vol : Volume) (num : Nat) : List Nat :=
  (readInode vol num).elim [] fun ino =>
    (List.range (sectors ino / (vol.blksize / 512))).map (blocks ino)

/-- The write begins within the file, and the blocks it adds, one at least for every growth
of the file, are direct ones and not more than the volume has left. -/
def Careful (num : Nat) (state : FileState) (call : Nat × List UInt8) : Prop :=
  call.1 ≤ state.size ∧ call.1 + call.2.length < 2 ^ 64 ∧
    (state.size < call.1 + call.2.length →
      (fileBlks state.vol num).length + growth state.vol state.size (call.1 + call.2.length) ≤ 12 ∧
      growth state.vol state.size (call.1 + call.2.length) ≤ freeTotal state.vol)

/-- An inode without contents. -/
def EmptyFile (vol : Volume) (num : Nat) : Prop :=
  ∃ ino, readInode vol num = some ino ∧ sectors ino = 0 ∧ (∀ i < 15, blocks ino i = 0) ∧
    le32 ino 4 = 0 ∧ le32 ino 108 = 0

/-- The file has some contents; besides its blocks and inode only bitmaps and group
descriptors differ from the volume at the start. -/
structure Has (start : Volume) (num : Nat) (blks : List Nat) (state : FileState)
    (bytes : List UInt8) : Prop where
  same : Same start state.vol
  wf : WellFormed state.vol
  size : state.size = bytes.length
  inode : ∃ ino, readInode state.vol num = some ino ∧ Lists ino blks
  nodup : blks.Nodup
  wasFree : ∀ b ∈ blks, Free start b
  taken : ∀ b ∈ blks, ¬ Free state.vol b
  free : ∀ b, Free state.vol b → Free start b
  room : bytes.length ≤ 1024 * blks.length
  bytes : slice (content state.vol blks) 0 bytes.length = bytes
  disk : ∀ b, b ∉ blks → b ≠ inodeTblBlk start num → b ∉ bitmaps start → b ≠ bgdsBlk →
    state.vol.disk b = start.disk b

section Steps

variable {start : Volume} {num : Nat} (wf : WellFormed start) (kib : start.blksize = 1024)
  (valid : ValidIno start num) {state : FileState}

include kib

theorem Has.fileBlks_eq (has : Has start num blks state bytes) : fileBlks state.vol num = blks := by
  obtain ⟨ino, isIno, lists⟩ := has.inode
  have kibNow : state.vol.blksize = 1024 := has.same.blksize.trans kib
  have count : sectors ino / (state.vol.blksize / 512) = blks.length := by
    rw [lists.count, kibNow]
    omega
  rw [fileBlks, isIno, elim_some, count]
  apply ext_getElem?
  intro i
  by_cases inside : i < blks.length
  · have isBlk := getElem?_eq_getElem inside
    rw [isBlk, getElem?_map, getElem?_range inside, map_some, lists.listed i _ isBlk]
  · rw [getElem?_eq_none (by simpa using inside), getElem?_eq_none (by omega)]

theorem Has.read (has : Has start num blks state bytes) (small : off + size < 2 ^ 64) :
    read state.vol num state.size off size =
      some ((bytes.drop off).take size, ((bytes.drop off).take size).length) := by
  obtain ⟨_, isIno, lists⟩ := has.inode
  have kibNow : state.vol.blksize = 1024 := has.same.blksize.trans kib
  have isSize := has.size
  have old := has.room
  have part : (bytes.drop off).take size =
      slice (content state.vol blks) off (min size (state.size - off)) := by
    conv_lhs => rw [← has.bytes]
    rw [drop_slice, Nat.zero_add, isSize]
    rcases Nat.le_total size (bytes.length - off) with within | past
    · rw [take_slice within, Nat.min_eq_left within]
    · rw [Nat.min_eq_right past, take_of_length_le (by rwa [length_slice])]
  rw [part, length_slice]
  apply read_spec isIno small
  exact fun _ => readLoop_content kibNow lists has.nodup (by omega)

include wf

theorem Free.not_meta (valid : ValidIno start num) {b : Nat} (isFree : Free start b) :
    b ∉ bitmaps start ∧ b ≠ bgdsBlk ∧ b ≠ inodeTblBlk start num := by
  refine ⟨?_, ?_, ?_⟩
  · exact fun bitmap => wf.metaUsed b (mem_metaBlks.mpr (.inl bitmap)) isFree
  · rintro rfl
    obtain ⟨i, j, _, _, _, isGroup, _⟩ := id isFree
    exact wf.metaUsed _ (mem_metaBlks.mpr (.inr (bgdsBlk_mem kib (mem_of_getElem? isGroup)))) isFree
  · rintro rfl
    exact inodeTblBlk_not_free wf valid isFree

include valid

/-- `ext2_resize` adds blocks at the end, and keeps what the file holds. -/
theorem Has.resize (few : start.groups.length ≤ 32) (has : Has start num blks state bytes)
    (room : blks.length + growth state.vol state.size size ≤ 12)
    (enough : growth state.vol state.size size ≤ freeTotal state.vol) :
    ∃ after new, resize state.vol num state.size size = some after ∧
      new.length = growth state.vol state.size size ∧
      Has start num (blks ++ new) ⟨after, state.size⟩ bytes := by
  obtain ⟨_, isIno, lists⟩ := has.inode
  have kibNow : state.vol.blksize = 1024 := has.same.blksize.trans kib
  obtain ⟨grown, ino', new, isGrown, lists', length, grew⟩ :=
    growBy_spec has.wf kibNow (has.same.length ▸ few) lists room enough
  have sameGrown := has.same.trans grew.same
  have validNow := valid.same sameGrown
  obtain ⟨buf, isWritten, back, isBack, sameIno⟩ :=
    writeInode_spec grew.wf validNow (setSize ino' size)
  have noBitmap := inodeTblBlk_not_bitmap grew.wf validNow
  rw [sameGrown.inodeTblBlk] at isWritten isBack noBitmap
  have quiet := Quiet.write buf noBitmap
  have sameBitmaps := has.same.bitmaps
  have kept : ∀ b, b ≠ inodeTblBlk start num → b ∉ bitmaps start → b ≠ bgdsBlk →
      (writeBlocks grown buf (inodeTblBlk start num)).disk b = state.vol.disk b := by
    intro b notTable notBitmap notBgds
    rw [writeBlocks_disk_ne grown buf notTable, grew.disk b (sameBitmaps ▸ notBitmap) notBgds]
  refine ⟨writeBlocks grown buf (inodeTblBlk start num), new, ?_, length, ?_⟩
  · simp only [Ext2.resize, isIno, isGrown, bind_some]
    exact isWritten
  · constructor
    case same => exact sameGrown.trans (.write _ _ _)
    case wf => exact quiet.wellFormed grew.wf
    case size => exact has.size
    case inode => exact ⟨back, isBack, (lists'.setSize size).congr sameIno⟩
    case nodup =>
      refine nodup_append.mpr ⟨has.nodup, grew.nodup, ?_⟩
      rintro b old _ isNew rfl
      exact has.taken b old (grew.wasFree b isNew)
    case wasFree =>
      exact forall_mem_append.mpr
        ⟨has.wasFree, fun b isNew => has.free b (grew.wasFree b isNew)⟩
    case taken =>
      intro b mem isFree
      obtain ⟨isFree, notNew⟩ := (grew.free b).mp ((quiet.free b).mp isFree)
      rcases mem_append.mp mem with old | isNew
      · exact has.taken b old isFree
      · exact notNew isNew
    case free =>
      intro b isFree
      exact has.free b ((grew.free b).mp ((quiet.free b).mp isFree)).1
    case room =>
      rw [length_append]
      have old := has.room
      omega
    case bytes =>
      conv_rhs => rw [← has.bytes]
      apply slice_congr
      intro p _
      have old := has.room
      apply content_congr (by omega)
      intro i b isBlk
      obtain ⟨notBitmap, notBgds, notTable⟩ :=
        (has.wasFree b (mem_of_getElem? isBlk)).not_meta wf kib valid
      refine ⟨?_, kept b notTable notBitmap notBgds⟩
      rw [getElem?_append_left (List.getElem?_eq_some_iff.mp isBlk).1, isBlk]
    case disk =>
      intro b notBlk notTable notBitmap notBgds
      rw [kept b notTable notBitmap notBgds]
      exact has.disk b (fun old => notBlk (mem_append_left _ old)) notTable notBitmap notBgds

theorem Has.overwrite (has : Has start num blks ⟨vol, size⟩ bytes) (within : off ≤ bytes.length)
    (room : off + data.length ≤ 1024 * blks.length) :
    ∃ ino done, readInode vol num = some ino ∧ writeLoop vol ino data off = some done ∧
      Has start num blks ⟨done.1, max bytes.length (off + data.length)⟩
        (overwrite bytes off data) := by
  obtain ⟨ino, isIno, lists⟩ := has.inode
  have kibNow : vol.blksize = 1024 := has.same.blksize.trans kib
  obtain ⟨done, isDone, isDisk, others, isContent⟩ := writeLoop_content kibNow lists has.nodup room
  have notMeta : ∀ b ∈ blks, b ∉ bitmaps start ∧ b ≠ bgdsBlk ∧ b ≠ inodeTblBlk start num :=
    fun b mem => (has.wasFree b mem).not_meta wf kib valid
  have quiet : Quiet vol done.1 := by
    refine ⟨isDisk, fun b bitmap => others b fun mem => (notMeta b mem).1 ?_⟩
    exact has.same.bitmaps ▸ bitmap
  have lengthAfter := @length_overwrite off data bytes within
  refine ⟨ino, done, isIno, isDone, ?_⟩
  constructor
  case same => exact has.same.trans quiet.same
  case wf => exact quiet.wellFormed has.wf
  case size => exact lengthAfter.symm
  case inode =>
    refine ⟨ino, ?_, lists⟩
    rw [quiet.same.readInode]
    · exact isIno
    · apply others
      intro mem
      exact (notMeta _ mem).2.2 (has.same.inodeTblBlk num)
  case nodup => exact has.nodup
  case wasFree => exact has.wasFree
  case taken =>
    intro b mem isFree
    exact has.taken b mem ((quiet.free b).mp isFree)
  case free =>
    intro b isFree
    exact has.free b ((quiet.free b).mp isFree)
  case room =>
    rw [lengthAfter]
    exact Nat.max_le.mpr ⟨has.room, room⟩
  case bytes =>
    rw [lengthAfter]
    have old := has.room
    have put : slice (content done.1 blks) 0 (max bytes.length (off + data.length)) =
        slice (put (content vol blks) off data) 0 (max bytes.length (off + data.length)) := by
      apply slice_congr
      intro p _
      rw [Nat.zero_add]
      exact isContent p (by omega)
    rw [put]
    exact slice_put_overwrite within has.bytes
  case disk =>
    intro b notBlk notTable notBitmap notBgds
    rw [others b notBlk]
    exact has.disk b notBlk notTable notBitmap notBgds

theorem writeStep_has (few : start.groups.length ≤ 32) {call : Nat × List UInt8}
    (has : ∃ blks, Has start num blks state bytes) (careful : Careful num state call) :
    ∃ next, writeStep num state call = some next ∧
      ∃ blks, Has start num blks next (overwrite bytes call.1 call.2) := by
  obtain ⟨blks, has⟩ := has
  obtain ⟨off, data⟩ := call
  obtain ⟨within, small, growing⟩ := careful
  have kibNow : state.vol.blksize = 1024 := has.same.blksize.trans kib
  have sum := addWord_of_lt small
  have isSize := has.size
  rw [has.fileBlks_eq kib] at growing
  by_cases grows : state.size < off + data.length
  · obtain ⟨direct, enough⟩ := growing grows
    obtain ⟨_, new, isResized, length, hasAfter⟩ := has.resize wf kib valid few direct enough
    have capacity : off + data.length ≤ 1024 * (blks ++ new).length := by
      have diff : subWord (off + data.length) state.size = off + data.length - state.size :=
        subWord_of_le (by omega) small
      have old := has.room
      rw [length_append, length, growth, diff, kibNow]
      split <;> omega
    obtain ⟨ino, done, isIno, isDone, hasDone⟩ :=
      hasAfter.overwrite wf kib valid (isSize ▸ within) capacity
    have isMax : max bytes.length (off + data.length) = off + data.length := by omega
    rw [isMax] at hasDone
    refine ⟨⟨done.1, off + data.length⟩, ?_, _, hasDone⟩
    simp only [writeStep, write, sum, if_pos grows, isResized, bind_some, isIno, isDone, map_some]
  · have capacity : off + data.length ≤ 1024 * blks.length := by
      have old := has.room
      omega
    obtain ⟨ino, done, isIno, isDone, hasDone⟩ :=
      has.overwrite wf kib valid (isSize ▸ within) capacity
    have isMax : max bytes.length (off + data.length) = state.size := by omega
    rw [isMax] at hasDone
    refine ⟨⟨done.1, state.size⟩, ?_, _, hasDone⟩
    simp only [writeStep, write, sum, if_neg grows, bind_some, isIno, isDone, map_some]

end Steps

/-- Careful writes to an empty file all succeed.  Afterwards `ext2_read` gives what the
same writes to an array of bytes leave there, and besides blocks that were free and are
now the file's, only its inode's block, bitmaps and the group descriptors have changed. -/
theorem write_read_back {vol : Volume} {num : Nat} (wf : WellFormed vol) (kib : vol.blksize = 1024)
    (few : vol.groups.length ≤ 32) (valid : ValidIno vol num) (empty : EmptyFile vol num)
    {calls : List (Nat × List UInt8)}
    (careful : Permitted (writeStep num) (Careful num) ⟨vol, 0⟩ calls) :
    ∃ final, drive (writeStep num) ⟨vol, 0⟩ calls = some final ∧
      (∀ off size, off + size < 2 ^ 64 →
        let bytes := calls.foldl (fun bytes call => overwrite bytes call.1 call.2) []
        read final.vol num final.size off size =
          some ((bytes.drop off).take size, ((bytes.drop off).take size).length)) ∧
      (∀ b ∈ fileBlks final.vol num, Free vol b) ∧
      ∀ b, b ∉ fileBlks final.vol num → b ≠ inodeTblBlk vol num → b ∉ bitmaps vol →
        b ≠ bgdsBlk → final.vol.disk b = vol.disk b := by
  obtain ⟨ino, isIno, noSectors, _⟩ := empty
  have first : ∃ blks, Has vol num blks ⟨vol, 0⟩ [] := by
    refine ⟨[], ⟨.refl vol, wf, rfl, ⟨ino, isIno, ?_⟩, nodup_nil, by simp, by simp,
      fun _ isFree => isFree, Nat.zero_le _, rfl, fun _ _ _ _ _ => rfl⟩⟩
    exact ⟨noSectors, by decide, by simp⟩
  have simulated : ∀ state bytes call, (∃ blks, Has vol num blks state bytes) →
      Careful num state call → ∃ next bytes', writeStep num state call = some next ∧
        some (overwrite bytes call.1 call.2) = some bytes' ∧ ∃ blks, Has vol num blks next bytes' := by
    intro state bytes call has careful
    obtain ⟨next, stepped, hasNext⟩ := writeStep_has wf kib valid few has careful
    exact ⟨next, _, stepped, rfl, hasNext⟩
  obtain ⟨final, bytes, driven, isBytes, blks, has⟩ :=
    drive_simulates simulated calls _ _ first careful
  rw [drive_some, some.injEq] at isBytes
  rw [isBytes]
  refine ⟨final, driven, fun off size small => has.read kib small, ?_, ?_⟩
  · rw [has.fileBlks_eq kib]
    exact has.wasFree
  · rw [has.fileBlks_eq kib]
    exact has.disk

/-- A volume of 64 blocks with one group: its bitmaps in blocks 3 and 4 and two blocks of
inodes.  Of the first eight blocks those in `used` are not free. -/
def smallVolume (used : UInt8) (free : Nat) (rest : Nat → Buf) : Volume where
  blksize := 1024
  blksPerGrp := 64
  inodesPerGrp := 16
  inodeSz := 128
  groups := [⟨3, 4, 5, free, 4, 1, List.replicate 14 0⟩]
  disk := fun blk =>
    if blk = 3 then fun k => if k = 0 then used else if k < 8 then 0 else 0xff else rest blk

section SmallVolume

variable {used : UInt8} {free : Nat} {rest : Nat → Buf}

theorem smallVolume_blksize : (smallVolume used free rest).blksize = 1024 := rfl

theorem smallVolume_bit {j : Nat} : bitSet ((smallVolume used free rest).disk 3) j =
    if j < 8 then used.toNat.testBit j else decide (64 ≤ j) := by
  have full : ∀ bit < 8, Nat.testBit 255 bit = true := by decide
  by_cases first : j < 8
  · have byte : j / 8 = 0 ∧ j % 8 = j := by omega
    simp only [bitSet, smallVolume, if_true, byte, if_pos first]
  · by_cases inside : j < 64
    · have byte : ¬ j / 8 = 0 ∧ j / 8 < 8 ∧ ¬ 64 ≤ j := by omega
      simp [bitSet, smallVolume, first, byte]
    · have byte : ¬ j / 8 = 0 ∧ ¬ j / 8 < 8 ∧ 64 ≤ j := by omega
      simp only [bitSet, smallVolume, if_true, byte, if_neg first]
      exact full (j % 8) (Nat.mod_lt _ (by decide))

theorem smallVolume_unsetBits : unsetBits ((smallVolume used free rest).disk 3) (8 + (56 + 8128)) =
    (range 8).countP (fun j => !used.toNat.testBit j) + 56 := by
  have split : ∀ count more, range' count (56 + more) =
      range' count 56 ++ range' (count + 56) more := by
    intro count more
    rw [range'_append_1]
  have start : ∀ more, range (8 + more) = range 8 ++ range' 8 more := by
    intro more
    rw [range_eq_range', range_eq_range', ← range'_append_1]
  have first : (range 8).countP (fun j => !bitSet ((smallVolume used free rest).disk 3) j) =
      (range 8).countP fun j => !used.toNat.testBit j := by
    apply countP_congr
    intro j mem
    rw [smallVolume_bit, if_pos (mem_range.mp mem)]
  have middle : (range' 8 56).countP
      (fun j => !bitSet ((smallVolume used free rest).disk 3) j) = (range' 8 56).length := by
    rw [countP_eq_length]
    intro j mem
    have range := mem_range'_1.mp mem
    rw [smallVolume_bit, if_neg (by omega), decide_eq_false (by omega)]
    rfl
  have last : ∀ more, (range' (8 + 56) more).countP
      (fun j => !bitSet ((smallVolume used free rest).disk 3) j) = 0 := by
    intro more
    rw [countP_eq_zero]
    intro j mem
    have range := mem_range'_1.mp mem
    rw [smallVolume_bit, if_neg (by omega), decide_eq_true (by omega)]
    decide
  rw [unsetBits, start, split, countP_append, countP_append, first, middle, last, length_range']

theorem smallVolume_metaBlks : metaBlks (smallVolume used free rest) = [1, 2, 3, 4, 5, 6] := by
  simp [metaBlks, firstBlk, blksFor, groupMeta, smallVolume, range'_succ]

theorem smallVolume_free (isFree : Free (smallVolume used free rest) blk) :
    ∃ j < 64, blk = 1 + j ∧ (if j < 8 then used.toNat.testBit j else decide (64 ≤ j)) = false := by
  obtain ⟨i, j, _, isBlk, inside, isGroup, unset⟩ := isFree
  have isFirst : i = 0 := by
    have inList := (List.getElem?_eq_some_iff.mp isGroup).1
    simp only [smallVolume, length_singleton] at inList
    omega
  subst isFirst
  simp only [smallVolume, getElem?_cons_zero, some.injEq] at isGroup
  rw [← isGroup, smallVolume_bit] at unset
  exact ⟨j, inside, isBlk, unset⟩

theorem smallVolume_wellFormed (inUse : ∀ j < 6, used.toNat.testBit j = true)
    (count : free = (range 8).countP (fun j => !used.toNat.testBit j) + 56) :
    WellFormed (smallVolume used free rest) where
  blksize := ⟨0, rfl⟩
  blksPerGrp := by
    have perGrp : (smallVolume used free rest).blksPerGrp = 64 := rfl
    rw [smallVolume_blksize, perGrp]
    decide
  inodesPerGrp := by simp [smallVolume]
  inodeSz := by simp [smallVolume]
  blkCnt := by simp [smallVolume]
  inodeCnt := by simp [smallVolume]
  res := by
    intro group isGroup
    simp only [smallVolume, mem_singleton] at isGroup
    rw [isGroup]
    rfl
  freeBlocks := by
    intro group isGroup
    simp only [smallVolume, mem_singleton] at isGroup
    rw [isGroup, smallVolume_blksize]
    exact count.trans smallVolume_unsetBits.symm
  padding := by
    intro group isGroup j past _
    have past : 64 ≤ j := past
    simp only [smallVolume, mem_singleton] at isGroup
    rw [isGroup, smallVolume_bit, if_neg (by omega), decide_eq_true past]
  metaUsed := by
    intro _ isMeta isFree
    obtain ⟨j, _, _, unset⟩ := smallVolume_free isFree
    simp only [smallVolume_metaBlks, mem_cons, not_mem_nil, or_false] at isMeta
    rw [if_pos (by omega), inUse j (by omega)] at unset
    cases unset
  metaNodup := by simp [smallVolume_metaBlks]

end SmallVolume

/-- The blocks that do not hold its structures are free. -/
def emptyVolume : Volume := smallVolume 0x3f 58 fun _ _ => 0

theorem emptyVolume_wellFormed : WellFormed emptyVolume :=
  smallVolume_wellFormed (by decide) (by decide)

theorem emptyVolume_file : ValidIno emptyVolume 12 ∧ EmptyFile emptyVolume 12 := by
  refine ⟨⟨by decide, by decide⟩, _, rfl, ?_⟩
  decide +kernel

/-- Two bytes are written to an empty file. -/
theorem write_read_back_two : ∃ final,
    drive (writeStep 12) ⟨emptyVolume, 0⟩ [(0, [0x68, 0x69])] = some final ∧
      read final.vol 12 final.size 0 10 = some ([0x68, 0x69], 2) := by
  have careful : Careful 12 ⟨emptyVolume, 0⟩ (0, [0x68, 0x69]) := by
    refine ⟨by decide, by decide, fun _ => ?_⟩
    decide +kernel
  have permitted : Permitted (writeStep 12) (Careful 12) ⟨emptyVolume, 0⟩ [(0, [0x68, 0x69])] :=
    ⟨careful, fun _ _ => trivial⟩
  obtain ⟨final, driven, reads, _⟩ := write_read_back emptyVolume_wellFormed rfl (by decide)
    emptyVolume_file.1 emptyVolume_file.2 permitted
  exact ⟨final, driven, reads 0 10 (by decide)⟩

/-- A file is made by appending one byte after the other; the thirteenth changes block 0, which
is not one of the blocks of the file. -/
theorem appends_change_block_0 : WellFormed emptyVolume ∧ ValidIno emptyVolume 12 ∧
    EmptyFile emptyVolume 12 ∧ freeTotal emptyVolume = 58 ∧
    ∃ final, drive (writeStep 12) ⟨emptyVolume, 0⟩
      ((List.range 13).map fun i => (i, [0x61])) = some final ∧
      0 ∉ fileBlks final.vol 12 ∧ 0 ≠ inodeTblBlk emptyVolume 12 ∧ 0 ∉ bitmaps emptyVolume ∧
      0 ≠ bgdsBlk ∧ final.vol.disk 0 ≠ emptyVolume.disk 0 := by
  refine ⟨emptyVolume_wellFormed, emptyVolume_file.1, emptyVolume_file.2, by decide, ?_⟩
  have ran : ((drive (writeStep 12) ⟨emptyVolume, 0⟩
      ((range 13).map fun i => (i, [0x61]))).map fun final =>
        (final.vol.disk 0 0, fileBlks final.vol 12)) = some (19, range' 7 12) := by
    decide +kernel
  obtain ⟨final, driven, isFinal⟩ := map_eq_some_iff.mp ran
  obtain ⟨changed, blks⟩ := Prod.mk.inj isFinal
  refine ⟨final, driven, by rw [blks]; decide, by decide +kernel, by decide, by decide, ?_⟩
  intro same
  rw [same] at changed
  exact absurd changed (by decide)

end Micro.Ext2
