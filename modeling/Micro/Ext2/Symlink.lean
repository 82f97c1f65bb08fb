import Micro.Ext2.Directory

/-!
# Targets of symbolic links

`vfs_symlink` makes an inode with the name of the link, and sets the target of the inode that it
finds by the name.  `ext2_symlink` copies a target of any length to the block numbers of the inode;
there are 60 bytes of them, and other fields behind.
-/

namespace Micro.Ext2

open Kern Lib List Option

def inosize (ino : Buf) : Nat := le32 ino 108 * 2 ^ 32 + le32 ino 4

section

variable (vol : Volume) (num : Nat)

/-- `ext2_symlink`; `none` when the target is copied over the end of the inode -/
def symlink (target : CStr) : Option Volume :=
  (readInode vol num).bind fun ino =>
    (store inodeBytes ino 40 target).bind fun ino =>
      writeInode vol num (put ino 4 (bytes32 target.length))

/-- `vfs_symlink` of a name in a directory, behind `vfs_mknod` -/
def vfsSymlink (dir : Nat) (name : List UInt8) (target : CStr) : Option Volume :=
  (lookup vol dir name).bind fun found => found.toOption.bind fun file => symlink vol file.1 target

/-- `ext2_readlink` of an inode with a mode; `none` when it copies from behind the inode -/
def readlink (mode n : Nat) : Option (Except Int (List UInt8)) :=
  if ¬ Fs.sIslnk mode then some (.error (-Fs.einval))
  else
    (readInode vol num).bind fun ino =>
      let n := min (inosize ino) n
      if 40 + n ≤ inodeBytes then some (.ok (slice ino 40 n)) else none

/-- The disk is the same but for the slot of an inode. -/
def SameElsewhere (after : Volume) : Prop :=
  ∀ blk off, inodePlace vol num = some (blk, off) → ∀ other k,
    other ≠ blk ∨ k < off ∨ off + inodeBytes ≤ k → after.disk other k = vol.disk other k

/-- A link of this target is made and read back, and no more than the size and the block numbers
of its inode have changed. -/
def KeepsTarget (dir : Nat) (name : List UInt8) (ino : Buf) (target : CStr) : Prop :=
  ∃ after back, vfsSymlink vol dir name target = some after ∧ readInode after num = some back ∧
    (∀ n ≥ target.length, readlink after num 0xa1ff n = some (.ok target)) ∧
    SameElsewhere vol num after ∧ ∀ k < inodeBytes, k < 4 ∨ 8 ≤ k ∧ k < 40 ∨ 100 ≤ k → back k = ino k

end

section Links

variable {vol : Volume} {num dir : Nat} {name : List UInt8} {ino : Buf} {target : CStr}
  {listing : Listing}

theorem symlink_spec (isInode : readInode vol num = some ino) (fits : 40 + target.length ≤ inodeBytes) :
    ∃ after back, symlink vol num target = some after ∧ readInode after num = some back ∧
      SameElsewhere vol num after ∧
      ∀ k < inodeBytes, back k = put (put ino 40 target) 4 (bytes32 target.length) k := by
  obtain ⟨⟨blk, off⟩, isPlace, isRead⟩ := bind_eq_some_iff.mp isInode
  obtain ⟨inside, -⟩ := ite_none_right_eq_some.mp isRead
  have isWritten := writeInode_at isPlace inside (put (put ino 40 target) 4 (bytes32 target.length))
  refine ⟨_, _, by rw [symlink, isInode, bind_some, store, if_pos fits, bind_some, isWritten],
    @readInode_at blk off (writeBlocks vol _ blk) num isPlace inside, ?_, fun k below => ?_⟩
  · intro _ _ isPlace' other k _
    rw [isPlace, some.injEq, Prod.mk.injEq] at isPlace'
    by_cases same : other = blk
    · rw [same, writeBlocks_disk_self, put_outside (by rw [length_slice]; omega)]
    · rw [writeBlocks_disk_ne vol _ same]
  · rw [writeBlocks_disk_self, put_inside (getElem?_slice below), Nat.zero_add]

section

variable (directory : Directory vol dir listing) (entered : (name, num) ∈ entries listing)
  (only : ∀ entry ∈ entries listing, entry.1 = name → entry.2 = num)
  (isInode : readInode vol num = some ino)
include directory entered only isInode

theorem vfsSymlink_eq : vfsSymlink vol dir name target = symlink vol num target := by
  have isFirst : ∃ entry, firstNamed listing name = some entry ∧ entry.2 = num := by
    cases found : firstNamed listing name with
    | none => exact absurd (find?_eq_none.mp found _ entered) (by simp)
    | some entry =>
      refine ⟨entry, rfl, only entry (mem_of_find?_eq_some found) ?_⟩
      simpa using find?_some found
  obtain ⟨entry, isFirst, rfl⟩ := isFirst
  rw [vfsSymlink, lookup_spec directory, isFirst]
  simp only [isInode, map_some, bind_some]
  rfl

variable (zeros : ∀ k < inodeBytes, 28 ≤ k → ino k = 0)
include zeros

theorem keepsTarget_short (short : target.length ≤ 60) : KeepsTarget vol num dir name ino target := by
  obtain ⟨after, back, linked, isBack, elsewhere, isSame⟩ := symlink_spec isInode
    (show 40 + target.length ≤ 128 by omega)
  have upper : le32 back 108 = 0 := by
    rw [@le32_congr 108 back (fun _ => 0) fun k above below => ?_]
    · rfl
    · rw [isSame k (by simp only [inodeBytes]; omega), put_after (by simp; omega), put_after (by omega),
        zeros k (by simp only [inodeBytes]; omega) (by omega)]
  have lower : le32 back 4 = target.length := by
    rw [le32_congr fun k above below => isSame k (by simp only [inodeBytes]; omega), le32_put_self]
    omega
  have isTarget : slice back 40 target.length = target := by
    rw [slice_congr fun i below => isSame _ (by simp only [inodeBytes]; omega),
      slice_put_outside (by simp), slice_put]
  refine ⟨after, back, (vfsSymlink_eq directory entered only isInode).trans linked, isBack,
    fun n _ => ?_, elsewhere, fun k below _ => ?_⟩
  · have isSize : min (inosize back) n = target.length := by
      rw [inosize]
      omega
    rw [readlink, if_neg (by decide), isBack, bind_some]
    simp only [isSize, isTarget, inodeBytes]
    rw [if_pos (by omega)]
  · rw [isSame k below, put_outside (by simp; omega), put_outside (by omega)]

theorem not_keepsTarget (string : ∀ c ∈ target, c ≠ 0) (long : 60 < target.length) :
    ¬ KeepsTarget vol num dir name ino target := by
  rintro ⟨_, _, linked, isBack, -, -, same⟩
  rw [vfsSymlink_eq directory entered only isInode] at linked
  by_cases fits : 40 + target.length ≤ inodeBytes
  · obtain ⟨_, _, linked', isBack', -, isSame⟩ := symlink_spec isInode fits
    rw [linked, some.injEq] at linked'
    rw [← linked', isBack, some.injEq] at isBack'
    have isChar : put (put ino 40 target) 4 (bytes32 target.length) (40 + 60) = target[60] := by
      rw [put_after (by simp), put_inside (getElem?_eq_getElem long)]
    have isKept := same 100 (by decide) (by omega)
    rw [isBack', isSame 100 (by decide), zeros 100 (by decide) (by decide)] at isKept
    exact string _ (getElem_mem long) (isChar.symm.trans isKept)
  · rw [symlink, isInode, bind_some, store, if_neg fits] at linked
    cases linked

end

/-- For an inode that has just been made and whose name is that of no other entry, a target is kept
exactly when it fits into the block numbers. -/
theorem keeps_target_iff (directory : Directory vol dir listing)
    (entered : (name, num) ∈ entries listing)
    (only : ∀ entry ∈ entries listing, entry.1 = name → entry.2 = num)
    (isInode : readInode vol num = some ino) (zeros : ∀ k < inodeBytes, 28 ≤ k → ino k = 0)
    (string : ∀ c ∈ target, c ≠ 0) :
    KeepsTarget vol num dir name ino target ↔ target.length ≤ 60 :=
  ⟨fun keeps => Nat.not_lt.mp fun long =>
      not_keepsTarget directory entered only isInode zeros string long keeps,
    keepsTarget_short directory entered only isInode zeros⟩

end Links

/-- The directory of a small volume has the entry `a` for an inode of zeros. -/
theorem linkVolume_link : Directory (linkVolume 13) 12 [(7, [fullEntry 13])] ∧
    ∃ ino, readInode (linkVolume 13) 13 = some ino ∧ ∀ k < inodeBytes, 28 ≤ k → ino k = 0 := by
  refine ⟨linkVolume_directory (by decide) rfl (by decide +kernel) (by decide +kernel), _, rfl, ?_⟩
  decide +kernel

theorem keeps_target_iff_short : ∃ ino, readInode (linkVolume 13) 13 = some ino ∧
    KeepsTarget (linkVolume 13) 13 12 [0x61] ino [0x62] := by
  obtain ⟨directory, ino, isInode, zeros⟩ := linkVolume_link
  exact ⟨ino, isInode, (keeps_target_iff directory (by decide) (by decide) isInode zeros
    (by simp)).mpr (by decide)⟩

/-- A target of 61 characters -/
theorem long_target_overwrites : ∃ ino, readInode (linkVolume 13) 13 = some ino ∧
    ¬ KeepsTarget (linkVolume 13) 13 12 [0x61] ino (List.replicate 61 0x61) := by
  obtain ⟨directory, ino, isInode, zeros⟩ := linkVolume_link
  exact ⟨ino, isInode, not_keepsTarget directory (by decide) (by decide) isInode zeros (by simp)
    (by simp)⟩

end Micro.Ext2
