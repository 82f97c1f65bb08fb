import Micro.Fs.Getdents
import Micro.Ext2.Directory

/-!
# Listing an ext2 directory

`ext2_getdents` advances to the next block only behind an entry it has handed out.  An entry
that is skipped, because it is not in use or because of the offset, leaves the loop in the old
block even when it is the last one there.
-/

namespace Micro.Ext2

open Lib List Option

variable (vol : Volume)

def todenttype : Nat → Nat
  | 1 => 8
  | 2 => 4
  | 3 => 2
  | 4 => 6
  | 5 => 1
  | 6 => 12
  | 7 => 10
  | _ => 0

/-- What `ext2_getdents` makes of an entry. -/
def Dirent.listed (entry : Dirent) : Fs.Dirent :=
  ⟨some entry.inode, todenttype entry.type.toNat, entry.name⟩

/-- The loop of `ext2_getdents`: the structures written, `i` of them before.  A name that ends
behind the buffer is read from outside of it. -/
def getdentsFrom (ino : Buf) (n : Nat) :
    (fuel offset blk : Nat) → Buf → (off : Int) → (i : Nat) → Option (List Fs.Dirent)
  | 0, _, _, _, _, _ => none
  | fuel + 1, offset, blk, buf, off, i =>
      if offset + blk * vol.blksize < sectors ino * 512 % 2 ^ 32 then
        if offset + direntBytes ≤ vol.blksize then
          let entry := direntAt buf offset
          if entry.inode = 0 then getdentsFrom ino n fuel (offset + entry.size) blk buf off i
          else if off ≠ 0 then getdentsFrom ino n fuel (offset + entry.size) blk buf (off - 1) i
          else if i * Fs.direntSize + Fs.direntSize ≥ n then some []
          else if offset + direntBytes + entry.name.length ≤ vol.blksize then
            (if offset + entry.size ≥ vol.blksize then
              getdentsFrom ino n fuel 0 (blk + 1) (readBlocks vol (inodeBlk vol ino (blk + 1)))
                (off - 1) (i + 1)
            else getdentsFrom ino n fuel (offset + entry.size) blk buf (off - 1) (i + 1)).map
              (entry.listed :: ·)
          else none
        else none
      else some []

def getdents (dir : Nat) : Fs.Driver := fun off n =>
  (readInode vol dir).bind fun ino =>
    (getdentsFrom vol ino n (sectors ino * 512 % 2 ^ 32 + 1) 0 0
      (readBlocks vol (inodeBlk vol ino 0)) off 0).map Fs.bytesReply

/-- A directory of any number of blocks, each tiled by entries.  `sectors` counts the blocks of
pointers too, which there are from the thirteenth block on. -/
structure Blocks (dir : Nat) (listing : Listing) : Prop where
  inode : ∃ ino pointers, readInode vol dir = some ino ∧
    sectors ino * 512 % 2 ^ 32 = (listing.length + pointers) * vol.blksize ∧
    (listing.length ≤ 12 → pointers = 0) ∧
    ∀ i < listing.length, some (inodeBlk vol ino i) = (listing.map Prod.fst)[i]?
  blksize : 0 < vol.blksize
  tiled : ∀ block ∈ listing, Tiles dirents (direntAt (vol.disk block.1)) 0 vol.blksize block.2

/-- The entries in use, as they ought to be listed. -/
def liveDirents (listing : Listing) : List Fs.Dirent :=
  ((records listing).filter fun entry => entry.inode ≠ 0).map Dirent.listed

section Loop

variable {vol} {ino buf : Buf} {n : Nat}

/-- The entries in use among some. -/
def inUse (entries : List Dirent) : List Dirent := entries.filter fun entry => entry.inode ≠ 0

/-- The loop skips the entries of the block up to its end, if the offset is past them or has
been counted below zero. -/
theorem getdentsFrom_skip {blk i fuel : Nat} {entries : List Dirent} {offset : Nat} {off : Int}
    (tiles : Tiles dirents (direntAt buf) offset vol.blksize entries)
    (more : vol.blksize ≤ sectors ino * 512 % 2 ^ 32 - blk * vol.blksize)
    (past : off < 0 ∨ (inUse entries).length ≤ off) :
    ∃ off' : Int, (off < 0 → off' < 0) ∧ getdentsFrom vol ino n (fuel + entries.length) offset blk buf off i =
      getdentsFrom vol ino n fuel vol.blksize blk buf off' i := by
  induction entries generalizing offset off more with
  | nil =>
    have ends : offset = vol.blksize := tiles
    exact ⟨off, id, by rw [ends]; rfl⟩
  | cons entry entries ih =>
    obtain ⟨isEntry, fits, rest⟩ := tiles
    have inside := rest.length_le
    have isFits : direntBytes + entry.name.length ≤ entry.size := fits
    have isSize : dirents.size entry = entry.size := rfl
    have header : direntBytes = 8 := rfl
    rw [length_cons, ← Nat.add_assoc, getdentsFrom, if_pos (by omega), if_pos (by omega)]
    simp only [isEntry]
    by_cases free : entry.inode = 0
    · rw [if_pos free]
      exact ih rest more (by simpa [inUse, free] using past)
    · rw [if_neg free]
      have counted : (inUse (entry :: entries)).length = (inUse entries).length + 1 := by
        simp [inUse, free]
      rw [if_pos (by omega)]
      obtain ⟨off', below, skipped⟩ := ih rest more (show off - 1 < 0 ∨ _ by omega)
      exact ⟨off', fun _ => below (by omega), skipped⟩

/-- At the end of what `sectors` counts the loop is left. -/
theorem getdentsFrom_end {fuel offset blk i : Nat} {off : Int}
    (ends : sectors ino * 512 % 2 ^ 32 ≤ offset + blk * vol.blksize) :
    getdentsFrom vol ino n (fuel + 1) offset blk buf off i = some [] := by
  rw [getdentsFrom, if_neg (by omega)]

/-- In a directory of one block the loop gives the entry at the offset. -/
theorem getdentsFrom_single {fuel : Nat} (single : sectors ino * 512 % 2 ^ 32 = vol.blksize)
    {entries : List Dirent} {offset k : Nat}
    (tiles : Tiles dirents (direntAt buf) offset vol.blksize entries) :
    getdentsFrom vol ino n (fuel + 1 + entries.length) offset 0 buf k 0 =
        some (if Fs.direntSize < n then ((inUse entries).map Dirent.listed)[k]?.toList else []) := by
  induction entries generalizing offset k with
  | nil =>
    have ends : offset = vol.blksize := tiles
    rw [length_nil, getdentsFrom_end (by omega)]
    simp [inUse]
  | cons entry entries ih =>
    obtain ⟨isEntry, fits, rest⟩ := tiles
    have inside := rest.length_le
    have isFits : direntBytes + entry.name.length ≤ entry.size := fits
    have isSize : dirents.size entry = entry.size := rfl
    rw [isSize] at rest inside
    have header : direntBytes = 8 := rfl
    rw [length_cons, ← Nat.add_assoc, getdentsFrom, if_pos (by omega), if_pos (by omega)]
    simp only [isEntry]
    by_cases free : entry.inode = 0
    · rw [ih rest]
      simp [inUse, free]
    · rw [if_neg free]
      cases k with
      | succ k =>
        have below : ((k + 1 : Nat) : Int) - 1 = k := by omega
        rw [if_pos (by omega), below, ih rest]
        simp [inUse, free]
      | zero =>
        rw [if_neg (by simp)]
        by_cases room : Fs.direntSize < n
        · have nothing : (if offset + entry.size ≥ vol.blksize then
              getdentsFrom vol ino n (fuel + 1 + entries.length) 0 (0 + 1)
                (readBlocks vol (inodeBlk vol ino (0 + 1))) (((0 : Nat) : Int) - 1) (0 + 1)
            else getdentsFrom vol ino n (fuel + 1 + entries.length) (offset + entry.size) 0 buf
              (((0 : Nat) : Int) - 1) (0 + 1)) = some [] := by
            split
            · rw [show fuel + 1 + entries.length = fuel + entries.length + 1 by omega]
              exact getdentsFrom_end (by omega)
            · obtain ⟨_, -, skipped⟩ := @getdentsFrom_skip vol ino buf n 0 (0 + 1) (fuel + 1) entries
                _ (((0 : Nat) : Int) - 1) rest (by omega) (.inl (by decide))
              rw [skipped]
              exact getdentsFrom_end (by omega)
          rw [if_neg (by omega), if_pos (by omega), nothing]
          simp [inUse, free, room]
        · simp [room]

end Loop

variable {vol : Volume} {dir : Nat} {listing : Listing} (blocks : Blocks vol dir listing)
include blocks

/-- A directory of at most one block is listed entry by entry. -/
theorem Blocks.oneByOne (few : listing.length ≤ 1) (n : Nat) :
    Fs.OneByOne (getdents vol dir) n (liveDirents listing) := by
  obtain ⟨ino, _, isInode, isSectors, direct, isBlk⟩ := blocks.inode
  obtain rfl := direct (by omega)
  apply Fs.oneByOne_of_bytes
  intro k
  simp only [getdents, isInode, bind_some]
  match listing, few with
  | [], _ =>
    have empty : sectors ino * 512 % 2 ^ 32 = 0 := by simpa using isSectors
    rw [getdentsFrom_end (by omega)]
    simp [liveDirents]
  | [block], _ =>
    have single : sectors ino * 512 % 2 ^ 32 = vol.blksize := by simpa using isSectors
    have isFirst : inodeBlk vol ino 0 = block.1 := by simpa using isBlk 0 (by simp)
    have tiled := blocks.tiled block (by simp)
    have few := tiled.length_le
    obtain ⟨fuel, isFuel⟩ : ∃ fuel, vol.blksize + 1 = fuel + 1 + block.2.length :=
      ⟨vol.blksize - block.2.length, by omega⟩
    rw [single, isFuel, isFirst, readBlocks, getdentsFrom_single single tiled]
    simp [liveDirents, inUse]

/-- Past the entries of the first block, the loop leaves the buffer if there is another block. -/
theorem Blocks.lost (many : 2 ≤ listing.length) (n : Nat) :
    ∃ k : Nat, getdents vol dir k n = none := by
  obtain ⟨ino, _, isInode, isSectors, -, isBlk⟩ := blocks.inode
  match listing, many with
  | block :: second :: rest, _ =>
    have isFirst : inodeBlk vol ino 0 = block.1 := by simpa using isBlk 0 (by simp)
    have tiled := blocks.tiled block (by simp)
    have few := tiled.length_le
    have positive := blocks.blksize
    have more : 2 * vol.blksize ≤ sectors ino * 512 % 2 ^ 32 := by
      rw [isSectors]
      exact Nat.mul_le_mul_right _ (by omega)
    obtain ⟨fuel, isFuel⟩ : ∃ fuel, sectors ino * 512 % 2 ^ 32 + 1 = fuel + 1 + block.2.length :=
      ⟨sectors ino * 512 % 2 ^ 32 - block.2.length, by omega⟩
    refine ⟨(inUse block.2).length, ?_⟩
    obtain ⟨_, -, skipped⟩ := @getdentsFrom_skip vol ino (vol.disk block.1) n 0 0 (fuel + 1)
      block.2 0 (inUse block.2).length tiled (by omega) (.inr (Int.le_refl _))
    simp only [getdents, isInode, bind_some]
    rw [isFuel, isFirst, readBlocks, skipped, getdentsFrom, if_pos (by omega),
      if_neg (by rw [direntBytes]; omega), map_none]

end Micro.Ext2
