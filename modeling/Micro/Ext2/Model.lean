import Micro.Fs.Path
import Micro.Lib.Bytes
import Micro.Lib.Word

/-!
# The ext2 driver

A mounted volume: its superblock values, the group descriptors the driver keeps in
memory, and the contents of the device by block.  All transfers are of one block.

The structures on disk are kept as the bytes they are: an inode is a buffer of 128 bytes
with its fields at the offsets of `struct ext2_inode`, and likewise a directory entry.  A
step is `none` where the source reads or writes outside of the array it has.
-/

namespace Micro.Ext2

open Lib

/-- `struct ext2_bgd`; `res` is the padding and the reserved bytes at its end. -/
structure Bgd where
  blockBmp : Nat
  inodeBmp : Nat
  inodeTbl : Nat
  freeBlocks : Nat
  freeInodes : Nat
  dirCnt : Nat
  res : List UInt8
  deriving DecidableEq

/-- The bytes of a group descriptor. -/
def Bgd.bytes (group : Bgd) : List UInt8 :=
  bytes32 group.blockBmp ++ bytes32 group.inodeBmp ++ bytes32 group.inodeTbl ++
    bytes16 group.freeBlocks ++ bytes16 group.freeInodes ++ bytes16 group.dirCnt ++ group.res

/-- `struct ext2_volume` and the device it is on. -/
structure Volume where
  blksize : Nat
  blksPerGrp : Nat
  inodesPerGrp : Nat
  inodeSz : Nat
  groups : List Bgd
  disk : Nat → Buf

def bgdsBlk : Nat := 2

/-- `sizeof(struct ext2_inode)` -/
def inodeBytes : Nat := 128

variable (vol : Volume)

/-- `read_blocks` of one block -/
def readBlocks (blk : Nat) : Buf := vol.disk blk

/-- `write_blocks` of one block -/
def writeBlocks (buf : Buf) (blk : Nat) : Volume :=
  { vol with disk := Function.update vol.disk blk buf }

@[simp] theorem writeBlocks_disk_self (buf : Buf) (blk : Nat) :
    (writeBlocks vol buf blk).disk blk = buf := Function.update_self _ _ _

theorem writeBlocks_disk_ne (buf : Buf) {blk other : Nat} (ne : other ≠ blk) :
    (writeBlocks vol buf blk).disk other = vol.disk other := Function.update_of_ne ne _ _

@[simp] theorem writeBlocks_readBlocks (blk : Nat) :
    writeBlocks vol (readBlocks vol blk) blk = vol := by
  simp [writeBlocks, readBlocks]

def rewriteBgds : Option Volume :=
  (store vol.blksize (readBlocks vol bgdsBlk) 0 (vol.groups.flatMap Bgd.bytes)).map fun buf =>
    writeBlocks vol buf bgdsBlk

/-! ## Inodes -/

/-- The block of the inode table an inode is in, and its offset in the block. -/
def inodePlace (num : Nat) : Option (Nat × Nat) :=
  let index := (num + (2 ^ 32 - 1)) % 2 ^ 32
  let grpoff := index % vol.inodesPerGrp
  let grp := index / vol.inodesPerGrp
  vol.groups[grp]?.map fun group =>
    ((group.inodeTbl * vol.blksize + grpoff * vol.inodeSz) / vol.blksize,
      grpoff * vol.inodeSz % vol.blksize)

def readInode (num : Nat) : Option Buf :=
  (inodePlace vol num).bind fun place =>
    if place.2 + inodeBytes ≤ vol.blksize then
      some fun k => readBlocks vol place.1 (place.2 + k)
    else none

def writeInode (num : Nat) (ino : Buf) : Option Volume :=
  (inodePlace vol num).bind fun place =>
    (store vol.blksize (readBlocks vol place.1) place.2 (slice ino 0 inodeBytes)).map fun buf =>
      writeBlocks vol buf place.1

def sectors (ino : Buf) : Nat := le32 ino 28

def blocks (ino : Buf) (i : Nat) : Nat := le32 ino (40 + 4 * i)

/-- Assign `ino->blocks[i]`. -/
def setBlocks (ino : Buf) (i blk : Nat) : Buf := put ino (40 + 4 * i) (bytes32 blk)

/-- Assign `ino->sectors`. -/
def setSectors (ino : Buf) (count : Nat) : Buf := put ino 28 (bytes32 count)

/-- Assign `ino->size` and `ino->size_u`. -/
def setSize (ino : Buf) (size : Nat) : Buf :=
  put (put ino 4 (bytes32 (size % 2 ^ 32))) 108 (bytes32 (size / 2 ^ 32))

/-- Where the doubly indirect blocks begin, `dind` of `ext2_inode_blk`. -/
def dindStart : Nat := (12 + vol.blksize / 4) % 2 ^ 32

/-- Where the triply indirect blocks begin, `tind` of `ext2_inode_blk`. -/
def tindStart : Nat := (dindStart vol + vol.blksize / 4 * (vol.blksize / 4)) % 2 ^ 32

/-- `ext2_inode_blk` where the entries it looks at are in their blocks of pointers -/
def inodeBlk (ino : Buf) (i : Nat) : Nat :=
  let bpp := vol.blksize / 4
  let sind := 12
  let dind := dindStart vol
  let tind := tindStart vol
  let pointer blk index := le32 (readBlocks vol blk) (4 * index)
  if i < sind then blocks ino i
  else if i < dind then pointer (blocks ino 12) (i - sind)
  else if i < tind then
    pointer (pointer (blocks ino 13) ((i - dind) / bpp)) ((i - dind) % bpp)
  else
    pointer (pointer (pointer (blocks ino 14) ((i - dind) / bpp)) ((i - tind) / bpp))
      ((i - tind) % bpp)

/-- An entry of a block of pointers; `none` when there is no such entry in it. -/
def pointerAt (blk index : Nat) : Option Nat :=
  if index < vol.blksize / 4 then some (le32 (readBlocks vol blk) (4 * index)) else none

/-- `ext2_inode_blk`; `none` where it reads behind a block of pointers -/
def inodeBlkChecked (ino : Buf) (i : Nat) : Option Nat :=
  let bpp := vol.blksize / 4
  let dind := dindStart vol
  let tind := tindStart vol
  if i < 12 then some (blocks ino i)
  else if i < dind then pointerAt vol (blocks ino 12) (i - 12)
  else if i < tind then do
    let blk ← pointerAt vol (blocks ino 13) ((i - dind) / bpp)
    pointerAt vol blk ((i - dind) % bpp)
  else do
    let sindBlk ← pointerAt vol (blocks ino 14) ((i - dind) / bpp)
    let dindBlk ← pointerAt vol sindBlk ((i - tind) / bpp)
    pointerAt vol dindBlk ((i - tind) % bpp)

def setInodeBlk (ino : Buf) (i blk : Nat) : Volume × Buf :=
  let bpp := vol.blksize / 4
  let sind := 12
  let dind := sind + bpp
  if i < sind then
    (vol, setSectors (setBlocks ino i blk) (sectors ino + vol.blksize / 512))
  else if i < dind then
    (writeBlocks vol (put (readBlocks vol (blocks ino 12)) (4 * (i - sind)) (bytes32 blk))
      (blocks ino 12), ino)
  else (vol, ino)

/-! ## Allocation of blocks -/

/-- `buf[j / 8] & (1 << (j % 8))` -/
def bitSet (buf : Buf) (j : Nat) : Bool := (buf (j / 8)).toNat.testBit (j % 8)

/-- `buf[j / 8] |= (1 << (j % 8))` -/
def setBit (buf : Buf) (j : Nat) : Buf :=
  Function.update buf (j / 8) (UInt8.ofNat ((buf (j / 8)).toNat ||| 1 <<< (j % 8)))

def firstUnset (buf : Buf) : (count j : Nat) → Option Nat
  | 0, _ => none
  | count + 1, j => if bitSet buf j then firstUnset buf count (j + 1) else some j

/-- Mark bit `j` of group `i` as used. -/
def takeBlk (group : Bgd) (i j : Nat) : Option (Volume × Nat) :=
  let marked := writeBlocks vol (setBit (readBlocks vol group.blockBmp) j) group.blockBmp
  let groups := vol.groups.set i { group with freeBlocks := group.freeBlocks - 1 }
  (rewriteBgds { marked with groups := groups }).map fun vol =>
    (vol, (i * vol.blksPerGrp + j + 1) % 2 ^ 32)

/-- The loop of `ext2_alloc_blk` over the groups from `i` on. -/
def allocBlkFrom : List Bgd → (i : Nat) → Option (Volume × Nat)
  | [], _ => some (vol, 0)
  | group :: groups, i =>
      if group.freeBlocks = 0 then allocBlkFrom groups (i + 1)
      else
        match firstUnset (readBlocks vol group.blockBmp) (vol.blksize * 8) 0 with
        | none => allocBlkFrom groups (i + 1)
        | some j => takeBlk vol group i j

def allocBlk : Option (Volume × Nat) := allocBlkFrom vol vol.groups 0

/-! ## Files -/

/-- The blocks `ext2_resize` allocates at the end of a file. -/
def growBy : (cnt : Nat) → Volume → Buf → Option (Volume × Buf)
  | 0, vol, ino => some (vol, ino)
  | cnt + 1, vol, ino =>
      (allocBlk vol).bind fun taken =>
        let set := setInodeBlk taken.1 ino (sectors ino / (vol.blksize / 512)) taken.2
        growBy cnt set.1 set.2

/-- The number of blocks needed to resize. -/
def growth (fileSize size : Nat) : Nat :=
  let diff := subWord size fileSize
  if diff % vol.blksize ≠ 0 then diff / vol.blksize + 1 else diff / vol.blksize

/-- `ext2_resize` of the inode `num`, whose size in memory is `fileSize` -/
def resize (num fileSize size : Nat) : Option Volume :=
  (readInode vol num).bind fun ino =>
    (growBy (growth vol fileSize size) vol ino).bind fun grown =>
      writeInode grown.1 num (setSize grown.2 size)

/-- One iteration of `ext2_write`; the state is the volume and `ptroff`. -/
def writeRound (ino : Buf) (data : List UInt8) (startblk modoff endblk modend : Nat)
    (state : Volume × Nat) (i : Nat) : Option (Volume × Nat) :=
  let vol := state.1
  (inodeBlkChecked vol ino i).bind fun blk =>
    let start := if i = startblk then modoff else 0
    let wsize := vol.blksize - start - (if i = endblk then vol.blksize - modend else 0)
    (store vol.blksize (readBlocks vol blk) start ((data.drop state.2).take wsize)).map fun fullbuf =>
      (writeBlocks vol fullbuf blk, state.2 + wsize)

def writeLoop (ino : Buf) (data : List UInt8) (off : Nat) : Option (Volume × Nat) :=
  let startblk := off / vol.blksize % 2 ^ 32
  let endblk := addWord data.length off / vol.blksize % 2 ^ 32
  (List.range' startblk (endblk + 1 - startblk)).foldlM
    (writeRound ino data startblk (off % vol.blksize) endblk (addWord data.length off % vol.blksize))
    (vol, 0)

/-- `ext2_write` of `data` at `off`, with the size of the file afterwards -/
def write (num fileSize off : Nat) (data : List UInt8) : Option (Volume × Nat) :=
  let grows := fileSize < addWord off data.length
  let size := if grows then addWord off data.length else fileSize
  (if grows then resize vol num fileSize size else some vol).bind fun vol =>
    (readInode vol num).bind fun ino =>
      (writeLoop vol ino data off).map fun done => (done.1, size)

/-- One iteration of `ext2_read`: the bytes copied. -/
def readRound (ino : Buf) (size startblk modoff endblk modend i : Nat) : Option (List UInt8) :=
  let start := if i = startblk then modoff else 0
  let bytes := if i = endblk then min modend size else vol.blksize - start
  (inodeBlkChecked vol ino i).map fun blk => slice (readBlocks vol blk) start bytes

/-- The loop of `ext2_read`: the bytes copied to the buffer. -/
def readLoop (ino : Buf) (off size : Nat) : Option (List UInt8) :=
  let startblk := off / vol.blksize % 2 ^ 32
  let endblk := addWord size off / vol.blksize % 2 ^ 32
  ((List.range' startblk (endblk + 1 - startblk)).mapM (readRound vol ino size startblk
    (off % vol.blksize) endblk (addWord size off % vol.blksize))).map List.flatten

/-- `ext2_read`: the bytes copied to the buffer and the count returned -/
def read (num fileSize off size : Nat) : Option (List UInt8 × Nat) :=
  if off > fileSize then some ([], 0)
  else
    let past := addWord off size > fileSize
    let size := if past then fileSize - off else size
    if past ∧ size = 0 then some ([], 0)
    else (readInode vol num).bind fun ino => (readLoop vol ino off size).map (·, size)

/-! ## Directories -/

/-- `struct ext2_dirent`; its `name_len` is the length of the name. -/
structure Dirent where
  inode : Nat
  size : Nat
  type : UInt8
  name : List UInt8
  deriving DecidableEq

/-- `sizeof(struct ext2_dirent)` -/
def direntBytes : Nat := 8

/-- The entry at an offset of a buffer. -/
def direntAt (buf : Buf) (offset : Nat) : Dirent where
  inode := le32 buf offset
  size := le16 buf (offset + 4)
  type := buf (offset + 7)
  name := slice buf (offset + direntBytes) (buf (offset + 6)).toNat

def Dirent.bytes (dirent : Dirent) : List UInt8 :=
  bytes32 dirent.inode ++ bytes16 dirent.size ++ [UInt8.ofNat dirent.name.length, dirent.type] ++
    dirent.name

/-- Where the loop over the entries of a directory is left: the index of the block, what was
read from it, and the offset of the entry that was looked for. -/
structure Walk where
  blk : Nat
  buf : Buf
  entry : Option Nat

/-- The loop of `ext2_lookup`, `ext2_append_dirent` and `ext2_unlink`, left at the first entry
that `found` accepts.  It goes on for ever at an entry of size 0, and is `none` then. -/
def walkFrom (ino : Buf) (found : Buf → Nat → Option Bool) :
    (fuel offset blk : Nat) → Buf → Option Walk
  | 0, _, _, _ => none
  | fuel + 1, offset, blk, buf =>
      if offset + blk * vol.blksize < sectors ino * 512 % 2 ^ 32 then
        if offset + direntBytes ≤ vol.blksize then
          (found buf offset).bind fun isFound =>
            if isFound then some ⟨blk, buf, some offset⟩
            else
              let offset := offset + (direntAt buf offset).size
              if offset ≥ vol.blksize then
                walkFrom ino found fuel 0 (blk + 1) (readBlocks vol (inodeBlk vol ino (blk + 1)))
              else walkFrom ino found fuel offset blk buf
        else none
      else some ⟨blk, buf, none⟩

/-- The loop from the first entry on; an entry that is not empty takes it at least one byte
further. -/
def walk (ino : Buf) (found : Buf → Nat → Option Bool) : Option Walk :=
  walkFrom vol ino found (sectors ino * 512 % 2 ^ 32 + 1) 0 0 (readBlocks vol (inodeBlk vol ino 0))

/-- `strlen(name) == entry->name_len && !strncmp(name, entry->name, entry->name_len)`, for the
bytes of a string. -/
def isNamed (name : List UInt8) (buf : Buf) (offset : Nat) : Option Bool :=
  let entry := direntAt buf offset
  if name.length ≠ entry.name.length then some false
  else if offset + direntBytes + name.length ≤ vol.blksize then some (name = entry.name)
  else none

/-- `ext2_lookup`: the number of the inode found, and the inode -/
def lookup (dir : Nat) (name : List UInt8) : Option (Except Int (Nat × Buf)) :=
  (readInode vol dir).bind fun ino =>
    (walk vol ino (isNamed vol name)).bind fun left =>
      match left.entry with
      | some offset =>
          let inode := (direntAt left.buf offset).inode
          (readInode vol inode).map fun cino => .ok (inode, cino)
      | none => some (.error (-Fs.enoent))

/-- `expect`: the size of an entry and some padding -/
def Dirent.expect (entry : Dirent) : Nat := (direntBytes + entry.name.length) / 4 * 4 + 4

/-- The new entry fits into what an entry leaves unused. -/
def hasRoom (dirent entry : Dirent) : Bool :=
  entry.expect < entry.size && entry.size - entry.expect ≥ dirent.size

/-- The entry `ext2_mkentry` and `ext2_link` make. -/
def newDirent (inode : Nat) (type : UInt8) (name : List UInt8) : Dirent :=
  ⟨inode, direntBytes + name.length, type, name⟩

/-- `ext2_append_dirent` of an entry whose size is that of its bytes -/
def appendDirent (dir : Nat) (dirent : Dirent) : Option Volume :=
  (readInode vol dir).bind fun pino =>
    (walk vol pino fun buf offset => some (hasRoom dirent (direntAt buf offset))).bind fun left =>
      match left.entry with
      | some offset =>
          let entry := direntAt left.buf offset
          let padded := { dirent with size := entry.size - entry.expect }
          (store vol.blksize left.buf (offset + entry.expect) padded.bytes).map fun buf =>
            writeBlocks vol (put buf (offset + 4) (bytes16 entry.expect))
              (inodeBlk vol pino left.blk)
      | none =>
          (allocBlk vol).bind fun taken =>
            let set := setInodeBlk taken.1 pino (sectors pino / (vol.blksize / 512)) taken.2
            (store vol.blksize (fun _ => 0) 0 dirent.bytes).bind fun buf =>
              let written := writeBlocks set.1 (put buf 4 (bytes16 vol.blksize))
                (inodeBlk set.1 set.2 left.blk)
              writeInode written dir set.2

def unlink (dir : Nat) (name : List UInt8) : Option (Volume × Int) :=
  (readInode vol dir).bind fun ino =>
    (walk vol ino (isNamed vol name)).bind fun left =>
      match left.entry with
      | some offset =>
          let size := (direntAt left.buf offset).size
          (store vol.blksize left.buf offset (List.replicate size 0)).map fun buf =>
            (writeBlocks vol (put buf (offset + 4) (bytes16 size)) (inodeBlk vol ino left.blk), 0)
      | none => some (vol, -Fs.enoent)

end Micro.Ext2
