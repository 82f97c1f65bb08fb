import Micro.Fs.Getdents
import Micro.Lib.Bytes

/-!
# The FAT driver

A mounted volume: the values of its boot record that the driver uses, and the contents of the
device by sector of 512 bytes.  The directory entries and the fragments of long names are kept
as the 32 bytes they are, with their fields at the offsets of `struct fat_dirent` and
`struct fat_lfn`.

A step is `none` where the source reads or writes outside of the array it has, takes a sector
in front of the data area for a cluster, or does not come to an end.
-/

namespace Micro.Fat

open Kern Lib

/-- `struct fat32_volume` and the device it is on. -/
structure Volume where
  resSectors : Nat
  fats : Nat
  sectorsPerFat : Nat
  sectorsPerCluster : Nat
  sectorCnt : Nat
  disk : Nat → Buf

variable (vol : Volume)

/-- `write_sectors` of one sector -/
def writeSectors (buf : Buf) (lba : Nat) : Volume :=
  { vol with disk := Function.update vol.disk lba buf }

def clus2lba (cluster : Nat) : Nat :=
  (vol.resSectors + vol.fats * vol.sectorsPerFat + cluster * vol.sectorsPerCluster + 2 ^ 32 -
    2 * vol.sectorsPerCluster) % 2 ^ 32

/-- `read_sectors` of the first sector of a cluster -/
def readCluster (cluster : Nat) : Option Buf :=
  if 2 ≤ cluster then some (vol.disk (clus2lba vol cluster)) else none

/-! ## The file allocation table -/

def fatSector (i : Nat) : Nat := vol.resSectors + i * 4 % 2 ^ 32 / 512

def fatOff (i : Nat) : Nat := i * 4 % 2 ^ 32 % 512

def fatTableRead (i : Nat) : Nat := le32 (vol.disk (fatSector vol i)) (fatOff i)

def fatTableWrite (i val : Nat) : Volume :=
  writeSectors vol (put (vol.disk (fatSector vol i)) (fatOff i) (bytes32 val)) (fatSector vol i)

/-- `clus == 0 || (clus & 0x0fffffff) >= 0x0ffffff8` -/
def chainEnds (clus : Nat) : Bool := clus = 0 || decide (clus % 2 ^ 28 ≥ 0x0ffffff8)

/-- The loop of `fat_cchain_cnt`. -/
def chainCount : (fuel clus : Nat) → Option Nat
  | 0, _ => none
  | fuel + 1, clus =>
      let next := fatTableRead vol clus
      if chainEnds next then some 1 else (chainCount fuel next).map (· + 1)

/-- `fat_cchain_cnt`; there are no more clusters than numbers of 32 bits -/
def fatCchainCnt (clus : Nat) : Option Nat := chainCount vol (2 ^ 32) clus

def fatAllocClus : Nat :=
  ((List.range' 2 (vol.sectorCnt / vol.sectorsPerCluster - 2)).find? fun i =>
    fatTableRead vol i = 0).getD 0

/-! ## Directory entries -/

/-- One of the 16 entries of a sector. -/
def slotAt (buf : Buf) (j : Nat) : Buf := fun k => buf (32 * j + k)

/-- The entries of a sector. -/
def slots (buf : Buf) : List Buf := (List.range 16).map (slotAt buf)

def attr (slot : Buf) : Nat := (slot 11).toNat

/-- What the loops over a directory distinguish. -/
inductive Kind where
  | unused
  | reset
  | fragment
  | named
  deriving DecidableEq, Repr

/-- The tests made on each entry: `name[0] == 0`; `name[0] == 0xe5 || attr == FAT_ATTR_VOLID`;
`attr == FAT_ATTR_LFN`. -/
def kind (slot : Buf) : Kind :=
  if slot 0 = 0 then .unused
  else if slot 0 = 0xe5 ∨ attr slot = 0x08 then .reset
  else if attr slot = 0x0f then .fragment
  else .named

/-- The positions of the low bytes of `chars1`, `chars2` and `chars3`. -/
def lfnPositions : List Nat := [1, 3, 5, 7, 9, 14, 16, 18, 20, 22, 24, 28, 30]

/-- A row of `lfns` as the string it holds. -/
def lfn (slot : Buf) : CStr := (lfnPositions.map slot).takeWhile fun c => c ≠ 0

/-- The rows put together, the one stored last in front. -/
def joinLfns (lfns : List CStr) : CStr := lfns.reverse.flatten

/-- The characters of a field before the first blank. -/
def unpadded (slot : Buf) (pos count : Nat) : CStr :=
  (slice slot pos count).takeWhile fun c => c ≠ 0x20

/-- `from8dot3`: the string ends at a zero in the name or the extension -/
def from8dot3 (slot : Buf) : CStr :=
  let ext := unpadded slot 8 3
  let dst := if ext = [] then unpadded slot 0 8 else unpadded slot 0 8 ++ [0x2e] ++ ext
  dst.takeWhile fun c => c ≠ 0

/-- `to8dot3`: the eight and the three characters -/
def to8dot3 (name : CStr) : CStr × CStr :=
  let len := min (name.takeWhile fun c => c ≠ 0x2e).length 8
  let ext := (name.drop (len + 1)).take 3
  (name.take len ++ List.replicate (8 - len) 0x20, ext ++ List.replicate (3 - ext.length) 0x20)

def fatNameCmp (slot : Buf) (name : CStr) : Bool :=
  slice slot 0 8 = (to8dot3 name).1 && slice slot 8 3 = (to8dot3 name).2

/-- The loop over the clusters of a directory: the first sectors of so many clusters. -/
def dirSectors : (cnt clus : Nat) → Option (List Buf)
  | 0, _ => some []
  | cnt + 1, clus =>
      (readCluster vol clus).bind fun buf =>
        (dirSectors cnt (fatTableRead vol clus)).map (buf :: ·)

/-- The entries that `fat_lookup` and `fat_getdents` go through. -/
def dirSlots (dir : Nat) : Option (List Buf) :=
  (fatCchainCnt vol dir).bind fun cnt =>
    (dirSectors vol cnt dir).map fun sectors => sectors.flatMap slots

/-! ## Lookup -/

/-- The comparison `fat_lookup` makes at a named entry. -/
def accepts (lfns : List CStr) (slot : Buf) (name : CStr) : Bool :=
  if lfns = [] then fatNameCmp slot name else joinLfns lfns = name

/-- The loops of `fat_lookup`: the entry found.  `lfns` are the first `lfncnt` rows, and `none`
when a comparison has counted `lfncnt` down past zero: the next fragment is stored, and the next
name compared, outside of the array then. -/
def lookupLoop (name : CStr) : (lfns : Option (List CStr)) → List Buf → Option (Option Buf)
  | _, [] => some none
  | lfns, slot :: rest =>
      match kind slot with
      | .unused => lookupLoop name lfns rest
      | .reset => lookupLoop name (some []) rest
      | .fragment => lfns.bind fun rows =>
          if rows.length < 8 then lookupLoop name (some (rows ++ [lfn slot])) rest else none
      | .named => lfns.bind fun rows =>
          if accepts rows slot name then some (some slot)
          else lookupLoop name (if rows = [] then some [] else none) rest

/-- What `fat_lookup` puts into the inode: whether it is a directory, the number and the size. -/
structure Found where
  isDir : Bool
  inode : Nat
  size : Nat
  deriving DecidableEq, Repr

/-- `attr & FAT_ATTR_DIR` -/
def isDir (slot : Buf) : Bool := (slot 11).toNat.testBit 4

/-- `(cluster_u << 16) | cluster`, which has no more than 28 bits -/
def startCluster (slot : Buf) : Nat := le16 slot 20 * 2 ^ 16 + le16 slot 26

/-- The inode of an entry. -/
def found (slot : Buf) : Found := ⟨isDir slot, startCluster slot, le32 slot 28⟩

def fatLookup (dir : Nat) (name : CStr) : Option (Except Int Found) :=
  (dirSlots vol dir).bind fun entries =>
    (lookupLoop name (some []) entries).map fun
      | some slot => .ok (found slot)
      | none => .error (-Fs.enoent)

/-! ## Listing -/

/-- `(cluster_u << 32) | cluster`: a shift by the width of the type is undefined, and the compiler
leaves it out -/
def dIno (slot : Buf) : Nat := le16 slot 26

def todenttype (slot : Buf) : Nat := if isDir slot then 4 else 8

def listedName (lfns : List CStr) (slot : Buf) : CStr :=
  if lfns = [] then from8dot3 slot else joinLfns lfns

/-- What `fat_getdents` makes of an entry. -/
def listed (lfns : List CStr) (slot : Buf) : Fs.Dirent :=
  ⟨some (dIno slot), todenttype slot, listedName lfns slot⟩

/-- The loops of `fat_getdents`: the structures written, `i` of them before. -/
def getdentsLoop (size : Nat) : (lfns : List CStr) → (off : Int) → (i : Nat) → List Buf →
    Option (List Fs.Dirent)
  | _, _, _, [] => some []
  | lfns, off, i, slot :: rest =>
      match kind slot with
      | .unused => getdentsLoop size lfns off i rest
      | .reset => getdentsLoop size [] off i rest
      | .fragment =>
          if lfns.length < 8 then getdentsLoop size (lfns ++ [lfn slot]) off i rest else none
      | .named =>
          if i * Fs.direntSize + Fs.direntSize ≥ size then some []
          else if off ≠ 0 then getdentsLoop size [] (off - 1) i rest
          else (getdentsLoop size [] (off - 1) (i + 1) rest).map (listed lfns slot :: ·)

def fatGetdents (dir : Nat) : Fs.Driver := fun off size =>
  (dirSlots vol dir).bind fun entries =>
    (getdentsLoop size [] off 0 entries).map Fs.bytesReply

/-! ## Making a directory -/

/-- The first entry of a sector whose name begins with zero. -/
def firstUnused (buf : Buf) : Option Nat := (List.range 16).find? fun j => slotAt buf j 0 = 0

/-- `fat_dirent_append`, from a cluster of the directory on -/
def direntAppend (dirent : List UInt8) : (fuel clus : Nat) → Volume → Option Volume
  | 0, _, _ => none
  | fuel + 1, clus, vol =>
      (readCluster vol clus).bind fun buf =>
        match firstUnused buf with
        | some j => some (writeSectors vol (put buf (32 * j) dirent) (clus2lba vol clus))
        | none =>
            let next := fatTableRead vol clus
            if next ≥ 0xffffff8 then
              let next := fatAllocClus vol
              direntAppend dirent fuel next
                (fatTableWrite (fatTableWrite vol clus next) next 0xffffff8)
            else direntAppend dirent fuel next vol

def fatDirentAppend (dir : Nat) (dirent : List UInt8) : Option Volume :=
  direntAppend dirent (2 ^ 32) dir vol

def fatMkdirent (dir : Nat) (dirent : List UInt8) : Option Volume :=
  (fatDirentAppend vol dir dirent).bind fun vol =>
    fatDirentAppend vol dir (List.replicate 32 0)

/-- The entry `fat_mkdir` makes; `cluster` is cut to 16 bits. -/
def newDirent (name : CStr) (cluster : Nat) : List UInt8 :=
  (to8dot3 name).1 ++ (to8dot3 name).2 ++ [0x10] ++ List.replicate 14 0 ++ bytes16 cluster ++
    List.replicate 4 0

def fatMkdir (dir : Nat) (name : CStr) : Option Volume :=
  let cluster := fatAllocClus vol % 2 ^ 16
  (fatMkdirent vol dir (newDirent name cluster)).map fun vol =>
    fatTableWrite vol cluster 0xffffff8

/-! ## Removing an entry -/

/-- The entries `fat_unlink` compares with the name: in use, no fragment of a long name, and
without the attribute of a volume label. -/
def removable (slot : Buf) : Bool :=
  slot 0 ≠ 0 && slot 0 ≠ 0xe5 && attr slot ≠ 0x0f && !(attr slot).testBit 3

/-- The entry that takes the place of a removed one. -/
def removedDirent : List UInt8 := 0xe5 :: List.replicate 31 0

/-- The loop of `fat_unlink` over the clusters of a directory. -/
def unlinkLoop (name : CStr) : (cnt clus : Nat) → Option (Volume × Int)
  | 0, _ => some (vol, -Fs.enoent)
  | cnt + 1, clus =>
      (readCluster vol clus).bind fun buf =>
        match (List.range 16).find? fun j =>
            removable (slotAt buf j) && fatNameCmp (slotAt buf j) name with
        | some j =>
            some (writeSectors vol (put buf (32 * j) removedDirent) (clus2lba vol clus), 0)
        | none => unlinkLoop name cnt (fatTableRead vol clus)

def fatUnlink (dir : Nat) (name : CStr) : Option (Volume × Int) :=
  (fatCchainCnt vol dir).bind fun cnt => unlinkLoop vol name cnt dir

end Micro.Fat
