import Micro.Lib.Records
import Micro.Ext2.File

/-!
# Directories

The blocks of a directory are tiled by its entries.  `ext2_append_dirent` puts a new entry
into what another one leaves unused, or into a new block, and `ext2_unlink` clears an
entry.  An entry of inode 0 is not in use.  `ext2_getdents` skips such entries, while
`ext2_lookup` and `ext2_unlink` compare their names as they do those of the others.
-/

namespace Micro.Ext2

open Lib List Option

variable {buf after ino : Buf} {offset size blk num : Nat} {dirent entry : Dirent} {vol : Volume}
  {name : List UInt8}

/-! ## Entries in a buffer -/

/-- The entries of a directory as records. -/
def dirents : Format Dirent where
  size := Dirent.size
  Fits entry := direntBytes + entry.name.length ≤ entry.size
  size_pos := by
    intro entry fits
    rw [direntBytes] at fits
    omega

theorem direntAt_congr {other : Buf}
    (same : ∀ k, offset ≤ k → k < offset + (direntBytes + (direntAt buf offset).name.length) →
      other k = buf k) : direntAt other offset = direntAt buf offset := by
  simp only [direntAt, direntBytes, length_slice] at same
  have nameLen := same (offset + 6) (by omega) (by omega)
  simp only [direntAt, direntBytes, nameLen, Dirent.mk.injEq]
  refine ⟨?_, ?_, ?_, ?_⟩
  · exact le32_congr fun k from_ below => same k from_ (by omega)
  · exact le16_congr fun k from_ below => same k (by omega) (by omega)
  · exact same _ (by omega) (by omega)
  · exact slice_congr fun i _ => same _ (by omega) (by omega)

theorem direntAt_put (inode : dirent.inode < 2 ^ 32) (size : dirent.size < 2 ^ 16)
    (nameLen : dirent.name.length < 2 ^ 8) :
    direntAt (put buf offset dirent.bytes) offset = dirent := by
  obtain ⟨number, length, type, name⟩ := dirent
  have header : ∀ i < 8, (Dirent.bytes ⟨number, length, type, name⟩)[i]? =
      (bytes32 number ++ bytes16 length ++ [UInt8.ofNat name.length, type])[i]? := by
    intro i inside
    exact getElem?_append_left inside
  have isNumber := @le32_put_at offset 0 number (Dirent.bytes ⟨number, length, type, name⟩) []
      (bytes16 length ++ [UInt8.ofNat name.length, type] ++ name) buf (by simp [Dirent.bytes]) rfl
  have isLength := @le16_put_at offset 4 length (Dirent.bytes ⟨number, length, type, name⟩) (bytes32
      number) ([UInt8.ofNat name.length, type] ++ name) buf (by simp [Dirent.bytes]) rfl
  have isNameLen := @put_inside offset 6 _ buf (UInt8.ofNat name.length) (header 6 (by decide))
  have isType := @put_inside offset 7 _ buf type (header 7 (by decide))
  have isName : slice (put buf offset (Dirent.bytes ⟨number, length, type, name⟩)) (offset + 8)
      name.length = name := by
    rw [Dirent.bytes, ← put_append]
    exact slice_put
  rw [Nat.mod_eq_of_lt inode] at isNumber
  rw [Nat.mod_eq_of_lt size] at isLength
  have isCount : (UInt8.ofNat name.length).toNat = name.length := by
    rw [UInt8.toNat_ofNat', Nat.mod_eq_of_lt nameLen]
  simp only [direntAt, direntBytes, isLength, isNameLen, isCount, isType, isName]
  exact congrArg (Dirent.mk · length type name) isNumber

theorem length_bytes (dirent : Dirent) : dirent.bytes.length = direntBytes + dirent.name.length := by
  simp only [Dirent.bytes, bytes32, bytes16, direntBytes, length_append, length_cons, length_nil]

theorem direntAt_setSize (small : size < 2 ^ 16) :
    direntAt (put buf (offset + 4) (bytes16 size)) offset =
      { direntAt buf offset with size := size } := by
  have sizeBytes : (bytes16 size).length = 2 := rfl
  have isSize := @le16_put_at (offset + 4) 0 size (bytes16 size) [] [] buf (by simp) rfl
  rw [Nat.mod_eq_of_lt small] at isSize
  rw [direntAt, isSize, le32_put_outside (by omega), put_after (by omega), put_after (by omega),
    slice_put_outside (by rw [direntBytes]; omega)]
  rfl

/-- The entry that `ext2_unlink` leaves. -/
def cleared (size : Nat) : Dirent := ⟨0, size, 0, []⟩

/-- `ext2_unlink` clears an entry and no other byte. -/
theorem clear_spec (atLeast : 8 ≤ size) (small : size < 2 ^ 16)
    (isAfter : after = put (put buf offset (replicate size 0)) (offset + 4) (bytes16 size)) :
    Tiles dirents (direntAt after) offset (offset + size) [cleared size] ∧
      ∀ k, k < offset ∨ offset + size ≤ k → after k = buf k := by
  constructor
  · refine ⟨?_, atLeast, rfl⟩
    have zero : ∀ i < 8, put buf offset (replicate size 0) (offset + i) = 0 :=
      fun i _ => put_inside (getElem?_replicate_of_lt (by omega))
    have noInode : le32 (put buf offset (replicate size 0)) offset = 0 := by
      have first := zero 0 (by decide)
      rw [Nat.add_zero] at first
      rw [le32, le16, le16, first, zero 1 (by decide), zero 2 (by decide), zero 3 (by decide)]
      rfl
    rw [isAfter, direntAt_setSize small, direntAt, noInode, zero 6 (by decide), zero 7 (by decide)]
    rfl
  · intro k _
    have sizeBytes : (bytes16 size).length = 2 := rfl
    rw [isAfter, put_outside (by omega), put_outside (by rw [length_replicate]; omega)]

theorem expect_bounds (entry : Dirent) : direntBytes + entry.name.length < entry.expect := by
  rw [Dirent.expect]
  omega

theorem hasRoom_iff : hasRoom dirent entry = true ↔
    entry.expect < entry.size ∧ dirent.size ≤ entry.size - entry.expect := by
  rw [hasRoom, Bool.and_eq_true, decide_eq_true_eq, decide_eq_true_eq]

/-- `ext2_append_dirent` splits an entry in two and changes no byte outside of it. -/
theorem carve_spec {padded : Dirent} (isEntry : direntAt buf offset = entry)
    (room : hasRoom dirent entry = true) (inode : dirent.inode < 2 ^ 32)
    (nameLen : dirent.name.length < 2 ^ 8) (isSize : dirent.size = direntBytes + dirent.name.length)
    (isPadded : padded = { dirent with size := entry.size - entry.expect })
    (isAfter : after = put (put buf (offset + entry.expect) padded.bytes) (offset + 4)
      (bytes16 entry.expect)) :
    Tiles dirents (direntAt after) offset (offset + entry.size)
      [{ entry with size := entry.expect }, padded] ∧
    ∀ k, k < offset ∨ offset + entry.size ≤ k → after k = buf k := by
  obtain ⟨_, room⟩ := hasRoom_iff.mp room
  have past := expect_bounds entry
  have small : entry.size < 2 ^ 16 := isEntry ▸ le16_lt
  have length : padded.bytes.length = dirent.size := by rw [length_bytes, isPadded, isSize]
  have sizeBytes : (bytes16 entry.expect).length = 2 := rfl
  have sizes : offset + entry.expect + padded.size = offset + entry.size := by
    rw [isPadded]
    dsimp only
    omega
  have fits : direntBytes + padded.name.length ≤ padded.size := by
    rw [isPadded]
    dsimp only
    omega
  refine ⟨⟨?_, Nat.le_of_lt past, ?_, fits, sizes⟩, ?_⟩
  · have kept : direntAt (put buf (offset + entry.expect) padded.bytes) offset = entry := by
      rw [← isEntry]
      refine direntAt_congr fun k from_ below => put_before ?_
      rw [isEntry] at below ⊢
      omega
    rw [isAfter, direntAt_setSize (by omega), kept]
  · have stored : direntAt (put buf (offset + entry.expect) padded.bytes) (offset + entry.expect) =
        padded := by
      rw [isPadded]
      exact direntAt_put inode (Nat.lt_of_le_of_lt (Nat.sub_le _ _) small) nameLen
    change direntAt after (offset + entry.expect) = padded
    conv_rhs => rw [← stored]
    rw [isAfter]
    rw [direntBytes] at past
    exact direntAt_congr fun k from_ below => put_outside (by omega)
  · intro k _
    rw [direntBytes] at past
    rw [isAfter, put_outside (by omega), put_outside (by omega)]

/-! ## Directories -/

/-- The blocks of a directory with the entries in them. -/
abbrev Listing := List (Nat × List Dirent)

/-- The entries, one block after the other. -/
def records (listing : Listing) : List Dirent := listing.flatMap Prod.snd

@[simp] theorem records_nil : records [] = [] := rfl

@[simp] theorem records_cons (block : Nat × List Dirent) (listing : Listing) :
    records (block :: listing) = block.2 ++ records listing := flatMap_cons

@[simp] theorem records_append (first second : Listing) :
    records (first ++ second) = records first ++ records second := flatMap_append

/-- A directory of direct blocks, each tiled by entries, on a well-formed volume. -/
structure Directory (vol : Volume) (num : Nat) (listing : Listing) : Prop where
  wf : WellFormed vol
  kib : vol.blksize = 1024
  valid : ValidIno vol num
  inode : ∃ ino, readInode vol num = some ino ∧ Lists ino (listing.map Prod.fst)
  nodup : (listing.map Prod.fst).Nodup
  used : ∀ blk ∈ listing.map Prod.fst, blk ∉ metaBlks vol ∧ ¬ Free vol blk
  tiled : ∀ block ∈ listing, Tiles dirents (direntAt (vol.disk block.1)) 0 1024 block.2

/-- An entry of a directory, with what is before and behind it. -/
structure Spot where
  front : Listing
  blk : Nat
  before : List Dirent
  entry : Dirent
  behind : List Dirent
  back : Listing
  offset : Nat

variable {spot : Spot}

namespace Spot

/-- The directory with other entries in the place of the one at the spot. -/
def put (spot : Spot) (new : List Dirent) : Listing :=
  spot.front ++ (spot.blk, spot.before ++ new ++ spot.behind) :: spot.back

def earlier (spot : Spot) : List Dirent := records spot.front ++ spot.before

def later (spot : Spot) : List Dirent := spot.behind ++ records spot.back

theorem records_put (spot : Spot) (new : List Dirent) :
    records (spot.put new) = spot.earlier ++ new ++ spot.later := by
  simp [put, earlier, later]

/-- The spot is at its offset in a block of the directory. -/
structure Of (spot : Spot) (vol : Volume) (listing : Listing) : Prop where
  listing_eq : listing = spot.put [spot.entry]
  before : Tiles dirents (direntAt (vol.disk spot.blk)) 0 spot.offset spot.before
  here : Tiles dirents (direntAt (vol.disk spot.blk)) spot.offset 1024 (spot.entry :: spot.behind)

end Spot

/-! ## Walking over the entries -/

section Walk

variable {found : Buf → Nat → Option Bool} {accepts : Dirent → Bool}

theorem walkFrom_block (kib : vol.blksize = 1024) {fuel : Nat}
    (computes : ∀ offset, offset + (direntBytes + (direntAt buf offset).name.length) ≤ 1024 →
      found buf offset = some (accepts (direntAt buf offset)))
    (more : (blk + 1) * 1024 ≤ sectors ino * 512 % 2 ^ 32) {entries : List Dirent} {offset : Nat}
    (inside : offset < 1024) (ends : Tiles dirents (direntAt buf) offset 1024 entries) :
    (∃ before entry behind offset', entries = before ++ entry :: behind ∧
        Tiles dirents (direntAt buf) offset offset' before ∧
        Tiles dirents (direntAt buf) offset' 1024 (entry :: behind) ∧
        (∀ other ∈ before, accepts other = false) ∧ accepts entry = true ∧
        walkFrom vol ino found (fuel + entries.length) offset blk buf =
          some ⟨blk, buf, some offset'⟩) ∨
      ((∀ other ∈ entries, accepts other = false) ∧
        walkFrom vol ino found (fuel + entries.length) offset blk buf =
          walkFrom vol ino found fuel 0 (blk + 1) (readBlocks vol (inodeBlk vol ino (blk + 1)))) := by
  induction entries generalizing offset with
  | nil =>
    have isEnd : offset = 1024 := ends
    omega
  | cons entry entries ih =>
    obtain ⟨isEntry, fits, rest⟩ := id ends
    have fits : direntBytes + entry.name.length ≤ entry.size := fits
    have rest : Tiles dirents (direntAt buf) (offset + entry.size) 1024 entries := rest
    have short := rest.length_le
    have isFound := computes offset (by rw [isEntry]; omega)
    have unfolded : walkFrom vol ino found (fuel + (entry :: entries).length) offset blk buf =
        if accepts entry then some ⟨blk, buf, some offset⟩
        else if offset + entry.size ≥ 1024 then
          walkFrom vol ino found (fuel + entries.length) 0 (blk + 1)
            (readBlocks vol (inodeBlk vol ino (blk + 1)))
        else walkFrom vol ino found (fuel + entries.length) (offset + entry.size) blk buf := by
      rw [length_cons, ← Nat.add_assoc, walkFrom, kib, if_pos (by omega), if_pos (by omega),
        isFound, bind_some, isEntry]
    by_cases isThis : accepts entry = true
    · rw [if_pos isThis] at unfolded
      exact .inl ⟨[], entry, entries, offset, rfl, rfl, ends, by simp, isThis, unfolded⟩
    · rw [if_neg isThis] at unfolded
      have notThis : accepts entry = false := by simpa using isThis
      by_cases last : offset + entry.size ≥ 1024
      · have noneLeft : entries = [] := length_eq_zero_iff.mp (by omega)
        subst noneLeft
        rw [if_pos last] at unfolded
        exact .inr ⟨by simpa using notThis, unfolded⟩
      · rw [if_neg last] at unfolded
        rcases ih (by omega) rest with ⟨before, other, behind, offset', isEntries, first, second,
          noneBefore, isOther, walked⟩ | ⟨noneLeft, walked⟩
        · refine Or.inl ⟨entry :: before, other, behind, offset', by rw [isEntries]; rfl,
            ⟨isEntry, fits, first⟩, second, ?_, isOther, unfolded.trans walked⟩
          exact forall_mem_cons.mpr ⟨notThis, noneBefore⟩
        · exact Or.inr ⟨forall_mem_cons.mpr ⟨notThis, noneLeft⟩, unfolded.trans walked⟩

/-- The loop ends at the first entry that is accepted, or behind the last block. -/
def Ends (vol : Volume) (ino : Buf) (listing : Listing) (accepts : Dirent → Bool)
    (left : Option Walk) : Prop :=
  (∃ spot : Spot, spot.Of vol listing ∧ (∀ other ∈ spot.earlier, accepts other = false) ∧
    accepts spot.entry = true ∧ inodeBlk vol ino spot.front.length = spot.blk ∧
    left = some ⟨spot.front.length, vol.disk spot.blk, some spot.offset⟩) ∨
  ((∀ other ∈ records listing, accepts other = false) ∧
    ∃ buf, left = some ⟨listing.length, buf, none⟩)

theorem length_records_le {listing : Listing} (short : ∀ block ∈ listing, block.2.length ≤ size) :
    (records listing).length ≤ listing.length * size := by
  induction listing with
  | nil => exact Nat.zero_le _
  | cons block listing ih =>
    obtain ⟨here, later⟩ := forall_mem_cons.mp short
    rw [records_cons, length_append, length_cons, Nat.succ_mul, Nat.add_comm]
    exact Nat.add_le_add (ih later) here

theorem walk_ends {listing : Listing} (directory : Directory vol num listing)
    (lists : Lists ino (listing.map Prod.fst))
    (computes : ∀ buf offset, offset + (direntBytes + (direntAt buf offset).name.length) ≤ 1024 →
      found buf offset = some (accepts (direntAt buf offset))) :
    Ends vol ino listing accepts (walk vol ino found) := by
  have kib := directory.kib
  have direct := lists.direct
  have count := lists.count
  rw [length_map] at direct count
  have limit : sectors ino * 512 % 2 ^ 32 = listing.length * 1024 := by omega
  have scan : ∀ {rest front : Listing} {fuel : Nat}, listing = front ++ rest →
      (∀ other ∈ records front, accepts other = false) →
      Ends vol ino listing accepts (walkFrom vol ino found (fuel + (records rest).length + 1) 0
        front.length (readBlocks vol (inodeBlk vol ino front.length))) := by
    intro rest
    induction rest with
    | nil =>
      intro front fuel isListing noneBefore
      rw [append_nil] at isListing
      refine Or.inr ⟨isListing ▸ noneBefore, readBlocks vol (inodeBlk vol ino front.length), ?_⟩
      rw [walkFrom, limit, kib, isListing, if_neg (by omega)]
    | cons block rest ih =>
      intro front fuel isListing noneBefore
      obtain ⟨blk, entries⟩ := block
      have inList : front.length < listing.length := by simp [isListing]
      have isBlk : inodeBlk vol ino front.length = blk := by
        rw [inodeBlk, if_pos (by omega)]
        exact lists.listed _ _ (by simp [isListing])
      have split : fuel + (records ((blk, entries) :: rest)).length + 1 =
          fuel + (records rest).length + 1 + entries.length := by
        simp only [records_cons, length_append]
        omega
      rw [isBlk, split]
      rcases @walkFrom_block (vol.disk blk) ino front.length vol found accepts kib (fuel + (records
          rest).length + 1) (computes _) (by omega) entries 0 (by decide) (directory.tiled (blk,
          entries) (by simp [isListing])) with
        ⟨before, entry, behind, offset, isEntries, first, second, noneHere, isEntry, walked⟩ |
        ⟨noneHere, walked⟩
      · refine Or.inl ⟨⟨front, blk, before, entry, behind, rest, offset⟩, ⟨?_, first, second⟩, ?_,
          isEntry, isBlk, walked⟩
        · simp [isListing, isEntries, Spot.put]
        · exact forall_mem_append.mpr ⟨noneBefore, noneHere⟩
      · have next := @ih (front ++ [(blk, entries)]) fuel (by simp [isListing])
          (by simpa [or_imp, forall_and] using ⟨noneBefore, noneHere⟩)
        rw [length_append] at next
        rw [readBlocks, walked]
        exact next
  have enough : (records listing).length ≤ listing.length * 1024 := by
    apply length_records_le
    intro block mem
    have short := (directory.tiled block mem).length_le
    omega
  obtain ⟨fuel, isFuel⟩ := Nat.exists_eq_add_of_le enough
  have start := @scan listing [] fuel (nil_append _).symm (by simp)
  rw [walk, limit, isFuel, Nat.add_comm (records listing).length]
  exact start

end Walk

/-! ## Changing a directory -/

section Change

variable {listing : Listing} (directory : Directory vol num listing)
include directory

theorem Directory.inodeTblBlk_not_mem : inodeTblBlk vol num ∉ listing.map Prod.fst := by
  obtain ⟨_, _, _, isMeta⟩ := inodePlace_spec directory.wf directory.valid
  exact fun mem => (directory.used _ mem).1 (mem_metaBlks.mpr (.inr isMeta))

theorem Directory.replace (isSpot : spot.Of vol listing) {new : List Dirent}
    (same : ∀ k, k < spot.offset ∨ spot.offset + spot.entry.size ≤ k → buf k = vol.disk spot.blk k)
    (placed : Tiles dirents (direntAt buf) spot.offset (spot.offset + spot.entry.size) new) :
    Directory (writeBlocks vol buf spot.blk) num (spot.put new) := by
  have blks : (spot.put new).map Prod.fst = listing.map Prod.fst := by
    simp [isSpot.listing_eq, Spot.put]
  have isBlk : spot.blk ∈ listing.map Prod.fst := by
    simp [isSpot.listing_eq, Spot.put]
  have notMeta := (directory.used _ isBlk).1
  have quiet := Quiet.write buf fun bitmap => notMeta (mem_metaBlks.mpr (Or.inl bitmap))
  have others : ∀ {blk}, blk ≠ spot.blk → (writeBlocks vol buf spot.blk).disk blk = vol.disk blk :=
    fun ne => writeBlocks_disk_ne vol buf ne
  have wf := quiet.wellFormed directory.wf
  refine ⟨wf, directory.kib, directory.valid.same quiet.same, ?_, blks ▸ directory.nodup, ?_, ?_⟩
  · rw [blks, quiet.same.readInode]
    · exact directory.inode
    · exact others fun equal => directory.inodeTblBlk_not_mem (equal ▸ isBlk)
  · rw [blks]
    exact fun blk mem => ⟨(directory.used blk mem).1,
      fun isFree => (directory.used blk mem).2 ((quiet.free blk).mp isFree)⟩
  · have nodup := directory.nodup
    simp only [isSpot.listing_eq, Spot.put, map_append, map_cons, nodup_middle,
      nodup_cons, mem_append, not_or] at nodup
    have elsewhere : ∀ block ∈ listing, block.1 ≠ spot.blk →
        Tiles dirents (direntAt ((writeBlocks vol buf spot.blk).disk block.1)) 0 1024 block.2 := by
      intro block mem ne
      rw [others ne]
      exact directory.tiled block mem
    refine forall_mem_append.mpr ⟨fun block inFront => ?_,
      forall_mem_cons.mpr ⟨?_, fun block inBack => ?_⟩⟩
    · refine elsewhere block (by simp [isSpot.listing_eq, Spot.put, inFront]) fun equal => ?_
      exact nodup.1.1 (equal ▸ mem_map_of_mem inFront)
    · rw [writeBlocks_disk_self]
      refine isSpot.before.replace isSpot.here (fun offset outside fits => ?_) placed
      dsimp only [dirents] at outside fits
      exact direntAt_congr fun k _ _ => same k (by omega)
    · refine elsewhere block (by simp [isSpot.listing_eq, Spot.put, inBack]) fun equal => ?_
      exact nodup.1.2 (equal ▸ mem_map_of_mem inBack)

theorem Directory.extend {taken : Volume} (took : Took vol taken blk)
    (lists : Lists ino (listing.map Prod.fst ++ [blk]))
    (filled : Tiles dirents (direntAt buf) 0 1024 [entry]) :
    ∃ after, writeInode (writeBlocks taken buf blk) num ino = some after ∧ Same vol after ∧
      Directory after num (listing ++ [(blk, [entry])]) := by
  obtain ⟨notBitmap, _, notTable⟩ := took.wasFree.not_meta directory.wf directory.kib directory.valid
  have quiet := Quiet.write buf (took.same.bitmaps ▸ notBitmap)
  have same := took.same.trans quiet.same
  have wf := quiet.wellFormed took.wf
  have valid := directory.valid.same same
  obtain ⟨table, isWritten, back, isBack, sameIno⟩ := writeInode_spec wf valid ino
  have quietTable := Quiet.write table (inodeTblBlk_not_bitmap wf valid)
  rw [same.inodeTblBlk] at isWritten isBack quietTable
  have sameAll := same.trans quietTable.same
  have free : ∀ b, Free (writeBlocks (writeBlocks taken buf blk) table (inodeTblBlk vol num)) b ↔
      Free vol b ∧ b ≠ blk := by
    intro b
    rw [quietTable.free, quiet.free, took.free]
  have fresh : blk ∉ listing.map Prod.fst := fun mem => (directory.used blk mem).2 took.wasFree
  have blks : (listing ++ [(blk, [entry])]).map Prod.fst = listing.map Prod.fst ++ [blk] := by simp
  refine ⟨_, isWritten, sameAll, quietTable.wellFormed wf, sameAll.blksize.trans directory.kib,
    directory.valid.same sameAll, ⟨back, isBack, ?_⟩, ?_, ?_, ?_⟩
  · rw [blks]
    exact lists.congr sameIno
  · rw [blks, ← concat_eq_append]
    exact .concat fresh directory.nodup
  · rw [blks, forall_mem_append, forall_mem_singleton, sameAll.metaBlks]
    refine ⟨fun b mem => ⟨(directory.used b mem).1, fun isFree => ?_⟩, ?_, fun isFree => ?_⟩
    · exact (directory.used b mem).2 ((free b).mp isFree).1
    · exact fun isMeta => directory.wf.metaUsed blk isMeta took.wasFree
    · exact ((free blk).mp isFree).2 rfl
  · rw [forall_mem_append, forall_mem_singleton]
    constructor
    · intro block mem
      have isBlk : block.1 ∈ listing.map Prod.fst := mem_map_of_mem mem
      have notMeta := (directory.used _ isBlk).1
      have untouched : taken.disk block.1 = vol.disk block.1 := by
        apply took.disk
        · exact fun bitmap => notMeta (mem_metaBlks.mpr (.inl bitmap))
        · rintro equal
          obtain ⟨i, j, _, _, _, isGroup, _⟩ := took.wasFree
          rw [equal] at notMeta
          exact notMeta (mem_metaBlks.mpr (.inr
            (bgdsBlk_mem directory.kib (mem_of_getElem? isGroup))))
      rw [writeBlocks_disk_ne, writeBlocks_disk_ne, untouched]
      · exact directory.tiled block mem
      · exact fun equal => fresh (equal ▸ isBlk)
      · exact fun equal => directory.inodeTblBlk_not_mem (equal ▸ isBlk)
    · rw [writeBlocks_disk_ne _ _ notTable, writeBlocks_disk_self]
      exact filled

end Change

/-! ## The calls -/

variable {listing : Listing}

/-- What an entry says about the file. -/
abbrev Dirent.link (entry : Dirent) : List UInt8 × Nat := (entry.name, entry.inode)

/-- The names and inodes of the entries. -/
def entries (listing : Listing) : List (List UInt8 × Nat) := (records listing).map Dirent.link

/-- The entries in use. -/
def live (listing : Listing) : List (List UInt8 × Nat) :=
  (entries listing).filter fun entry => entry.2 ≠ 0

/-- The first entry with a name, in use or not. -/
def firstNamed (listing : Listing) (name : List UInt8) : Option (List UInt8 × Nat) :=
  (entries listing).find? fun entry => entry.1 = name

theorem Spot.entries_put (spot : Spot) (new : List Dirent) : entries (spot.put new) =
    spot.earlier.map Dirent.link ++ new.map Dirent.link ++ spot.later.map Dirent.link := by
  rw [entries, records_put, map_append, map_append]

theorem firstNamed_spot (isSpot : spot.Of vol listing)
    (noneBefore : ∀ other ∈ spot.earlier, other.name ≠ name) (hasName : spot.entry.name = name) :
    firstNamed listing name = some spot.entry.link := by
  rw [firstNamed, isSpot.listing_eq, spot.entries_put, find?_eq_some_iff_append]
  refine ⟨decide_eq_true hasName, spot.earlier.map Dirent.link, spot.later.map Dirent.link, by simp, ?_⟩
  rw [List.forall_mem_map]
  exact fun other mem => by simpa using noneBefore other mem

theorem firstNamed_none (noneNamed : ∀ other ∈ records listing, other.name ≠ name) :
    firstNamed listing name = none := by
  rw [firstNamed, entries, List.find?_eq_none, List.forall_mem_map]
  exact fun other mem => by simpa using noneNamed other mem

section Calls

variable {listing : Listing} (directory : Directory vol num listing)

include directory

theorem named_ends (lists : Lists ino (listing.map Prod.fst)) (name : List UInt8) :
    Ends vol ino listing (fun entry => entry.name = name) (walk vol ino (isNamed vol name)) := by
  apply walk_ends directory lists
  intro buf offset _
  rw [isNamed, directory.kib]
  by_cases length : name.length = (direntAt buf offset).name.length
  · rw [if_neg (not_not.mpr length), if_pos (by omega), some.injEq, decide_eq_decide]
    exact eq_comm
  · rw [if_pos length, some.injEq, eq_comm, decide_eq_false_iff_not]
    exact fun equal => length (by rw [equal])

/-- `ext2_lookup` gives the first entry with the name, in use or not. -/
theorem lookup_spec (name : List UInt8) :
    lookup vol num name = match firstNamed listing name with
      | some entry => (readInode vol entry.2).map fun cino => .ok (entry.2, cino)
      | none => some (.error (-Fs.enoent)) := by
  obtain ⟨_, isIno, lists⟩ := directory.inode
  rw [lookup, isIno, bind_some]
  rcases named_ends directory lists name with
    ⟨_, isSpot, noneBefore, hasName, _, walked⟩ | ⟨noneNamed, _, walked⟩
  · rw [firstNamed_spot isSpot (by simpa using noneBefore) (by simpa using hasName), walked]
    simp only [bind_some, isSpot.here.1]
  · rw [firstNamed_none (by simpa using noneNamed), walked]
    rfl

/-- `ext2_unlink` clears the first entry with the name, in use or not. -/
theorem unlink_spec (name : List UInt8) :
    (∃ spot : Spot, spot.Of vol listing ∧ (∀ other ∈ spot.earlier, other.name ≠ name) ∧
      spot.entry.name = name ∧ ∃ after, unlink vol num name = some (after, 0) ∧
        Directory after num (spot.put [cleared spot.entry.size])) ∨
    ((∀ other ∈ records listing, other.name ≠ name) ∧ unlink vol num name = some (vol, -Fs.enoent)) := by
  obtain ⟨_, isIno, lists⟩ := directory.inode
  rw [unlink, isIno]
  rcases named_ends directory lists name with
    ⟨spot, isSpot, noneBefore, hasName, isBlk, walked⟩ | ⟨noneNamed, _, walked⟩
  · obtain ⟨isEntry, fits, rest⟩ := isSpot.here
    have fits : direntBytes + spot.entry.name.length ≤ spot.entry.size := fits
    have inside : spot.offset + (replicate spot.entry.size (0 : UInt8)).length ≤ 1024 := by
      have short := rest.length_le
      have isSize : dirents.size spot.entry = spot.entry.size := rfl
      rw [length_replicate]
      omega
    have small : spot.entry.size < 2 ^ 16 := isEntry ▸ le16_lt
    obtain ⟨placed, same⟩ := @clear_spec (vol.disk spot.blk) _ spot.offset spot.entry.size
      (by rw [direntBytes] at fits; omega) small rfl
    have changed := directory.replace isSpot same placed
    refine Or.inl ⟨spot, isSpot, by simpa using noneBefore, by simpa using hasName, _, ?_, changed⟩
    simp only [walked, bind_some, isEntry, store, directory.kib, if_pos inside, map_some, isBlk]
  · refine Or.inr ⟨by simpa using noneNamed, ?_⟩
    simp only [walked, bind_some]

theorem room_ends (lists : Lists ino (listing.map Prod.fst)) (dirent : Dirent) :
    Ends vol ino listing (hasRoom dirent)
      (walk vol ino fun buf offset => some (hasRoom dirent (direntAt buf offset))) :=
  walk_ends directory lists fun _ _ _ => rfl

theorem appendDirent_eq (noRoom : ∀ entry ∈ records listing, hasRoom dirent entry = false) :
    ∃ pino, Lists pino (listing.map Prod.fst) ∧ appendDirent vol num dirent =
      (allocBlk vol).bind fun taken =>
        let set := setInodeBlk taken.1 pino (sectors pino / (vol.blksize / 512)) taken.2
        (store vol.blksize (fun _ => 0) 0 dirent.bytes).bind fun buf =>
          writeInode (writeBlocks set.1 (put buf 4 (bytes16 vol.blksize))
            (inodeBlk set.1 set.2 listing.length)) num set.2 := by
  obtain ⟨pino, isIno, lists⟩ := directory.inode
  refine ⟨pino, lists, ?_⟩
  rw [appendDirent, isIno, bind_some]
  rcases room_ends directory lists dirent with ⟨spot, isSpot, _, hasRoom, _⟩ | ⟨_, buf, walked⟩
  · have mem : spot.entry ∈ records listing := by simp [isSpot.listing_eq, Spot.records_put]
    rw [noRoom _ mem] at hasRoom
    cases hasRoom
  · rw [walked, bind_some]

section Append

variable (inode : dirent.inode < 2 ^ 32) (nameLen : dirent.name.length < 2 ^ 8)
  (isSize : dirent.size = direntBytes + dirent.name.length)
include inode nameLen isSize

theorem appendDirent_room (room : ∃ entry ∈ records listing, hasRoom dirent entry = true) :
    ∃ spot : Spot, spot.Of vol listing ∧ (∀ other ∈ spot.earlier, hasRoom dirent other = false) ∧
      hasRoom dirent spot.entry = true ∧ ∃ after, appendDirent vol num dirent = some after ∧
      Same vol after ∧ Directory after num (spot.put [{ spot.entry with size := spot.entry.expect },
        { dirent with size := spot.entry.size - spot.entry.expect }]) := by
  obtain ⟨_, isIno, lists⟩ := directory.inode
  rw [appendDirent, isIno]
  rcases room_ends directory lists dirent with
    ⟨spot, isSpot, noneBefore, hasRoom, isBlk, walked⟩ | ⟨noRoom, _⟩
  · obtain ⟨isEntry, _, rest⟩ := isSpot.here
    have short : spot.offset + spot.entry.size + spot.behind.length ≤ 1024 := rest.length_le
    obtain ⟨_, _⟩ := hasRoom_iff.mp hasRoom
    obtain ⟨placed, same⟩ := carve_spec isEntry hasRoom inode nameLen isSize rfl rfl
    have inside : spot.offset + spot.entry.expect + (Dirent.bytes
        { dirent with size := spot.entry.size - spot.entry.expect }).length ≤ 1024 := by
      rw [length_bytes, ← isSize]
      omega
    refine ⟨spot, isSpot, noneBefore, hasRoom, _, ?_, .write _ _ _,
      directory.replace isSpot same placed⟩
    simp only [walked, bind_some, isEntry, store, directory.kib, if_pos inside, map_some, isBlk]
  · obtain ⟨entry, mem, hasRoom⟩ := room
    rw [noRoom entry mem] at hasRoom
    cases hasRoom

theorem appendDirent_full (noRoom : ∀ entry ∈ records listing, hasRoom dirent entry = false)
    (direct : listing.length ≤ 11) (spare : freeTotal vol ≠ 0) (few : vol.groups.length ≤ 32) :
    ∃ after blk, appendDirent vol num dirent = some after ∧ Same vol after ∧
      Directory after num (listing ++ [(blk, [{ dirent with size := 1024 }])]) := by
  obtain ⟨_, lists, isAppend⟩ := appendDirent_eq directory noRoom
  obtain ⟨taken, blk, isTaken, took⟩ := allocBlk_spec directory.wf directory.kib few spare
  have kibTaken : taken.blksize = 1024 := took.same.blksize.trans directory.kib
  have small := took.wasFree.lt directory.wf directory.kib
  obtain ⟨ino', isSet, lists'⟩ := lists.append kibTaken (by rw [length_map]; omega) small
  have isBlk : inodeBlk taken ino' listing.length = blk := by
    rw [inodeBlk, if_pos (by omega)]
    exact lists'.listed _ _ (by simp)
  have inside : 0 + dirent.bytes.length ≤ 1024 := by
    rw [length_bytes, direntBytes]
    omega
  have isEntry : direntAt (put (put (fun _ => 0) 0 dirent.bytes) 4 (bytes16 1024)) 0 =
      { dirent with size := 1024 } := by
    have stored := @direntAt_put (fun _ => 0) 0 dirent inode (by rw [isSize, direntBytes]; omega) nameLen
    have sized := @direntAt_setSize (put (fun _ => 0) 0 dirent.bytes) 0 1024 (by decide)
    rw [stored] at sized
    exact sized
  have fits : direntBytes + dirent.name.length ≤ 1024 := by
    rw [direntBytes]
    omega
  obtain ⟨after, isWritten, same, extended⟩ := directory.extend took lists' ⟨isEntry, fits, rfl⟩
  refine ⟨after, blk, ?_, same, extended⟩
  rw [kibTaken] at isSet
  simp only [isAppend, isTaken, bind_some, directory.kib, isSet, store, if_pos inside, isBlk]
  exact isWritten

theorem appendDirent_inserts (direct : listing.length ≤ 11) (spare : freeTotal vol ≠ 0)
    (roomOrFew : (∃ entry ∈ records listing, hasRoom dirent entry = true) ∨ vol.groups.length ≤ 32) :
    ∃ after listing' before behind, appendDirent vol num dirent = some after ∧ Same vol after ∧
      Directory after num listing' ∧ entries listing = before ++ behind ∧
      entries listing' = before ++ (dirent.name, dirent.inode) :: behind := by
  by_cases room : ∃ entry ∈ records listing, hasRoom dirent entry = true
  · obtain ⟨spot, isSpot, _, _, after, appended, same, changed⟩ :=
      appendDirent_room directory inode nameLen isSize room
    refine ⟨after, _, (spot.earlier ++ [spot.entry]).map Dirent.link, spot.later.map Dirent.link,
      appended, same, changed, ?_, ?_⟩
    · rw [isSpot.listing_eq, Spot.entries_put, map_append]
    · simp [Spot.entries_put]
  · have few := roomOrFew.resolve_left room
    have noRoom : ∀ entry ∈ records listing, hasRoom dirent entry = false := by simpa using room
    obtain ⟨after, _, appended, same, extended⟩ :=
      appendDirent_full directory inode nameLen isSize noRoom direct spare few
    refine ⟨after, _, entries listing, [], appended, same, extended, (append_nil _).symm, ?_⟩
    simp [entries]

end Append

end Calls

theorem Directory.unique {other : Listing} (first : Directory vol num listing)
    (second : Directory vol num other) : listing = other := by
  obtain ⟨_, isIno, lists⟩ := first.inode
  obtain ⟨_, isIno', lists'⟩ := second.inode
  obtain rfl := some.inj (isIno.symm.trans isIno')
  have length : listing.length = other.length := by
    have count := lists.count.symm.trans lists'.count
    rw [length_map, length_map] at count
    omega
  apply ext_getElem length
  intro i inside inside'
  have sameBlk : listing[i].1 = other[i].1 := by
    rw [← lists.listed i listing[i].1 (by simp [inside]), lists'.listed i other[i].1 (by simp [inside'])]
  have tiles := first.tiled listing[i] (getElem_mem inside)
  rw [sameBlk] at tiles
  exact Prod.ext sameBlk (tiles.unique (second.tiled other[i] (getElem_mem inside')))

/-! ## The directory as a map -/

/-- The number of the inode that `ext2_lookup` finds. -/
def lookupIno (vol : Volume) (num : Nat) (name : List UInt8) : Option (Except Int Nat) :=
  (lookup vol num name).map fun result => result.map Prod.fst

/-- `ext2_append_dirent` adds an entry to those in use.  Other names are found as before, and
the name is if it was not in use. -/
def Appends (vol : Volume) (num : Nat) (listing : Listing) (name : List UInt8) (inode : Nat)
    (type : UInt8) : Prop :=
  ∃ after listing', appendDirent vol num (newDirent inode type name) = some after ∧
    Directory after num listing' ∧ (live listing').Perm ((name, inode) :: live listing) ∧
    (∀ other, other ≠ name → lookupIno after num other = lookupIno vol num other) ∧
    ((∀ entry ∈ live listing, entry.1 ≠ name) → lookupIno after num name = some (.ok inode))

/-- `ext2_unlink` removes the first entry in use that has the name, or changes nothing. -/
def Unlinks (vol : Volume) (num : Nat) (listing : Listing) (name : List UInt8) : Prop :=
  ((∃ entry ∈ live listing, entry.1 = name) →
    ∃ after listing', unlink vol num name = some (after, 0) ∧ Directory after num listing' ∧
      live listing' = (live listing).eraseP fun entry => entry.1 = name) ∧
  ((∀ entry ∈ live listing, entry.1 ≠ name) → unlink vol num name = some (vol, -Fs.enoent))

section Map

variable {listing : Listing} (directory : Directory vol num listing)
include directory

theorem lookupIno_spec (name : List UInt8) :
    lookupIno vol num name = match firstNamed listing name with
      | some entry => (readInode vol entry.2).map fun _ => .ok entry.2
      | none => some (.error (-Fs.enoent)) := by
  rw [lookupIno, lookup_spec directory]
  cases firstNamed listing name with
  | some entry =>
    simp only [Option.map_map]
    rfl
  | none => rfl

theorem appends_of {inode : Nat} {type : UInt8} (direct : listing.length ≤ 11)
    (spare : freeTotal vol ≠ 0) (valid : ValidIno vol inode) (nameLen : name.length < 2 ^ 8)
    (roomOrFew : (∃ entry ∈ records listing, hasRoom (newDirent inode type name) entry = true) ∨
      vol.groups.length ≤ 32)
    (firstLive : ∀ entry, firstNamed listing name = some entry → entry.2 ≠ 0) :
    Appends vol num listing name inode type := by
  have small : inode < 2 ^ 32 := Nat.lt_of_le_of_lt valid.2 directory.wf.inodeCnt
  obtain ⟨after, listing', before, behind, appended, same, changed, isOld, isNew⟩ :=
    @appendDirent_inserts _ (newDirent inode type name) _ _ directory small nameLen rfl direct spare
        roomOrFew
  have isNew : entries listing' = before ++ (name, inode) :: behind := isNew
  have nonzero : inode ≠ 0 := Nat.pos_iff_ne_zero.mp valid.1
  refine ⟨after, listing', appended, changed, ?_, fun other ne => ?_, fun absent => ?_⟩
  · rw [live, live, isOld, isNew, filter_append, filter_append,
      filter_cons_of_pos (by simpa using nonzero)]
    exact perm_middle
  · have sameFirst : firstNamed listing' other = firstNamed listing other := by
      rw [firstNamed, firstNamed, isOld, isNew, find?_append, find?_append,
        find?_cons_of_neg (by simpa using Ne.symm ne)]
    rw [lookupIno_spec changed, lookupIno_spec directory, sameFirst]
    cases firstNamed listing other with
    | some entry => exact same.readInode_map entry.2 _
    | none => rfl
  · have notOld : firstNamed listing name = none := by
      cases found : firstNamed listing name with
      | none => rfl
      | some entry =>
        have isEntry := mem_of_find?_eq_some found
        have isLive : entry ∈ live listing :=
          mem_filter.mpr ⟨isEntry, by simpa using firstLive entry found⟩
        have hasName := find?_some found
        exact absurd (of_decide_eq_true hasName) (absent entry isLive)
    have found : firstNamed listing' name = some (name, inode) := by
      rw [firstNamed, isOld, find?_append, or_eq_none_iff] at notOld
      rw [firstNamed, isNew, find?_append, notOld.1, none_or, find?_cons_of_pos (by simp)]
    obtain ⟨_, isPlace, inside, _⟩ := inodePlace_spec changed.wf (valid.same same)
    rw [lookupIno_spec changed, found]
    dsimp only
    rw [readInode_at isPlace inside, map_some]

/-- `ext2_unlink` is right unless the first entry with the name is not in use. -/
theorem unlinks_iff (name : List UInt8) : Unlinks vol num listing name ↔
    ∀ entry, firstNamed listing name = some entry → entry.2 ≠ 0 := by
  rcases unlink_spec directory name with
    ⟨spot, isSpot, noneBefore, hasName, after, unlinked, changed⟩ | ⟨noneNamed, unlinked⟩
  · have first := firstNamed_spot isSpot noneBefore hasName
    have old : entries listing =
        spot.earlier.map Dirent.link ++ spot.entry.link :: spot.later.map Dirent.link := by
      rw [isSpot.listing_eq, Spot.entries_put]
      simp
    have left : live (spot.put [cleared spot.entry.size]) =
        (spot.earlier.map Dirent.link ++ spot.later.map Dirent.link).filter fun entry => entry.2 ≠ 0 := by
      rw [live, Spot.entries_put]
      simp [cleared]
    constructor
    · intro unlinks entry isFirst unused
      obtain rfl := some.inj (first.symm.trans isFirst)
      have same : live (spot.put [cleared spot.entry.size]) = live listing := by
        rw [left, live, old, filter_append, filter_append,
          filter_cons_of_neg (by simpa using unused)]
      by_cases inUse : ∃ entry ∈ live listing, entry.1 = name
      · obtain ⟨_, _, unlinked', changed', erased⟩ := unlinks.1 inUse
        obtain ⟨isAfter, _⟩ := Prod.mk.inj (some.inj (unlinked'.symm.trans unlinked))
        obtain rfl := changed'.unique (isAfter ▸ changed)
        obtain ⟨entry, mem, hasName⟩ := inUse
        have shorter : ((live listing).eraseP fun entry => entry.1 = name).length =
            (live listing).length - 1 := length_eraseP_of_mem mem (by simpa using hasName)
        rw [← erased, same] at shorter
        have some_ := length_pos_of_mem mem
        omega
      · have nothing := unlinks.2 fun entry mem hasName => inUse ⟨entry, mem, hasName⟩
        obtain ⟨_, result⟩ := Prod.mk.inj (some.inj (unlinked.symm.trans nothing))
        exact absurd result (by decide)
    · intro firstLive
      have inUse : spot.entry.link ∈ live listing := by
        rw [live, old, mem_filter]
        exact ⟨by simp, by simpa using firstLive _ first⟩
      refine ⟨fun _ => ⟨after, _, unlinked, changed, ?_⟩, fun absent => absurd hasName (absent _ inUse)⟩
      have noneLeft : ∀ entry ∈ (spot.earlier.map Dirent.link).filter fun entry => entry.2 ≠ 0,
          ¬ decide (entry.1 = name) = true := by
        intro entry mem
        obtain ⟨other, isOther, rfl⟩ := mem_map.mp (mem_filter.mp mem).1
        simpa using noneBefore other isOther
      rw [left, live, old, filter_append, filter_append,
        filter_cons_of_pos (by simpa using firstLive _ first), eraseP_append_right _ noneLeft,
        eraseP_cons_of_pos (by simpa using hasName)]
  · have noneUsed : ∀ entry ∈ live listing, entry.1 ≠ name := by
      intro entry mem
      obtain ⟨other, isOther, rfl⟩ := mem_map.mp (mem_filter.mp mem).1
      exact noneNamed other isOther
    rw [firstNamed_none noneNamed]
    constructor
    · exact fun _ _ found => absurd found (by simp)
    · intro _
      exact ⟨fun ⟨entry, mem, hasName⟩ => absurd hasName (noneUsed entry mem), fun _ => unlinked⟩

/-- With more than 32 groups `ext2_append_dirent` cannot add a block. -/
theorem appendDirent_none (spare : freeTotal vol ≠ 0) (many : 32 < vol.groups.length)
    (noRoom : ∀ entry ∈ records listing, hasRoom dirent entry = false) :
    appendDirent vol num dirent = none := by
  obtain ⟨_, _, isAppend⟩ := appendDirent_eq directory noRoom
  rw [isAppend, allocBlk_none directory.wf directory.kib many spare, bind_none]

end Map

/-- The calls treat a directory of at most eleven blocks as a map from names to inodes, exactly
when the first entry with the name, if there is one, is in use, and the new entry finds
room or the group descriptors fit into one block. -/
theorem append_unlink_iff {vol : Volume} {num : Nat} {listing : Listing} {name : List UInt8}
    {inode : Nat} {type : UInt8} (directory : Directory vol num listing) (direct : listing.length ≤ 11)
    (spare : ∃ blk, Free vol blk) (named : 1 ≤ name.length ∧ name.length ≤ 255)
    (valid : ValidIno vol inode) :
    Appends vol num listing name inode type ∧ Unlinks vol num listing name ↔
      (∀ entry, firstNamed listing name = some entry → entry.2 ≠ 0) ∧
      ((∃ entry ∈ records listing, hasRoom (newDirent inode type name) entry = true) ∨
        vol.groups.length ≤ 32) := by
  obtain ⟨blk, isFree⟩ := spare
  have total := isFree.total directory.wf
  rw [unlinks_iff directory]
  constructor
  · rintro ⟨⟨_, _, appended, _⟩, firstLive⟩
    refine ⟨firstLive, ?_⟩
    by_cases many : 32 < vol.groups.length
    · left
      by_contra noRoom
      rw [appendDirent_none directory total many (by simpa using noRoom)] at appended
      cases appended
    · exact .inr (Nat.le_of_not_lt many)
  · rintro ⟨firstLive, roomOrFew⟩
    exact ⟨appends_of directory direct total valid (by omega) roomOrFew firstLive, firstLive⟩

/-- An entry named `a` that fills a block. -/
def fullEntry (inode : Nat) : Dirent := ⟨inode, 1024, 1, [0x61]⟩

/-- A small volume with a directory, inode 12, whose only block is filled by one entry. -/
def linkVolume (inode : Nat) : Volume :=
  smallVolume 0x7f 57 fun blk =>
    if blk = 6 then fun k => if k = 412 then 2 else if k = 424 then 7 else 0
    else if blk = 7 then put (fun _ => 0) 0 (fullEntry inode).bytes
    else fun _ => 0

theorem linkVolume_directory {inode : Nat} (small : inode < 2 ^ 32)
    (isIno : readInode (linkVolume inode) 12 = some ino) (isSectors : sectors ino = 2)
    (isBlk : blocks ino 0 = 7) : Directory (linkVolume inode) 12 [(7, [fullEntry inode])] where
  wf := smallVolume_wellFormed (by decide) (by decide)
  kib := rfl
  valid := by simp [ValidIno, linkVolume, smallVolume]
  inode := by
    refine ⟨ino, isIno, isSectors, by simp, ?_⟩
    intro i _ isListed
    cases i with
    | zero =>
      rw [isBlk]
      simpa using isListed
    | succ i => simp at isListed
  nodup := nodup_singleton _
  used := by
    simp only [map_cons, map_nil, forall_mem_singleton]
    constructor
    · simp [linkVolume, smallVolume_metaBlks]
    · intro isFree
      obtain ⟨j, _, isBlk, unset⟩ := smallVolume_free isFree
      obtain rfl : j = 6 := by omega
      exact absurd unset (by decide)
  tiled := by
    rw [forall_mem_singleton]
    have isEntry : direntAt (put (fun _ => 0) 0 (fullEntry inode).bytes) 0 = fullEntry inode :=
      direntAt_put small (by simp [fullEntry]) (by simp [fullEntry])
    exact ⟨isEntry, by simp [dirents, fullEntry, direntBytes], rfl⟩

/-- A second entry of the name is added, and one of the two removed. -/
theorem append_unlink_duplicate :
    Appends (linkVolume 13) 12 [(7, [fullEntry 13])] [0x61] 14 1 ∧
      Unlinks (linkVolume 13) 12 [(7, [fullEntry 13])] [0x61] := by
  have directory : Directory (linkVolume 13) 12 [(7, [fullEntry 13])] :=
    linkVolume_directory (by decide) rfl (by decide +kernel) (by decide +kernel)
  have spare : ∃ blk, Free (linkVolume 13) blk :=
    ⟨8, 0, 7, _, rfl, by decide, rfl, by decide +kernel⟩
  apply (append_unlink_iff directory (by decide) spare (by decide) ⟨by decide, by decide⟩).mpr
  refine ⟨?_, .inr (by decide)⟩
  intro _ isFirst
  have first : firstNamed [(7, [fullEntry 13])] [0x61] = some ([0x61], 13) := by decide
  obtain rfl := some.inj (first.symm.trans isFirst)
  decide

/-- An entry that is not in use still has its name.  `ext2_lookup` of the name reads an inode
that does not exist, and `ext2_unlink` reports success. -/
theorem unused_name_found : Directory (linkVolume 0) 12 [(7, [fullEntry 0])] ∧
    (∃ blk, Free (linkVolume 0) blk) ∧ ValidIno (linkVolume 0) 14 ∧
    live [(7, [fullEntry 0])] = [] ∧ lookup (linkVolume 0) 12 [0x61] = none ∧
    ¬ Unlinks (linkVolume 0) 12 [(7, [fullEntry 0])] [0x61] := by
  have directory : Directory (linkVolume 0) 12 [(7, [fullEntry 0])] :=
    linkVolume_directory (by decide) rfl (by decide +kernel) (by decide +kernel)
  refine ⟨directory, ⟨8, 0, 7, _, rfl, by decide, rfl, by decide +kernel⟩,
    ⟨by decide, by decide⟩, by decide, ?_, ?_⟩
  · decide
  · rw [unlinks_iff directory]
    intro firstLive
    exact firstLive ([0x61], 0) (by decide) rfl

end Micro.Ext2
