import Micro.Ext2.BlockMap
import Micro.Ext2.Inode

/-!
# File contents

The loops of `ext2_read` and `ext2_write` over the blocks of a file, for any block size and any
block map.  A range that ends with a block takes them one block further, from which nothing is
copied.
-/

namespace Micro.Ext2

open Lib List Option

variable {off size i : Nat} {vol : Volume} {ino : Buf}

/-- The bytes of a file, by the number of the block for each index. -/
def fileBytes (vol : Volume) (map : Nat → Nat) : Buf := fun p =>
  vol.disk (map (p / vol.blksize)) (p % vol.blksize)

/-- No block was written but those of a file. -/
structure OnlyBlocks (vol after : Volume) (map : Nat → Nat) (count : Nat) : Prop where
  disk : after = { vol with disk := after.disk }
  others : ∀ b, (∀ i < count, b ≠ map i) → after.disk b = vol.disk b

/-- The blocks of a file are different ones, and `ext2_inode_blk` gives them, whatever they
hold. -/
structure Mapped (vol : Volume) (ino : Buf) (map : Nat → Nat) (count : Nat) : Prop where
  injective : ∀ {i j}, i < count → j < count → map i = map j → i = j
  blk : ∀ {after}, OnlyBlocks vol after map count → ∀ i < count, inodeBlk after ino i = map i

/-- `ext2_inode_blk` stays inside of the blocks of pointers up to a block. -/
def StaysInside (vol : Volume) (ino : Buf) (last : Nat) : Prop :=
  ∀ after : Volume, after.blksize = vol.blksize → ∀ i ≤ last,
    inodeBlkChecked after ino i = some (inodeBlk after ino i)

section Chunk

variable {b : Nat} (positive : 0 < b) (from_ : off / b ≤ i)
include positive from_

/-- Where the part of a range that is in block `i` begins. -/
theorem chunk_start : b * i + (if i = off / b then off % b else 0) = max (b * i) off := by
  have split := Nat.div_add_mod off b
  have below := Nat.mod_lt off positive
  rcases Nat.eq_or_lt_of_le from_ with rfl | later
  · rw [if_pos rfl]
    omega
  · have past := Nat.mul_le_mul_left b (Nat.succ_le_of_lt later)
    rw [Nat.mul_succ] at past
    rw [if_neg (by omega)]
    omega

/-- The size of the part, as `ext2_write` computes it. -/
theorem chunk_wsize (upTo : i ≤ (size + off) / b) :
    b - (if i = off / b then off % b else 0) -
      (if i = (size + off) / b then b - (size + off) % b else 0) =
    min (b * (i + 1)) (off + size) - max (b * i) off := by
  rw [← chunk_start positive from_, Nat.mul_add_one]
  have splitEnd := Nat.div_add_mod (size + off) b
  generalize (if i = off / b then off % b else 0) = modoff
  rcases Nat.eq_or_lt_of_le upTo with rfl | earlier
  · rw [if_pos rfl]
    omega
  · have past := Nat.mul_le_mul_left b (Nat.succ_le_of_lt earlier)
    rw [Nat.mul_succ] at past
    rw [if_neg (by omega)]
    omega

/-- The size of the part, as `ext2_read` computes it. -/
theorem chunk_bytes (upTo : i ≤ (size + off) / b) :
    (if i = (size + off) / b then min ((size + off) % b) size
      else b - (if i = off / b then off % b else 0)) =
    min (b * (i + 1)) (off + size) - max (b * i) off := by
  rw [← chunk_wsize positive from_ upTo]
  have start := @chunk_start off i b positive from_
  have splitEnd := Nat.div_add_mod (size + off) b
  have belowEnd := Nat.mod_lt (size + off) positive
  by_cases last : i = (size + off) / b
  · rw [if_pos last, if_pos last]
    split_ifs at start ⊢ with first
    · rw [last] at start
      omega
    · rw [last] at start
      omega
  · rw [if_neg last, if_neg last, Nat.sub_zero]

end Chunk

section Loops

variable {map : Nat → Nat} {count : Nat} {data : List UInt8} {start : Nat}
  (positive : 0 < vol.blksize)

theorem fileBytes_at (inside : start < vol.blksize) :
    fileBytes vol map (vol.blksize * i + start) = vol.disk (map i) start := by
  rw [fileBytes, Nat.mul_add_div (by omega), Nat.div_eq_of_lt inside, Nat.mul_add_mod,
    Nat.mod_eq_of_lt inside, Nat.add_zero]

include positive

/-- On the disk the bytes of the range are changed, and no others. -/
theorem OnlyBlocks.disk_outside {after : Volume} (only : OnlyBlocks vol after map count)
    (bytes : ∀ p < vol.blksize * count, fileBytes after map p = put (fileBytes vol map) off data p)
    {b : Nat} (below : start < vol.blksize) (notWritten : ∀ p, off ≤ p → p < off + data.length →
      ¬ (map (p / vol.blksize) = b ∧ p % vol.blksize = start)) :
    after.disk b start = vol.disk b start := by
  have sameSize : after.blksize = vol.blksize := by rw [only.disk]
  by_cases ofFile : ∃ i < count, b = map i
  · obtain ⟨i, inMap, rfl⟩ := ofFile
    have inside : vol.blksize * i + start < vol.blksize * count := by
      have past := Nat.mul_le_mul_left vol.blksize (Nat.succ_le_of_lt inMap)
      rw [Nat.mul_succ] at past
      omega
    have written := bytes _ inside
    have there := @fileBytes_at i after map start (sameSize ▸ below)
    rw [sameSize, written, put_outside, fileBytes_at below] at there
    · exact there.symm
    · by_contra range
      apply notWritten (vol.blksize * i + start) (by omega) (by omega)
      rw [Nat.mul_add_div positive, Nat.div_eq_of_lt below, Nat.mul_add_mod,
        Nat.mod_eq_of_lt below]
      exact ⟨rfl, rfl⟩
  · rw [only.others b fun i inMap same => ofFile ⟨i, inMap, same⟩]

theorem fileBytes_write (injective : ∀ {i j}, i < count → j < count → map i = map j → i = j)
    (inMap : i < count) {chunk : List UInt8} (fits : start + chunk.length ≤ vol.blksize) {p : Nat}
    (inside : p < vol.blksize * count) :
    fileBytes (writeBlocks vol (put (vol.disk (map i)) start chunk) (map i)) map p =
      put (fileBytes vol map) (vol.blksize * i + start) chunk p := by
  obtain ⟨j, t, below, rfl⟩ : ∃ j t, t < vol.blksize ∧ p = vol.blksize * j + t :=
    ⟨_, _, Nat.mod_lt p positive, (Nat.div_add_mod p vol.blksize).symm⟩
  have inMap' : j < count := Nat.lt_of_mul_lt_mul_left (Nat.lt_of_le_of_lt (Nat.le_add_right _ t) inside)
  have now := @fileBytes_at j (writeBlocks vol (put (vol.disk (map i)) start chunk) (map i)) map t
      below
  have was := @fileBytes_at j vol map t below
  refine now.trans ?_
  by_cases here : j = i
  · subst here
    simp only [writeBlocks_disk_self, put, was, Nat.add_le_add_iff_left, Nat.add_sub_add_left]
  · have ne : map j ≠ map i := fun same => here (injective inMap' inMap same)
    rw [writeBlocks_disk_ne vol _ ne, put_outside, was]
    rcases Nat.lt_or_gt_of_ne here with before | behind
    · have past := Nat.mul_le_mul_left vol.blksize (Nat.succ_le_of_lt before)
      rw [Nat.mul_succ] at past
      omega
    · have past := Nat.mul_le_mul_left vol.blksize (Nat.succ_le_of_lt behind)
      rw [Nat.mul_succ] at past
      omega

/-- The loop of `ext2_write` before block `i`: so much of the data is in its place. -/
structure Written (vol : Volume) (map : Nat → Nat) (count : Nat) (data : List UInt8) (off i : Nat)
    (state : Volume × Nat) : Prop where
  only : OnlyBlocks vol state.1 map count
  ptroff : off + state.2 = min (max (vol.blksize * i) off) (off + data.length)
  bytes : ∀ p < vol.blksize * count,
    fileBytes state.1 map p = put (fileBytes vol map) off (data.take state.2) p

variable (mapped : Mapped vol ino map count)
include mapped

section

variable (room : off + data.length ≤ vol.blksize * count)
  (inside : StaysInside vol ino ((data.length + off) / vol.blksize))
include room inside

theorem writeRound_spec {state : Volume × Nat} (from_ : off / vol.blksize ≤ i)
    (upTo : i ≤ (data.length + off) / vol.blksize)
    (written : Written vol map count data off i state) :
    ∃ next, writeRound ino data (off / vol.blksize) (off % vol.blksize)
      ((data.length + off) / vol.blksize) ((data.length + off) % vol.blksize) state i = some next ∧
      Written vol map count data off (i + 1) next := by
  obtain ⟨v, ptr⟩ := state
  obtain ⟨only, isPtr, isBytes⟩ := written
  dsimp only at only isPtr isBytes
  have sameSize : v.blksize = vol.blksize := by rw [only.disk]
  have begins := chunk_start positive from_
  have amount := @chunk_wsize off data.length i vol.blksize positive from_ upTo
  have low : (if i = off / vol.blksize then off % vol.blksize else 0) < vol.blksize := by
    split
    · exact Nat.mod_lt _ positive
    · exact positive
  simp only [writeRound, inside v sameSize i upTo, bind_some, sameSize]
  rw [← begins] at amount isPtr
  generalize (if i = off / vol.blksize then off % vol.blksize else 0) = start
    at begins amount low isPtr ⊢
  rw [amount]
  generalize isSize : min (vol.blksize * (i + 1)) (off + data.length) - (vol.blksize * i + start) =
    wsize
  rw [Nat.mul_add_one] at isSize
  have length : ((data.drop ptr).take wsize).length = wsize := by
    rw [length_take, length_drop]
    omega
  have fits : start + ((data.drop ptr).take wsize).length ≤ vol.blksize := by
    omega
  simp only [store, if_pos fits, map_some]
  refine ⟨_, rfl, ?_⟩
  have ends : off + (ptr + wsize) = min (max (vol.blksize * (i + 1)) off) (off + data.length) := by
    rw [Nat.mul_add_one]
    omega
  by_cases nothing : wsize = 0
  · subst nothing
    rw [take_zero, put_nil, writeBlocks_readBlocks]
    exact ⟨only, ends, isBytes⟩
  · have inMap : i < count := Nat.lt_of_mul_lt_mul_left (a := vol.blksize) (by omega)
    rw [mapped.blk only i inMap]
    refine ⟨⟨by rw [writeBlocks, only.disk], ?_⟩, ends, ?_⟩
    · intro b notBlk
      rw [writeBlocks_disk_ne v _ (notBlk i inMap)]
      exact only.others b notBlk
    · intro p inside
      have taken : (data.take ptr).length = ptr := by
        rw [length_take]
        omega
      have here : vol.blksize * i + start = off + (data.take ptr).length := by omega
      have step := @fileBytes_write i v map count start (sameSize ▸ positive) mapped.injective inMap
          ((data.drop ptr).take wsize) (sameSize ▸ fits) p (sameSize ▸ inside)
      rw [readBlocks, step, sameSize, here, take_add, ← put_append]
      rw [put, put, isBytes p inside]

theorem writeLoop_spec (small : vol.blksize * count < 2 ^ 64) (few : count < 2 ^ 32) :
    ∃ done, writeLoop vol ino data off = some done ∧ OnlyBlocks vol done.1 map count ∧
      ∀ p < vol.blksize * count, fileBytes done.1 map p = put (fileBytes vol map) off data p := by
  have last : (data.length + off) / vol.blksize ≤ count := Nat.div_le_of_le_mul (by omega)
  have first : off / vol.blksize ≤ (data.length + off) / vol.blksize := Nat.div_le_div_right (by omega)
  have sum : addWord data.length off = data.length + off := addWord_of_lt (by omega)
  have startblk : off / vol.blksize % 2 ^ 32 = off / vol.blksize := Nat.mod_eq_of_lt (by omega)
  have endblk : (data.length + off) / vol.blksize % 2 ^ 32 = (data.length + off) / vol.blksize :=
    Nat.mod_eq_of_lt (by omega)
  have rounds : ∀ {left i : Nat} {state : Volume × Nat}, off / vol.blksize ≤ i →
      i + left = (data.length + off) / vol.blksize + 1 → Written vol map count data off i state →
      ∃ done, (range' i left).foldlM (writeRound ino data (off / vol.blksize)
        (off % vol.blksize) ((data.length + off) / vol.blksize) ((data.length + off) % vol.blksize))
        state = some done ∧
        Written vol map count data off ((data.length + off) / vol.blksize + 1) done := by
    intro left
    induction left with
    | zero =>
      intro i state _ isLast written
      exact ⟨state, rfl, isLast ▸ written⟩
    | succ left ih =>
      intro i state from_ isLast written
      obtain ⟨_, isNext, written⟩ :=
        writeRound_spec positive mapped room inside from_ (by omega) written
      obtain ⟨done, isDone, written⟩ := ih (by omega) (by omega) written
      refine ⟨done, ?_, written⟩
      rw [range'_succ, foldlM_cons, isNext]
      exact isDone
  have begins := Nat.mul_div_le off vol.blksize
  have start : Written vol map count data off (off / vol.blksize) (vol, 0) :=
    ⟨⟨rfl, fun _ _ => rfl⟩, by omega, fun _ _ => by simp⟩
  obtain ⟨done, isDone, written⟩ := @rounds _ _ _ le_rfl (Nat.add_sub_of_le (by omega)) start
  refine ⟨done, ?_, written.only, fun p inside => ?_⟩
  · simp only [writeLoop, sum, startblk, endblk]
    exact isDone
  · have ends := Nat.lt_mul_div_succ (data.length + off) positive
    have all : done.2 = data.length := by
      have isPtr := written.ptroff
      omega
    rw [written.bytes p inside, all, take_length]

end

variable (room : off + size ≤ vol.blksize * count)
  (inside : StaysInside vol ino ((size + off) / vol.blksize))
include room inside

theorem readRound_spec (from_ : off / vol.blksize ≤ i) (upTo : i ≤ (size + off) / vol.blksize) :
    readRound vol ino size (off / vol.blksize) (off % vol.blksize) ((size + off) / vol.blksize)
      ((size + off) % vol.blksize) i =
      some (slice (fileBytes vol map) (max (vol.blksize * i) off)
        (min (vol.blksize * (i + 1)) (off + size) - max (vol.blksize * i) off)) := by
  have begins := chunk_start positive from_
  simp only [readRound, inside vol rfl i upTo, map_some, some.injEq]
  rw [chunk_bytes positive from_ upTo, readBlocks, ← begins]
  generalize (if i = off / vol.blksize then off % vol.blksize else 0) = start at begins ⊢
  generalize isCount : min (vol.blksize * (i + 1)) (off + size) - (vol.blksize * i + start) = bytes
  rw [Nat.mul_add_one] at isCount
  by_cases nothing : bytes = 0
  · rw [nothing]
    rfl
  · have inMap : i < count := Nat.lt_of_mul_lt_mul_left (a := vol.blksize) (by omega)
    rw [mapped.blk ⟨rfl, fun _ _ => rfl⟩ i inMap]
    apply ext_getElem?
    intro t
    by_cases inside : t < bytes
    · rw [getElem?_slice inside, getElem?_slice inside, Nat.add_assoc, fileBytes_at (by omega)]
    · rw [getElem?_eq_none (by simpa using inside), getElem?_eq_none (by simpa using inside)]

theorem readLoop_spec (small : vol.blksize * count < 2 ^ 64) (few : count < 2 ^ 32) :
    readLoop vol ino off size = some (slice (fileBytes vol map) off size) := by
  have last : (size + off) / vol.blksize ≤ count := Nat.div_le_of_le_mul (by omega)
  have first : off / vol.blksize ≤ (size + off) / vol.blksize := Nat.div_le_div_right (by omega)
  have sum : addWord size off = size + off := addWord_of_lt (by omega)
  have startblk : off / vol.blksize % 2 ^ 32 = off / vol.blksize := Nat.mod_eq_of_lt (by omega)
  have endblk : (size + off) / vol.blksize % 2 ^ 32 = (size + off) / vol.blksize :=
    Nat.mod_eq_of_lt (by omega)
  have begins := Nat.mul_div_le off vol.blksize
  have ends := Nat.lt_mul_div_succ (size + off) positive
  have rounds : ∀ {left i : Nat}, off / vol.blksize ≤ i → i + left = (size + off) / vol.blksize + 1 →
      ((range' i left).mapM (readRound vol ino size (off / vol.blksize) (off % vol.blksize)
        ((size + off) / vol.blksize) ((size + off) % vol.blksize))).map flatten =
      some (slice (fileBytes vol map) (max (vol.blksize * i) off)
        (off + size - max (vol.blksize * i) off)) := by
    intro left
    induction left with
    | zero =>
      intro i _ isLast
      rw [← isLast, Nat.add_zero] at ends
      have nothing : off + size - max (vol.blksize * i) off = 0 := by omega
      rw [nothing]
      rfl
    | succ left ih =>
      intro i from_ isLast
      obtain ⟨rest, isRest, bytes⟩ := map_eq_some_iff.mp (ih (i := i + 1) (by omega) (by omega))
      rw [range'_succ, mapM_cons, readRound_spec positive mapped room inside from_ (by omega), isRest]
      change some (_ ++ rest.flatten) = _
      rw [bytes]
      generalize isNext : vol.blksize * (i + 1) = next
      rw [Nat.mul_add_one] at isNext
      by_cases done : off + size ≤ next
      · have nothing : off + size - max next off = 0 := by omega
        rw [nothing, Nat.min_eq_right done, slice_zero, append_nil]
      · have total : off + size - max (vol.blksize * i) off =
            (min next (off + size) - max (vol.blksize * i) off) + (off + size - max next off) := by
          omega
        have goesOn : max (vol.blksize * i) off +
            (min next (off + size) - max (vol.blksize * i) off) = max next off := by
          omega
        rw [total, slice_add, goesOn]
  simp only [readLoop, sum, startblk, endblk]
  rw [rounds le_rfl (Nat.add_sub_of_le (by omega)), Nat.max_eq_right begins,
    Nat.add_sub_cancel_left]

end Loops

/-- `ext2_read` stops at the end of the file. -/
theorem read_spec {num fileSize : Nat} {buf : Buf} (isIno : readInode vol num = some ino)
    (isWord : off + size < 2 ^ 64)
    (part : off ≤ fileSize → readLoop vol ino off (min size (fileSize - off)) =
      some (slice buf off (min size (fileSize - off)))) :
    read vol num fileSize off size =
      some (slice buf off (min size (fileSize - off)), min size (fileSize - off)) := by
  have sum : addWord off size = off + size := addWord_of_lt isWord
  simp only [read, sum, isIno, bind_some]
  by_cases beyond : off > fileSize
  · rw [if_pos beyond, Nat.sub_eq_zero_of_le (Nat.le_of_lt beyond), Nat.min_zero, slice_zero]
  rw [if_neg beyond]
  have part := part (Nat.not_lt.mp beyond)
  by_cases past : off + size > fileSize
  · have all : min size (fileSize - off) = fileSize - off := by omega
    rw [all] at part ⊢
    simp only [past, if_true, true_and, part, map_some]
    split_ifs with nothing
    · rw [nothing, slice_zero]
    · rfl
  · have all : min size (fileSize - off) = size := by omega
    rw [all] at part ⊢
    simp only [past, if_false, false_and, part, map_some]

/-! ## In place -/

/-- The blocks of pointers that `ext2_inode_blk` reads. -/
def pointerBlks (vol : Volume) (ino : Buf) (i : Nat) : List Nat :=
  let bpp := vol.blksize / 4
  let dind := dindStart vol
  let tind := tindStart vol
  let pointer blk index := le32 (readBlocks vol blk) (4 * index)
  let sindBlk := pointer (blocks ino 14) ((i - dind) / bpp)
  if i < 12 then []
  else if i < dind then [blocks ino 12]
  else if i < tind then [blocks ino 13, pointer (blocks ino 13) ((i - dind) / bpp)]
  else [blocks ino 14, sindBlk, pointer sindBlk ((i - tind) / bpp)]

/-- A file none of whose blocks is there twice, is also a block of pointers of the file, or has
its inode. -/
structure InPlace (vol : Volume) (num : Nat) (ino : Buf) (count : Nat) : Prop where
  inode : readInode vol num = some ino
  injective : ∀ {i j}, i < count → j < count → inodeBlk vol ino i = inodeBlk vol ino j → i = j
  pointers : ∀ {i j}, i < count → j < count → inodeBlk vol ino i ∉ pointerBlks vol ino j
  table : ∀ i < count, inodeBlk vol ino i ≠ inodeTblBlk vol num

section InPlace

variable {num k : Nat}

theorem inodeBlk_congr {after : Volume} (sameSize : after.blksize = vol.blksize)
    (same : ∀ b ∈ pointerBlks vol ino i, after.disk b = vol.disk b) :
    inodeBlk after ino i = inodeBlk vol ino i := by
  have sameDind : dindStart after = dindStart vol := by rw [dindStart, dindStart, sameSize]
  have sameTind : tindStart after = tindStart vol := by
    rw [tindStart, tindStart, sameSize, sameDind]
  simp only [pointerBlks, readBlocks] at same
  simp only [inodeBlk, readBlocks, sameSize, sameDind, sameTind]
  split
  · rfl
  rename_i single
  rw [if_neg single] at same
  split
  · rename_i double
    rw [if_pos double] at same
    rw [same _ (by simp)]
  rename_i double
  rw [if_neg double] at same
  split
  · rename_i triple
    rw [if_pos triple] at same
    rw [same (blocks ino 13) (by simp), same _ (by simp)]
  · rename_i triple
    rw [if_neg triple] at same
    rw [same (blocks ino 14) (by simp), same (le32 (vol.disk (blocks ino 14)) _) (by simp),
      same _ (by simp)]

theorem InPlace.mapped {count : Nat} (file : InPlace vol num ino count) :
    Mapped vol ino (inodeBlk vol ino) count where
  injective := file.injective
  blk := by
    intro _ only i inside
    apply inodeBlk_congr
    · rw [only.disk]
    · intro b isPointer
      apply only.others b
      rintro j inside' rfl
      exact file.pointers inside' inside isPointer

variable (isSize : vol.blksize = 1024 * 2 ^ k) (small : k ≤ 21)
include isSize small

theorem staysInside_of_lt {last : Nat} (inside : last < mapEnd vol) : StaysInside vol ino last := by
  intro after same i upTo
  apply inodeBlkChecked_inside (same.trans isSize) small
  rw [mapEnd, same]
  exact Nat.lt_of_le_of_lt upTo inside

theorem mapEnd_lt : mapEnd vol < 2 ^ 31 := by
  have upTo : 2 ^ k ≤ 2 ^ 21 := Nat.pow_le_pow_right (by decide) small
  rw [mapEnd_eq isSize]
  split
  · have most : 2 ^ k ≤ 2 ^ 7 := Nat.pow_le_pow_right (by decide) (by omega)
    have square := Nat.pow_le_pow_left (show vol.blksize / 4 ≤ 2 ^ 15 by omega) 2
    omega
  · omega

end InPlace

/-- `ext2_write` with the count that it returns -/
def writeCount (vol : Volume) (num fileSize off : Nat) (data : List UInt8) :
    Option (Volume × Nat × Nat) :=
  (write vol num fileSize off data).map fun done => (done.1, done.2, data.length)

/-- A volume whose inode 1 has block 9. -/
def noteVolume : Volume where
  blksize := 1024
  blksPerGrp := 8192
  inodesPerGrp := 8
  inodeSz := 128
  groups := [⟨3, 4, 5, 0, 0, 0, []⟩]
  disk := fun blk => if blk = 5 then put (fun _ => 0) 40 [9] else fun _ => 0

def words (value : Nat → Nat) : Buf := fun k => (bytes32 (value (k / 4))).getD (k % 4) 0

theorem le32_words {value : Nat → Nat} (n : Nat) : le32 (words value) (4 * n) = value n % 2 ^ 32 := by
  apply le32_of_slice
  have place : ∀ t < 4, (4 * n + t) / 4 = n ∧ (4 * n + t) % 4 = t := by omega
  have second := place 1 (by decide)
  have third := place 2 (by decide)
  have fourth := place 3 (by decide)
  simp [slice, range'_succ, words, second, third, fourth, bytes32, bytes16]

/-- An inode with twelve blocks from 2^20 on, and the blocks of pointers 10 and 11. -/
def longInode : Buf := words fun n =>
  if n = 22 then 10 else if n = 23 then 11 else 2 ^ 20 + (n - 10)

/-- A volume with a file that has all blocks up to the doubly indirect ones. -/
def longVolume : Volume where
  blksize := 1024
  blksPerGrp := 8192
  inodesPerGrp := 8
  inodeSz := 128
  groups := [⟨3, 4, 5, 0, 0, 0, []⟩]
  disk := fun blk =>
    if blk = 5 then longInode
    else if blk = 10 then words fun n => 2 ^ 20 + 12 + n
    else if blk = 11 then words fun n => 2 ^ 10 + n
    else words fun n => 2 ^ 20 + 268 + 256 * (blk - 2 ^ 10) + n

theorem longVolume_blk (inside : i < 65804) : inodeBlk longVolume longInode i = 2 ^ 20 + i ∧
    ∀ b ∈ pointerBlks longVolume longInode i, b < 2 ^ 20 := by
  have isBlocks : ∀ j, blocks longInode j =
      (if 10 + j = 22 then 10 else if 10 + j = 23 then 11 else 2 ^ 20 + (10 + j - 10)) % 2 ^ 32 := by
    intro j
    rw [blocks, show 40 + 4 * j = 4 * (10 + j) by omega]
    exact le32_words _
  have pointers : dindStart longVolume = 268 ∧ tindStart longVolume = 65804 ∧
      longVolume.blksize / 4 = 256 := by decide
  obtain ⟨isDind, isTind, isCount⟩ := pointers
  have single : blocks longInode 12 = 10 := by rw [isBlocks]; rfl
  have double : blocks longInode 13 = 11 := by rw [isBlocks]; rfl
  have atTen : ∀ n, le32 (longVolume.disk 10) (4 * n) = (2 ^ 20 + 12 + n) % 2 ^ 32 := fun n => le32_words n
  have atEleven : ∀ n, le32 (longVolume.disk 11) (4 * n) = (2 ^ 10 + n) % 2 ^ 32 := fun n => le32_words n
  simp only [inodeBlk, pointerBlks, isDind, isTind, isCount, readBlocks, single, double, atTen, atEleven]
  split_ifs with direct one
  · rw [isBlocks, if_neg (by omega), if_neg (by omega)]
    refine ⟨by omega, by simp⟩
  · refine ⟨by omega, by simp⟩
  · have row : (i - 268) / 256 < 256 := by omega
    generalize isRow : (i - 268) / 256 = r at row
    have others : ¬ (2 ^ 10 + r) % 2 ^ 32 = 5 ∧ ¬ (2 ^ 10 + r) % 2 ^ 32 = 10 ∧
        ¬ (2 ^ 10 + r) % 2 ^ 32 = 11 := by omega
    simp only [longVolume, others, if_false, le32_words, mem_cons, not_mem_nil, or_false,
      forall_eq_or_imp, forall_eq]
    omega

end Micro.Ext2
