import Micro.Lib.Bytes

/-!
# Partitions

`mbr_init` and `gpt_init` register the partitions of a disk.  What is read from a partition or
written to it is moved by its start; its end is not looked at.
-/

namespace Micro.Kern

open Lib

/-- `struct partdev` without the device -/
structure Partdev where
  start : Nat
  stop : Nat
  deriving DecidableEq

/-- The partitions that `mbr_init` finds in the four entries of the first sector. -/
def mbrInit (disk : Buf) : List Partdev :=
  (List.range 4).filterMap fun i =>
    let part := 0x1be + 16 * i
    if disk (part + 4) = 0 then none
    else some ⟨le32 disk (part + 8), (le32 disk (part + 8) + le32 disk (part + 12)) % 2 ^ 32⟩

/-- `unused` of an entry whose type is zero -/
def unused (ent : Buf) : Bool := (List.range 16).all fun i => ent i == 0

/-- The loop of `gpt_init`, with `n` entries to go; `none` when an entry is copied over the end of
`ent` or from behind the buffer.  An entry of less than 128 bytes leaves the rest of `ent`. -/
def gptLoop (disk : Buf) (partsize : Nat) : (n blk off : Nat) → (ent : Buf) → Option (List Partdev)
  | 0, _, _, _ => some []
  | n + 1, blk, off, ent =>
      let (blk, off) := if off ≥ 512 then (blk + 1, 0) else (blk, off)
      if partsize ≤ 128 ∧ off + partsize ≤ 512 then
        let ent := put ent 0 (slice disk (1024 + blk * 512 + off) partsize)
        let rest := gptLoop disk partsize n blk (off + partsize) ent
        if unused ent then rest else rest.map (⟨le64 ent 32, le64 ent 40⟩ :: ·)
      else none

/-- `gpt_init`, with what is on the stack -/
def gptInit (disk ent : Buf) : Option (List Partdev) :=
  gptLoop disk (le32 disk (512 + 84)) (le32 disk (512 + 80)) 0 0 ent

/-- The two kinds of tables. -/
inductive PartTable where
  | mbr
  | gpt

def PartTable.init (disk ent : Buf) : PartTable → Option (List Partdev)
  | .mbr => some (mbrInit disk)
  | .gpt => gptInit disk ent

/-- The sector behind the last one; the end is the last sector only in the one of the tables. -/
def PartTable.past (part : Partdev) : PartTable → Nat
  | .mbr => part.stop
  | .gpt => part.stop + 1

/-- The offset at which `part_read` and `part_write` call the device. -/
def partOff (part : Partdev) (off : Int) : Int := (off + part.start * 512).bmod (2 ^ 64)

/-- The device is only asked for bytes of the partition. -/
def Confined (table : PartTable) (part : Partdev) (off : Int) (size : Nat) : Prop :=
  ∀ byte, partOff part off ≤ byte → byte < partOff part off + size →
    (part.start * 512 : Int) ≤ byte ∧ byte < table.past part * 512

/-- A request stays in the partition exactly when it is one for bytes of it. -/
theorem confined_iff (table : PartTable) (disk ent : Buf) {off : Int} (size : Nat)
    (isOff : -2 ^ 63 ≤ off ∧ off < 2 ^ 63) :
    ∀ parts, table.init disk ent = some parts → ∀ part ∈ parts,
      Confined table part off size ↔ size = 0 ∨ 0 ≤ off ∧ off + part.start * 512 < 2 ^ 63 ∧
        off + part.start * 512 + size ≤ table.past part * 512 := by
  intro _ _ part _
  have inRange : -2 ^ 63 ≤ partOff part off ∧ partOff part off < 2 ^ 63 :=
    ⟨Int.le_bmod (by decide), Int.bmod_lt (by decide)⟩
  obtain ⟨_, _⟩ : (2 ^ 64 : Int) ∣ off + part.start * 512 - partOff part off :=
    Int.dvd_self_sub_bmod
  constructor
  · intro confined
    by_cases none_ : size = 0
    · exact .inl none_
    · have first := confined (partOff part off) (Int.le_refl _) (by omega)
      have last := confined (partOff part off + size - 1) (by omega) (by omega)
      exact .inr (by omega)
  · rintro (rfl | _) _ _ _
    · omega
    · omega

/-- A table with one partition, of sectors 8 to 15. -/
def onePart : Buf := put (fun _ => 0) (0x1be + 4) [1, 0, 0, 0, 8, 0, 0, 0, 8, 0, 0, 0]

theorem confined_iff_first : Confined .mbr ⟨8, 16⟩ 0 4096 :=
  (confined_iff .mbr onePart onePart 4096 (by decide) _ rfl ⟨8, 16⟩ (by decide)).mpr (.inr (by decide))

/-- The sector behind the partition is read. -/
theorem reads_behind_partition : mbrInit onePart = [⟨8, 16⟩] ∧ ¬ Confined .mbr ⟨8, 16⟩ 4096 512 := by
  refine ⟨by decide, fun confined => ?_⟩
  exact absurd (confined 8192 (by decide) (by decide)) (by decide)

/-! ## The entries of a GPT -/

/-- The partitions of `n` entries of some size from a position on. -/
def gptEntries (disk : Buf) (partsize : Nat) : (n pos : Nat) → List Partdev
  | 0, _ => []
  | n + 1, pos =>
      let ent : Buf := fun i => disk (pos + i)
      let rest := gptEntries disk partsize n (pos + partsize)
      if unused ent then rest else ⟨le64 ent 32, le64 ent 40⟩ :: rest

section Gpt

variable (disk : Buf)

def partcnt : Nat := le32 disk (512 + 80)

def partsize : Nat := le32 disk (512 + 84)

/-- The position of the block `header.partarray` -/
def partarray : Nat := le64 disk (512 + 72) * 512

/-- `gpt_init` stays inside of its buffers and registers the entries of the array. -/
def ParsesGpt : Prop :=
  ∀ ent, gptInit disk ent = some (gptEntries disk (partsize disk) (partcnt disk) (partarray disk))

end Gpt

section

variable {disk : Buf}

theorem unused_copied (ent : Buf) (pos : Nat) :
    unused (put ent 0 (slice disk pos 128)) = unused fun i => disk (pos + i) := by
  rw [unused, unused, Bool.eq_iff_iff, List.all_eq_true, List.all_eq_true]
  refine forall₂_congr fun i mem => ?_
  have inside : i < 128 := by
    rw [List.mem_range] at mem
    omega
  have copied := @put_inside 0 i _ ent _ (@getElem?_slice pos i disk 128 inside)
  rw [Nat.zero_add] at copied
  rw [copied]

theorem gptLoop_eq {n blk off : Nat} {ent : Buf} (whole : off % 128 = 0) (inside : off ≤ 512) :
    gptLoop disk 128 n blk off ent = some (gptEntries disk 128 n (1024 + blk * 512 + off)) := by
  induction n generalizing blk off ent with
  | zero => rfl
  | succ n ih =>
    obtain ⟨blk', off', isNext, isPos, whole', inside'⟩ : ∃ blk' off',
        (if off ≥ 512 then (blk + 1, 0) else (blk, off)) = (blk', off') ∧
        blk * 512 + off = blk' * 512 + off' ∧ off' % 128 = 0 ∧ off' + 128 ≤ 512 := by
      split
      · exact ⟨blk + 1, 0, rfl, by omega, rfl, by decide⟩
      · exact ⟨blk, off, rfl, rfl, whole, by omega⟩
    rw [Nat.add_assoc, isPos, ← Nat.add_assoc, gptLoop, isNext]
    simp only [inside', Nat.le_refl, and_self, if_true, unused_copied,
      ih (show (off' + 128) % 128 = 0 by omega) inside']
    rw [gptEntries]
    split
    · rfl
    · rfl

/-- The entries are the registered ones exactly when there are none, or when they have 128 bytes and
those from block 2 on, which are read, say the same. -/
theorem parsesGpt_iff (k : Nat) (isSize : partsize disk = 128 * 2 ^ k) :
    ParsesGpt disk ↔ partcnt disk = 0 ∨ k = 0 ∧
      gptEntries disk 128 (partcnt disk) 1024 = gptEntries disk 128 (partcnt disk) (partarray disk) := by
  rw [ParsesGpt, isSize]
  have isInit : ∀ ent, gptInit disk ent = gptLoop disk (128 * 2 ^ k) (partcnt disk) 0 0 ent := by
    intro ent
    rw [← isSize]
    rfl
  simp only [isInit]
  cases isCnt : partcnt disk with
  | zero => simp [gptLoop, gptEntries]
  | succ n =>
    by_cases isOne : k = 0
    · subst isOne
      simp [gptLoop_eq]
    · have large : ¬ (128 * 2 ^ k ≤ 128) := by
        have := Nat.pow_le_pow_right (show 0 < 2 by decide) (Nat.pos_of_ne_zero isOne)
        omega
      simp [gptLoop, large, isOne]

end

/-- A disk with an entry at block 2, and an array of one entry at some block -/
def oneEntry (partarray : Nat) : Buf :=
  put (put (fun _ => 0) (512 + 72) (bytes64 partarray ++ bytes32 1 ++ bytes32 128)) 1024 [1]

theorem parsesGpt_iff_block2 : ParsesGpt (oneEntry 2) :=
  (parsesGpt_iff 0 (by decide)).mpr (.inr ⟨rfl, by decide⟩)

/-- The array is at block 3. -/
theorem array_not_found : ¬ ParsesGpt (oneEntry 3) := by
  intro parses
  exact absurd (parses fun _ => 0) (by decide)

end Micro.Kern
