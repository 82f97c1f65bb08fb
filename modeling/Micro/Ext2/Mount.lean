import Micro.Ext2.Model

/-!
# Geometry of a volume that is mounted

`ext2_mount` checks the signature of the superblock and no other field.  Its divisions, its shift
and the accesses to the group descriptors are modelled here with what can go wrong in them.
-/

namespace Micro.Ext2

open Lib

/-- A division; `none` when it is one by zero. -/
def divided (a b : Nat) : Option (Nat × Nat) := if b = 0 then none else some (a / b, a % b)

/-- A shift of 32-bit numbers; `none` when it is one by 32 or more. -/
def shifted (a n : Nat) : Option Nat := if n < 32 then some (a <<< n % 2 ^ 32) else none

/-- The place that `ext2_read_inode` computes, with divisions by two of the fields. -/
def placeChecked (vol : Volume) (num : Nat) : Option (Nat × Nat) :=
  if vol.inodesPerGrp = 0 ∨ vol.blksize = 0 then none else inodePlace vol num

def groupCnt (sb : Buf) : Nat :=
  if le32 sb 4 % le32 sb 32 ≠ 0 then le32 sb 4 / le32 sb 32 + 1 else le32 sb 4 / le32 sb 32

/-- `ext2_mount` of a superblock, with the group descriptors that are on the device -/
def mount (sb : Buf) (bgds : Nat → Bgd) (disk : Nat → Buf) : Option (Except Int Volume) :=
  if le16 sb 56 ≠ 0xef53 then some (.error (-22))
  else do
    let blksize ← shifted 1024 (le32 sb 24)
    let _ ← divided (le32 sb 4) (le32 sb 32)
    let _ ← divided (groupCnt sb * 32) blksize
    let vol : Volume :=
      { blksize, blksPerGrp := le32 sb 32, inodesPerGrp := le32 sb 40, inodeSz := le16 sb 88,
        groups := (List.range (groupCnt sb)).map bgds, disk }
    let _ ← placeChecked vol 2
    some (.ok vol)

/-- What `ext2_alloc_blk` does with the geometry: it looks at the groups, and shifts to a bit. -/
def AllocSafe (vol : Volume) : Prop :=
  (∀ i < vol.groups.length, vol.groups[i]?.isSome) ∧ ∀ j, (shifted 1 (j % 8)).isSome

/-- Nothing goes wrong in the mount, nor with the inodes and blocks of the volume afterwards. -/
def MountsSafely (sb : Buf) (bgds : Nat → Bgd) (disk : Nat → Buf) : Prop :=
  ∃ result, mount sb bgds disk = some result ∧ ∀ vol, result = .ok vol →
    AllocSafe vol ∧ ∀ num, 1 ≤ num → num ≤ le32 sb 0 → (placeChecked vol num).isSome

theorem placeChecked_isSome {vol : Volume} {num : Nat} (first : 1 ≤ num) (fits : num < 2 ^ 32) :
    (placeChecked vol num).isSome ↔ vol.inodesPerGrp ≠ 0 ∧ vol.blksize ≠ 0 ∧
      (num - 1) / vol.inodesPerGrp < vol.groups.length := by
  have isIndex : (num + (2 ^ 32 - 1)) % 2 ^ 32 = num - 1 := by omega
  rw [placeChecked, inodePlace, isIndex]
  split
  · rename_i zero
    exact iff_of_false (by simp) fun safe => zero.elim safe.1 safe.2.1
  · rename_i notZero
    rw [not_or] at notZero
    simp [notZero.1, notZero.2]

theorem blksize_eq_zero : ∀ n < 32, 1024 <<< n % 2 ^ 32 = 0 ↔ 22 ≤ n := by decide

theorem allocSafe (vol : Volume) : AllocSafe vol := by
  refine ⟨fun i inside => by simp [inside], fun j => ?_⟩
  rw [shifted, if_pos (by omega)]
  rfl

/-- The fields with which nothing goes wrong. -/
def Usable (sb : Buf) : Prop :=
  le32 sb 24 < 22 ∧ le32 sb 32 ≠ 0 ∧ le32 sb 40 ≠ 0 ∧
    (max (le32 sb 0) 2 - 1) / le32 sb 40 < groupCnt sb

/-- A volume is mounted safely exactly when its superblock is not accepted or can be used. -/
theorem mount_safe_iff (sb : Buf) (bgds : Nat → Bgd) (disk : Nat → Buf) :
    MountsSafely sb bgds disk ↔ (le16 sb 56 = 0xef53 → Usable sb) := by
  by_cases isExt2 : le16 sb 56 = 0xef53
  swap
  · simp [MountsSafely, mount, isExt2]
  by_cases shifts : le32 sb 24 < 32
  swap
  · simp [MountsSafely, mount, Usable, shifted, shifts]
    omega
  by_cases zero : le32 sb 32 = 0
  · simp [MountsSafely, mount, Usable, divided, zero]
  have isZero := blksize_eq_zero _ shifts
  generalize isSize : 1024 <<< le32 sb 24 % 2 ^ 32 = blksize at isZero
  by_cases size : blksize = 0
  · have stops : mount sb bgds disk = none := by
      rw [mount, if_neg (not_not_intro isExt2), shifted, if_pos shifts, isSize, size, divided,
        if_neg zero]
      rfl
    simp only [MountsSafely, stops, reduceCtorEq, false_and, exists_false, false_iff]
    exact fun usable => absurd (usable isExt2).1 (by omega)
  generalize isVol : Volume.mk blksize (le32 sb 32) (le32 sb 40) (le16 sb 88)
    ((List.range (groupCnt sb)).map bgds) disk = vol
  have place : ∀ num, 1 ≤ num → num < 2 ^ 32 → ((placeChecked vol num).isSome ↔
      le32 sb 40 ≠ 0 ∧ (num - 1) / le32 sb 40 < groupCnt sb) := by
    intro num first fits
    rw [placeChecked_isSome first fits, ← isVol]
    simp [size]
  have fits := @le32_lt 0 sb
  simp only [MountsSafely, mount, Usable, isExt2, shifted, shifts, divided, zero, isSize, size, isVol,
    Option.bind_eq_bind, Option.bind_some, ne_eq, if_true, forall_true_left,
    not_false_iff, true_and]
  constructor
  · rintro ⟨_, mounted, safe⟩
    obtain ⟨_, isPlace, isResult⟩ := Option.bind_eq_some_iff.mp mounted
    have second := (place 2 (by decide) (by decide)).mp (by rw [isPlace]; rfl)
    refine ⟨by omega, second.1, ?_⟩
    rcases Nat.le_total (le32 sb 0) 2 with few | many
    · rw [Nat.max_eq_right few]
      exact second.2
    · rw [Nat.max_eq_left many]
      have last := (safe vol (Option.some.inj isResult).symm).2 _ (by omega) (Nat.le_refl _)
      exact ((place _ (by omega) fits).mp last).2
  · rintro ⟨_, inodes, inside⟩
    have isSome : ∀ num, 1 ≤ num → num ≤ max (le32 sb 0) 2 → (placeChecked vol num).isSome :=
      fun num first last => (place num first (by omega)).mpr
        ⟨inodes, Nat.lt_of_le_of_lt (Nat.div_le_div_right (by omega)) inside⟩
    obtain ⟨_, isPlace⟩ := Option.isSome_iff_exists.mp (isSome 2 (by decide) (by omega))
    refine ⟨.ok vol, by rw [isPlace]; rfl, fun _ isOther => ?_⟩
    rw [← Except.ok.inj isOther]
    exact ⟨allocSafe vol, fun num first last => isSome num first (by omega)⟩

/-- A superblock with nothing but the signature. -/
theorem mount_divides_by_zero :
    ¬ ∀ bgds disk, MountsSafely (put (fun _ => 0) 56 [0x53, 0xef]) bgds disk := by
  intro safe
  obtain ⟨result, mounted, _⟩ := safe (fun _ => ⟨0, 0, 0, 0, 0, 0, []⟩) fun _ _ => 0
  cases (show none = some result from mounted)

end Micro.Ext2
