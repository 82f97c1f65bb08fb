import Micro.Fat.Clusters
import Micro.Lib.Search

/-!
# Free clusters and loops over chains

`fat_alloc_clus` takes the number of clusters from a field that is zero on FAT32 volumes.  The
loops over a chain follow the links of the table for as long as they lead on.
-/

namespace Micro.Fat

open Lib Function Relation

/-! ## Free clusters -/

/-- A data cluster of a volume of so many sectors. -/
def InVolume (vol : Volume) (largeSectorCnt cluster : Nat) : Prop :=
  2 ≤ cluster ∧ dataStart vol + (cluster - 1) * vol.sectorsPerCluster ≤ largeSectorCnt

/-- A free data cluster is found if there is one, and nothing but data clusters. -/
def AllocatesFree (vol : Volume) (largeSectorCnt : Nat) : Prop :=
  ((∃ c, InVolume vol largeSectorCnt c ∧ fatTableRead vol c = 0) →
    InVolume vol largeSectorCnt (fatAllocClus vol) ∧ fatTableRead vol (fatAllocClus vol) = 0) ∧
  (fatAllocClus vol ≠ 0 → InVolume vol largeSectorCnt (fatAllocClus vol))

theorem fatAllocClus_fat32 {vol : Volume} (fat32 : vol.sectorCnt = 0) : fatAllocClus vol = 0 := by
  simp [fatAllocClus, fat32]

/-- On a FAT32 volume the allocation is right exactly when there is nothing to allocate. -/
theorem alloc_complete_iff (vol : Volume) (largeSectorCnt : Nat) (fat32 : vol.sectorCnt = 0) :
    AllocatesFree vol largeSectorCnt ↔
      ∀ c, InVolume vol largeSectorCnt c → fatTableRead vol c ≠ 0 := by
  rw [AllocatesFree, fatAllocClus_fat32 fat32]
  constructor
  · intro allocates c inVolume free
    exact absurd (allocates.1 ⟨c, inVolume, free⟩).1.1 (by decide)
  · intro full
    exact ⟨fun ⟨c, inVolume, free⟩ => absurd free (full c inVolume), fun notZero => absurd rfl notZero⟩

/-- A volume with 8 sectors in front of the data area and this byte everywhere. -/
def uniform (byte : UInt8) : Volume := ⟨4, 2, 2, 1, 0, fun _ _ => byte⟩

/-- A volume with no free cluster. -/
theorem alloc_complete_iff_full : AllocatesFree (uniform 1) 100 :=
  (alloc_complete_iff (uniform 1) 100 rfl).mpr fun c _ => by simp [uniform, fatTableRead, le32, le16]

/-- All clusters are free, and none is found. -/
theorem free_cluster_not_found : ¬ AllocatesFree (uniform 0) 100 := by
  intro allocates
  have found := allocates.1 ⟨2, ⟨by decide, by decide⟩, by decide⟩
  exact absurd found.1.1 (by decide)

/-! ## Loops over a chain -/

variable {vol : Volume} {clus : Nat}

/-- The loop of `fat_cchain_cnt` is left at the first link that is not one. -/
theorem chainCount_isSome {fuel clus : Nat} : (chainCount vol fuel clus).isSome =
    (loopUntil chainEnds (fatTableRead vol) fuel (fatTableRead vol clus)).isSome := by
  induction fuel generalizing clus with
  | zero => rfl
  | succ fuel ih =>
    unfold chainCount loopUntil
    by_cases ends : chainEnds (fatTableRead vol clus) = true
    · simp [ends]
    · simp [ends, ih]

/-- The sector that `fat_dirent_append` has read has an unused entry. -/
def hasUnused (state : Volume × Nat) : Bool :=
  (firstUnused (state.1.disk (clus2lba state.1 state.2))).isSome

/-- A round of the loop of `fat_dirent_append` that finds no unused entry: the volume and the
cluster it goes on with. -/
def appendRound (state : Volume × Nat) : Volume × Nat :=
  let next := fatTableRead state.1 state.2
  if next ≥ 0xffffff8 then
    let next := fatAllocClus state.1
    (fatTableWrite (fatTableWrite state.1 state.2 next) next 0xffffff8, next)
  else (state.1, next)

/-- The loop of `fat_dirent_append`, wherever the links lead. -/
def appendLoop (fuel : Nat) (state : Volume × Nat) : Option (Volume × Nat) :=
  loopUntil hasUnused appendRound fuel state

/-- What `fat_dirent_append` writes, it writes where its loop is left. -/
theorem direntAppend_loop {dirent : List UInt8} {fuel : Nat} {after : Volume}
    (appended : direntAppend dirent fuel clus vol = some after) :
    ∃ state j,
      appendLoop fuel (vol, clus) = some state ∧
      after = writeSectors state.1 (put (state.1.disk (clus2lba state.1 state.2)) (32 * j) dirent)
        (clus2lba state.1 state.2) := by
  induction fuel generalizing clus vol after with
  | zero => exact nomatch appended
  | succ fuel ih =>
    obtain ⟨_, isBuf, appended⟩ := Option.bind_eq_some_iff.mp appended
    obtain ⟨_, isBuf⟩ := Option.ite_none_right_eq_some.mp isBuf
    obtain rfl := Option.some.inj isBuf
    cases found : firstUnused (vol.disk (clus2lba vol clus)) with
    | some j =>
      rw [found] at appended
      refine ⟨(vol, clus), j, ?_, (Option.some.inj appended).symm⟩
      simp [appendLoop, loopUntil, hasUnused, found]
    | none =>
      have goesOn : appendLoop (fuel + 1) (vol, clus) = appendLoop fuel (appendRound (vol, clus)) := by
        simp [appendLoop, loopUntil, hasUnused, found]
      rw [found] at appended
      rw [goesOn, appendRound]
      dsimp only at appended ⊢
      split_ifs at appended ⊢
      · exact ih appended
      · exact ih appended

/-! ## Where the links lead -/

theorem finite_links (vol : Volume) : (Set.range (fatTableRead vol)).Finite := by
  apply (Set.finite_lt_nat (2 ^ 32)).subset
  rintro _ ⟨_, rfl⟩
  exact le32_lt

/-- `fat_dirent_append` does not follow the link of the cluster: there is an unused entry, or the
chain ends. -/
def appendStops (vol : Volume) (clus : Nat) : Bool :=
  hasUnused (vol, clus) || decide (fatTableRead vol clus ≥ 0xffffff8)

/-- The chain that ended at a cluster goes on with cluster 0, where it ends. -/
def closedAtZero (vol : Volume) (clus : Nat) : Volume :=
  fatTableWrite (fatTableWrite vol clus 0) 0 0xffffff8

/-- `fat_dirent_append` comes to an end. -/
def AppendEnds (vol : Volume) (clus : Nat) : Prop := ∃ fuel, (appendLoop fuel (vol, clus)).isSome

theorem appendRound_link (goesOn : appendStops vol clus = false) :
    hasUnused (vol, clus) = false ∧
      appendRound (vol, clus) = (vol, fatTableRead vol clus) := by
  simp only [appendStops, Bool.or_eq_false_iff, decide_eq_false_iff_not] at goesOn
  exact ⟨goesOn.1, by rw [appendRound, if_neg goesOn.2]⟩

theorem appendEnds_of_leads {last : Nat}
    (leads : ReflTransGen (Goes (appendStops vol) (fatTableRead vol)) clus last) :
    AppendEnds vol clus ↔ AppendEnds vol last := by
  induction leads with
  | refl => rfl
  | tail _ goes ih =>
    obtain ⟨goesOn, rfl⟩ := goes
    obtain ⟨full, round⟩ := appendRound_link goesOn
    rw [ih, AppendEnds, AppendEnds, ← round]
    exact loopUntil_step full

theorem not_appendEnds_of_cycles
    (cycles : Cycles (appendStops vol) (fatTableRead vol) clus) : ¬ AppendEnds vol clus := by
  rintro ⟨fuel, ends⟩
  induction fuel generalizing clus with
  | zero => cases ends
  | succ fuel ih =>
    obtain ⟨goesOn, cyclesNext⟩ := cycles.next
    obtain ⟨full, round⟩ := appendRound_link goesOn
    rw [appendLoop, loopUntil, full, round] at ends
    exact ih cyclesNext ends

theorem fatTableWrite_twice (vol : Volume) (i before value : Nat) :
    fatTableWrite (fatTableWrite vol i before) i value = fatTableWrite vol i value := by
  simp only [fatTableWrite, writeSectors, fatSector, update_self, update_idem]
  rw [put_put (show (bytes32 value).length = (bytes32 before).length from rfl)]

section

variable (fat32 : vol.sectorCnt = 0)
include fat32

theorem appendRound_closedAtZero :
    appendRound (closedAtZero vol clus, 0) = (closedAtZero vol clus, 0) := by
  have none : fatAllocClus (closedAtZero vol clus) = 0 := fatAllocClus_fat32 fat32
  have ended : fatTableRead (closedAtZero vol clus) 0 = 0xffffff8 := fatTableRead_write (by decide)
  simp only [appendRound, ended, none, ge_iff_le, le_refl, if_true]
  simp only [closedAtZero, fatTableWrite_twice]

theorem appendEnds_at_end (full : hasUnused (vol, clus) = false)
    (atEnd : fatTableRead vol clus ≥ 0xffffff8) :
    AppendEnds vol clus ↔ hasUnused (closedAtZero vol clus, 0) = true := by
  have round : appendRound (vol, clus) = (closedAtZero vol clus, 0) := by
    simp only [appendRound, if_pos atEnd, fatAllocClus_fat32 fat32, closedAtZero]
  simp only [AppendEnds, appendLoop]
  rw [loopUntil_step full, round, loopUntil_ends]
  simp only [iterate_fixed (appendRound_closedAtZero fat32), exists_const]

/-- `fat_dirent_append` ends exactly when the links it follows lead to no cycle, and if they lead
to the end of the chain with no unused entry on the way, cluster 0 has one. -/
theorem appendEnds_iff : AppendEnds vol clus ↔
    ¬ Cycles (appendStops vol) (fatTableRead vol) clus ∧
      ∀ last, ReflTransGen (Goes (appendStops vol) (fatTableRead vol)) clus last →
        fatTableRead vol last ≥ 0xffffff8 →
          hasUnused (vol, last) = true ∨ hasUnused (closedAtZero vol last, 0) = true := by
  constructor
  · intro ends
    refine ⟨fun cycles => not_appendEnds_of_cycles cycles ends, fun last leads atEnd => ?_⟩
    cases full : hasUnused (vol, last) with
    | true => exact .inl rfl
    | false => exact .inr ((appendEnds_at_end fat32 full atEnd).mp ((appendEnds_of_leads leads).mp ends))
  · rintro ⟨noCycle, supplied⟩
    obtain ⟨fuel, isSome⟩ := (loopUntil_ends_iff (finite_links vol)).mpr noCycle
    obtain ⟨last, isLast⟩ := Option.isSome_iff_exists.mp isSome
    obtain ⟨leads, stops⟩ := loopUntil_some isLast
    rw [appendEnds_of_leads leads]
    cases full : hasUnused (vol, last) with
    | true => exact ⟨1, by rw [appendLoop, loopUntil, full]; rfl⟩
    | false =>
      have atEnd : fatTableRead vol last ≥ 0xffffff8 := by simpa [appendStops, full] using stops
      rw [appendEnds_at_end fat32 full atEnd]
      exact (supplied last leads atEnd).resolve_left (by rw [full]; exact Bool.false_ne_true)

end

/-- A table in which cluster 2 is linked to itself. -/
def selfLinked : Volume := ⟨4, 2, 2, 1, 0, fun _ k => if k % 4 = 0 then 2 else 0⟩

end Micro.Fat
