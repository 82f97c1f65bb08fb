import Mathlib.Data.Finset.Card
import Mathlib.Data.List.Chain
import Micro.Fat.Listing

/-!
# Cluster chains

The chains that the file allocation table links together, and what `fat_dirent_append` does with
the chain of a directory.  As long as there is an unused entry it writes to the first sector of
one of its clusters.  Otherwise it hangs on the cluster that `fat_alloc_clus` comes up with.
-/

namespace Micro.Fat

open Lib List Option Function

variable {vol other : Volume} {j clusters head c : Nat} {buf : Buf} {disk : Nat → Buf}
  {chain : List Nat}

def Volume.on (vol : Volume) (disk : Nat → Buf) : Volume := { vol with disk := disk }

/-- The sectors in front of the data area. -/
def dataStart (vol : Volume) : Nat := vol.resSectors + vol.fats * vol.sectorsPerFat

/-- A volume as it is formatted, with room for clusters up to a number.  `sector_cnt` has 16 bits
and is zero when it does not suffice. -/
structure Formatted (vol : Volume) (clusters : Nat) : Prop where
  cluster : 0 < vol.sectorsPerCluster
  fats : 0 < vol.fats
  table : clusters ≤ vol.sectorsPerFat * 128
  numbers : clusters ≤ 0xffffff7
  fits : dataStart vol + clusters * vol.sectorsPerCluster < 2 ^ 32
  counted : vol.sectorCnt = 0 ∨ dataStart vol ≤ vol.sectorCnt ∧ vol.sectorCnt < 2 ^ 16

/-! ## The table -/

section Table

variable {i value lba : Nat}

theorem fatTableRead_write (small : value < 2 ^ 32) :
    fatTableRead (fatTableWrite vol i value) i = value := by
  have isSector : (fatTableWrite vol i value).disk (fatSector vol i) =
      put (vol.disk (fatSector vol i)) (fatOff i) (bytes32 value) := update_self ..
  have read := @le32_put_at (fatOff i) 0 value (bytes32 value) [] [] (vol.disk (fatSector vol i))
      (by simp) rfl
  rw [fatTableRead, show fatSector (fatTableWrite vol i value) i = fatSector vol i from rfl, isSector]
  rw [Nat.add_zero] at read
  rw [read, Nat.mod_eq_of_lt small]

theorem fatTableRead_write_ne (ne : i ≠ j) (iSmall : i < 2 ^ 30) (jSmall : j < 2 ^ 30) :
    fatTableRead (fatTableWrite vol i value) j = fatTableRead vol j := by
  rw [fatTableRead, fatTableRead, show fatSector (fatTableWrite vol i value) j = fatSector vol j from rfl]
  by_cases same : fatSector vol j = fatSector vol i
  · have isSector : (fatTableWrite vol i value).disk (fatSector vol j) =
        put (vol.disk (fatSector vol j)) (fatOff i) (bytes32 value) := by
      rw [same]
      exact update_self ..
    rw [isSector]
    apply le32_put_outside
    have four : (bytes32 value).length = 4 := rfl
    simp only [fatSector] at same
    rw [fatOff, fatOff]
    omega
  · rw [show (fatTableWrite vol i value).disk (fatSector vol j) = vol.disk (fatSector vol j) from
      update_of_ne same ..]

theorem fatTableRead_congr (same : disk (fatSector vol i) = vol.disk (fatSector vol i)) :
    fatTableRead (vol.on disk) i = fatTableRead vol i := by
  rw [fatTableRead, show fatSector (vol.on disk) i = fatSector vol i from rfl,
    show (vol.on disk).disk = disk from rfl, same, fatTableRead]

section

variable (formatted : Formatted vol clusters)
include formatted

theorem Formatted.fatSector_lt (inside : i < clusters) : fatSector vol i < dataStart vol := by
  have table := formatted.table
  have copy : vol.sectorsPerFat ≤ vol.fats * vol.sectorsPerFat :=
    Nat.le_mul_of_pos_left _ formatted.fats
  rw [fatSector, dataStart]
  omega

theorem Formatted.clus2lba_eq (two : 2 ≤ i) (inside : i < clusters) :
    clus2lba vol i = dataStart vol + (i - 2) * vol.sectorsPerCluster := by
  have fits := formatted.fits
  obtain ⟨k, rfl⟩ := Nat.exists_eq_add_of_le two
  have below : (2 + k) * vol.sectorsPerCluster ≤ clusters * vol.sectorsPerCluster :=
    Nat.mul_le_mul_right _ (Nat.le_of_lt inside)
  rw [dataStart] at fits
  rw [clus2lba, dataStart, Nat.add_sub_cancel_left]
  rw [Nat.add_mul] at below ⊢
  omega

theorem Formatted.clus2lba_inj (two : 2 ≤ i) (inside : i < clusters) (two' : 2 ≤ j)
    (inside' : j < clusters) (same : clus2lba vol i = clus2lba vol j) : i = j := by
  rw [formatted.clus2lba_eq two inside, formatted.clus2lba_eq two' inside', Nat.add_left_cancel_iff] at same
  have := Nat.eq_of_mul_eq_mul_right formatted.cluster same
  omega

theorem Formatted.on (disk : Nat → Buf) : Formatted (vol.on disk) clusters :=
  ⟨formatted.cluster, formatted.fats, formatted.table, formatted.numbers, formatted.fits,
    formatted.counted⟩

end

theorem Formatted.write (formatted : Formatted vol clusters) :
    Formatted (fatTableWrite vol i value) clusters :=
  formatted.on _

theorem fatAllocClus_cases (vol : Volume) : fatAllocClus vol = 0 ∨ 2 ≤ fatAllocClus vol ∧
    fatAllocClus vol < vol.sectorCnt / vol.sectorsPerCluster ∧
    fatTableRead vol (fatAllocClus vol) = 0 := by
  rw [fatAllocClus]
  cases tried : (range' 2 (vol.sectorCnt / vol.sectorsPerCluster - 2)).find? fun i =>
      fatTableRead vol i = 0 with
  | none => exact .inl rfl
  | some i =>
    obtain ⟨free, mem, -⟩ := find?_range'_eq_some.mp tried
    rw [mem_range'_1] at mem
    refine .inr ⟨mem.1, ?_, by simpa using free⟩
    change i < _
    omega

section

variable (two : 2 ≤ i) (inside : i < vol.sectorCnt / vol.sectorsPerCluster)
  (free : fatTableRead vol i = 0)
include two inside free

theorem fatAllocClus_eq (first : ∀ k, 2 ≤ k → k < i → fatTableRead vol k ≠ 0) :
    fatAllocClus vol = i := by
  have found : (range' 2 (vol.sectorCnt / vol.sectorsPerCluster - 2)).find? (fun i =>
      fatTableRead vol i = 0) = some i := by
    refine find?_range'_eq_some.mpr ⟨by simpa using free, ?_, ?_⟩
    · rw [mem_range'_1]
      omega
    · intro k two' below
      simpa using first k two' below
  rw [fatAllocClus, found, getD_some]

theorem fatAllocClus_le : 2 ≤ fatAllocClus vol ∧ fatAllocClus vol ≤ i := by
  have isTried : i ∈ range' 2 (vol.sectorCnt / vol.sectorsPerCluster - 2) := by
    rw [mem_range'_1]
    omega
  rw [fatAllocClus]
  cases tried : (range' 2 (vol.sectorCnt / vol.sectorsPerCluster - 2)).find? fun i =>
      fatTableRead vol i = 0 with
  | none => simpa [free] using find?_eq_none.mp tried i isTried
  | some _ =>
    obtain ⟨-, mem, least⟩ := find?_range'_eq_some.mp tried
    rw [mem_range'_1] at mem
    refine ⟨mem.1, ?_⟩
    by_contra later
    simpa [free] using least i two (Nat.lt_of_not_le later)

end

theorem fatAllocClus_on (allocated : fatAllocClus vol ≠ 0)
    (same : ∀ k ≤ fatAllocClus vol, fatTableRead (vol.on disk) k = fatTableRead vol k) :
    fatAllocClus (vol.on disk) = fatAllocClus vol := by
  obtain ⟨two, inside, free⟩ := (fatAllocClus_cases vol).resolve_left allocated
  have free' : fatTableRead (vol.on disk) (fatAllocClus vol) = 0 := by rw [same _ le_rfl, free]
  refine @fatAllocClus_eq (vol.on disk) _ two inside free' ?_
  intro k two' below
  rw [same k (Nat.le_of_lt below)]
  intro free'
  have := fatAllocClus_le two' (Nat.lt_trans below inside) free'
  omega

variable (formatted : Formatted vol clusters)
include formatted

theorem Formatted.tried_lt (tried : i < vol.sectorCnt / vol.sectorsPerCluster) : i < 2 ^ 16 := by
  have most := Nat.div_le_self vol.sectorCnt vol.sectorsPerCluster
  have counted := formatted.counted
  omega

theorem Formatted.fatAllocClus_lt : fatAllocClus vol < 2 ^ 16 := by
  cases fatAllocClus_cases vol with
  | inl _ => omega
  | inr allocated => exact formatted.tried_lt allocated.2.1

theorem Formatted.tried_data (two : 2 ≤ i) (tried : i < vol.sectorCnt / vol.sectorsPerCluster) :
    dataStart vol ≤ clus2lba vol i := by
  have counted := formatted.counted
  have most := Nat.le_trans (Nat.mul_le_mul_right _ (Nat.le_of_lt tried)) (Nat.div_mul_le_self _ _)
  obtain ⟨k, rfl⟩ := Nat.exists_eq_add_of_le two
  have pos : vol.sectorCnt ≠ 0 := by
    intro none
    simp [none] at tried
  rw [Nat.add_mul] at most
  rw [clus2lba, dataStart, Nat.add_mul]
  rw [dataStart] at counted
  omega

end Table

/-! ## Chains -/

/-- The clusters of a chain from its first one on.  The upper four bits of a link are not set. -/
inductive Chain (vol : Volume) (clusters : Nat) : (head : Nat) → List Nat → Prop where
  | last {c : Nat} (two : 2 ≤ c) (inside : c < clusters)
      (ends : 0xffffff8 ≤ fatTableRead vol c % 2 ^ 28) : Chain vol clusters c [c]
  | link {c next : Nat} {rest : List Nat} (two : 2 ≤ c) (inside : c < clusters)
      (linked : fatTableRead vol c = next) (chain : Chain vol clusters next rest) :
      Chain vol clusters c (c :: rest)

/-- The chains that start at some clusters have no cluster in common, and none is in a chain
twice. -/
def Exclusive (vol : Volume) (clusters : Nat) (heads : List Nat) : Prop :=
  ∃ chains, List.Forall₂ (Chain vol clusters) heads chains ∧ chains.flatten.Nodup

namespace Chain

variable (isChain : Chain vol clusters head chain)
include isChain

theorem head_mem : head ∈ chain := by
  cases isChain with
  | last => exact mem_singleton.mpr rfl
  | link => exact mem_cons_self

theorem two_le : 2 ≤ head := by
  cases isChain with
  | last two => exact two
  | link two => exact two

theorem head_lt : head < clusters := by
  cases isChain with
  | last _ inside => exact inside
  | link _ inside => exact inside

theorem member : ∀ c ∈ chain, 2 ≤ c ∧ c < clusters ∧ fatTableRead vol c ≠ 0 := by
  induction isChain with
  | last two inside _ =>
    intro c isMem
    rw [mem_singleton.mp isMem]
    omega
  | link two inside _ rest ih =>
    intro c isMem
    cases mem_cons.mp isMem with
    | inl isHead =>
      subst isHead
      have := rest.two_le
      exact ⟨two, inside, by omega⟩
    | inr isLater => exact ih c isLater

theorem congr (same : ∀ c ∈ chain, fatTableRead other c = fatTableRead vol c) :
    Chain other clusters head chain := by
  induction isChain with
  | last two inside ends =>
    exact .last two inside (by rw [same _ (mem_singleton.mpr rfl)]; exact ends)
  | link two inside linked _ ih =>
    refine .link two inside (by rw [same _ mem_cons_self]; exact linked) (ih ?_)
    exact fun c isMem => same c (mem_cons_of_mem _ isMem)

theorem length_le (nodup : chain.Nodup) : chain.length ≤ clusters := by
  have within : chain.toFinset ⊆ Finset.range clusters := by
    intro c isMem
    exact Finset.mem_range.mpr (isChain.member c (mem_toFinset.mp isMem)).2.1
  have card := Finset.card_le_card within
  rwa [toFinset_card_of_nodup nodup, Finset.card_range] at card

end Chain

/-- The first sectors of some clusters, which are all the driver reads of a directory. -/
def sectors (vol : Volume) (chain : List Nat) : List Buf :=
  chain.map fun c => vol.disk (clus2lba vol c)

section Walk

theorem Chain.not_ends (isChain : Chain vol clusters head chain) (formatted : Formatted vol clusters) :
    chainEnds head = false := by
  have two := isChain.two_le
  have inside := isChain.head_lt
  have numbers := formatted.numbers
  simp only [chainEnds, Bool.or_eq_false_iff, decide_eq_false_iff_not]
  omega

theorem dirSectors_chain (isChain : Chain vol clusters head chain) :
    dirSectors vol chain.length head = some (sectors vol chain) := by
  induction isChain with
  | last two inside _ => simp [dirSectors, readCluster, two, sectors]
  | link two inside linked _ ih =>
    rw [length_cons, dirSectors, linked, ih]
    simp [readCluster, two, sectors]

variable (formatted : Formatted vol clusters) (isChain : Chain vol clusters head chain)
include formatted isChain

theorem chainCount_chain :
    ∀ {fuel : Nat}, chain.length ≤ fuel → chainCount vol fuel head = some chain.length := by
  induction isChain with
  | @last c two inside ends =>
    intro fuel enough
    obtain ⟨fuel, rfl⟩ : ∃ k, fuel = k + 1 := ⟨fuel - 1, by rw [length_singleton] at enough; omega⟩
    have ended : chainEnds (fatTableRead vol c) = true := by
      rw [chainEnds, Bool.or_eq_true]
      exact .inr (decide_eq_true ends)
    rw [chainCount]
    simp only [ended, if_true, length_singleton]
  | link two inside linked rest ih =>
    intro fuel enough
    rw [length_cons] at enough
    obtain ⟨fuel, rfl⟩ : ∃ k, fuel = k + 1 := ⟨fuel - 1, by omega⟩
    rw [chainCount]
    simp only [linked, rest.not_ends formatted]
    rw [ih (by omega)]
    rfl

theorem dirSlots_chain (nodup : chain.Nodup) :
    dirSlots vol head = some ((sectors vol chain).flatMap slots) := by
  have short := isChain.length_le nodup
  have numbers := formatted.numbers
  rw [dirSlots, fatCchainCnt, chainCount_chain formatted isChain (by omega), bind_some,
    dirSectors_chain isChain, map_some]

end Walk

/-! ## Appending an entry -/

/-- What `fat_dirent_append` does to the sectors of a directory with an unused entry. -/
def appendSector (dirent : List UInt8) : List Buf → Option (List Buf)
  | [] => none
  | buf :: rest =>
      match firstUnused buf with
      | some j => some (put buf (32 * j) dirent :: rest)
      | none => (appendSector dirent rest).map (buf :: ·)

/-- The disk with other contents in the first sectors of some clusters. -/
structure Written (vol : Volume) (clusters : Nat) (chain : List Nat) (written : List Buf)
    (disk : Nat → Buf) : Prop where
  contents : sectors (vol.on disk) chain = written
  table : ∀ lba < dataStart vol, disk lba = vol.disk lba
  others : ∀ c, 2 ≤ c → c < clusters → c ∉ chain → disk (clus2lba vol c) = vol.disk (clus2lba vol c)

section Append

variable {dirent : List UInt8} {fuel : Nat}

theorem Written.update (formatted : Formatted vol clusters) (two : 2 ≤ c) (inside : c < clusters)
    (members : ∀ d ∈ chain, 2 ≤ d ∧ d < clusters) (apart : c ∉ chain) :
    Written vol clusters (c :: chain) (buf :: sectors vol chain)
      (update vol.disk (clus2lba vol c) buf) := by
  have others : ∀ d, 2 ≤ d → d < clusters → d ≠ c →
      Function.update vol.disk (clus2lba vol c) buf (clus2lba vol d) = vol.disk (clus2lba vol d) := by
    intro d two' inside' ne
    apply update_of_ne
    exact fun same => ne (formatted.clus2lba_inj two' inside' two inside same)
  constructor
  · have later : sectors (vol.on (Function.update vol.disk (clus2lba vol c) buf)) chain =
        sectors vol chain := by
      apply map_congr_left
      intro d isMem
      obtain ⟨two', inside'⟩ := members d isMem
      exact others d two' inside' fun same => apart (same ▸ isMem)
    rw [← later]
    exact congrArg (· :: _) (update_self ..)
  · intro _ _
    apply update_of_ne
    rw [formatted.clus2lba_eq two inside]
    omega
  · intro d two' inside' ne
    exact others d two' inside' fun same => ne (same ▸ mem_cons_self)

theorem Written.cons {written : List Buf} (rest : Written vol clusters chain written disk)
    (two : 2 ≤ c) (inside : c < clusters) (apart : c ∉ chain) :
    Written vol clusters (c :: chain) (vol.disk (clus2lba vol c) :: written) disk := by
  refine ⟨?_, rest.table, ?_⟩
  · exact congr (congrArg List.cons (rest.others c two inside apart)) rest.contents
  · intro d two' inside' ne
    exact rest.others d two' inside' fun isMem => ne (mem_cons_of_mem _ isMem)

theorem direntAppend_here (two : 2 ≤ c)
    (isUnused : firstUnused (vol.disk (clus2lba vol c)) = some j) (fuel : Nat) :
    direntAppend dirent (fuel + 1) c vol = some (vol.on (update vol.disk (clus2lba vol c)
      (put (vol.disk (clus2lba vol c)) (32 * j) dirent))) := by
  rw [direntAppend]
  simp only [readCluster, if_pos two, bind_some, isUnused]
  rfl

section

variable (two : 2 ≤ c) (isFull : firstUnused (vol.disk (clus2lba vol c)) = none)
include two isFull

theorem direntAppend_next {next : Nat} (linked : fatTableRead vol c = next)
    (isLink : next < 0xffffff8) (fuel : Nat) :
    direntAppend dirent (fuel + 1) c vol = direntAppend dirent fuel next vol := by
  rw [direntAppend]
  simp only [readCluster, if_pos two, bind_some, isFull, linked]
  rw [if_neg (Nat.not_le.mpr isLink)]

theorem direntAppend_end (ends : 0xffffff8 ≤ fatTableRead vol c) (fuel : Nat) :
    direntAppend dirent (fuel + 1) c vol = direntAppend dirent fuel (fatAllocClus vol)
      (fatTableWrite (fatTableWrite vol c (fatAllocClus vol)) (fatAllocClus vol) 0xffffff8) := by
  rw [direntAppend]
  simp only [readCluster, if_pos two, bind_some, isFull]
  rw [if_pos ends]

end

theorem appendSector_cons {rest : List Buf} : appendSector dirent (buf :: rest) =
    match firstUnused buf with
    | some j => some (put buf (32 * j) dirent :: rest)
    | none => (appendSector dirent rest).map (buf :: ·) := rfl

theorem sectors_cons :
    sectors vol (c :: chain) = vol.disk (clus2lba vol c) :: sectors vol chain := rfl

section

variable (formatted : Formatted vol clusters) (isChain : Chain vol clusters head chain)
include formatted isChain

/-- With an unused entry in the chain, it writes there and nowhere else. -/
theorem direntAppend_found : ∀ {written : List Buf}, chain.Nodup →
    appendSector dirent (sectors vol chain) = some written → ∀ {fuel : Nat}, chain.length ≤ fuel →
    ∃ disk, direntAppend dirent fuel head vol = some (vol.on disk) ∧
      Written vol clusters chain written disk := by
  induction isChain with
  | @last c two inside _ =>
    intro written nodup fits fuel enough
    rw [length_singleton] at enough
    obtain ⟨fuel, rfl⟩ : ∃ k, fuel = k + 1 := ⟨fuel - 1, by omega⟩
    rw [sectors_cons, appendSector_cons] at fits
    cases isUnused : firstUnused (vol.disk (clus2lba vol c)) with
    | none => simp [isUnused, sectors, appendSector] at fits
    | some j =>
      simp only [isUnused, some.injEq] at fits
      subst fits
      exact ⟨_, direntAppend_here two isUnused fuel,
        .update formatted two inside (by simp) not_mem_nil⟩
  | @link c next _ two inside linked isRest ih =>
    intro written nodup fits fuel enough
    rw [length_cons] at enough
    obtain ⟨fuel, rfl⟩ : ∃ k, fuel = k + 1 := ⟨fuel - 1, by omega⟩
    obtain ⟨apart, nodup⟩ := nodup_cons.mp nodup
    rw [sectors_cons, appendSector_cons] at fits
    cases isUnused : firstUnused (vol.disk (clus2lba vol c)) with
    | none =>
      simp only [isUnused, map_eq_some_iff] at fits
      obtain ⟨_, fits, rfl⟩ := fits
      obtain ⟨disk, appended, isWritten⟩ := ih nodup fits (Nat.le_of_succ_le_succ enough)
      have isLink : next < 0xffffff8 := by
        have := isRest.head_lt
        have := formatted.numbers
        omega
      refine ⟨disk, ?_, isWritten.cons two inside apart⟩
      rw [direntAppend_next two isUnused linked isLink, appended]
    | some j =>
      simp only [isUnused, some.injEq] at fits
      subst fits
      refine ⟨_, direntAppend_here two isUnused fuel, .update formatted two inside ?_ apart⟩
      exact fun d isMem => ⟨(isRest.member d isMem).1, (isRest.member d isMem).2.1⟩

theorem direntAppend_full :
    appendSector dirent (sectors vol chain) = none → ∀ fuel,
    ∃ before last, chain = before ++ [last] ∧ 0xffffff8 ≤ fatTableRead vol last ∧
      direntAppend dirent (chain.length + fuel) head vol =
        direntAppend dirent fuel (fatAllocClus vol)
          (fatTableWrite (fatTableWrite vol last (fatAllocClus vol)) (fatAllocClus vol) 0xffffff8) := by
  induction isChain with
  | @last c two inside ends =>
    intro full fuel
    rw [sectors_cons, appendSector_cons] at full
    cases isUnused : firstUnused (vol.disk (clus2lba vol c)) with
    | none =>
      have ends' : 0xffffff8 ≤ fatTableRead vol c := by omega
      refine ⟨[], c, rfl, ends', ?_⟩
      rw [length_singleton, Nat.add_comm, direntAppend_end two isUnused ends']
    | some j => simp [isUnused] at full
  | @link c next _ two inside linked isRest ih =>
    intro full fuel
    rw [sectors_cons, appendSector_cons] at full
    cases isUnused : firstUnused (vol.disk (clus2lba vol c)) with
    | none =>
      simp only [isUnused, map_eq_none_iff] at full
      obtain ⟨before, last, rfl, ends, appended⟩ := ih full fuel
      have isLink : next < 0xffffff8 := by
        have := isRest.head_lt
        have := formatted.numbers
        omega
      refine ⟨c :: before, last, rfl, ends, ?_⟩
      rw [← appended, length_cons, Nat.add_right_comm, direntAppend_next two isUnused linked isLink]
    | some j => simp [isUnused] at full

end

theorem direntAppend_nowhere : direntAppend dirent fuel 0 vol = none := by
  cases fuel with
  | zero => rfl
  | succ fuel => simp [direntAppend, readCluster]

/-- The links of a table are still there. -/
def Kept (vol other : Volume) : Prop :=
  ∀ i < 2 ^ 28, 0 < fatTableRead vol i → fatTableRead vol i < 0xffffff8 →
    fatTableRead other i = fatTableRead vol i

theorem Kept.trans {middle : Volume} (first : Kept vol middle) (second : Kept middle other) :
    Kept vol other := by
  intro i small pos isLink
  have same := first i small pos isLink
  rw [← same] at pos isLink ⊢
  exact second i small pos isLink

theorem Kept.extend {next : Nat} (small : c < 2 ^ 28) (ends : 0xffffff8 ≤ fatTableRead vol c)
    (nextSmall : next < 2 ^ 28) (free : fatTableRead vol next = 0) :
    Kept vol (fatTableWrite (fatTableWrite vol c next) next 0xffffff8) := by
  intro i _ _ _
  have notNext : next ≠ i := by
    rintro rfl
    omega
  have notEnd : c ≠ i := by
    rintro rfl
    omega
  rw [fatTableRead_write_ne notNext (by omega) (by omega),
    fatTableRead_write_ne notEnd (by omega) (by omega)]

theorem Chain.isChain (isChain : Chain vol clusters head chain) :
    chain.IsChain fun c next => fatTableRead vol c = next := by
  induction isChain with
  | last => exact isChain_singleton _
  | link _ _ linked rest ih =>
    cases rest with
    | last two' inside' _ => exact isChain_cons_cons.mpr ⟨linked, ih⟩
    | link two' inside' _ _ => exact isChain_cons_cons.mpr ⟨linked, ih⟩

variable (formatted : Formatted vol clusters)
include formatted

/-- Wherever it goes, it keeps the links until it writes the entry.  From the end of a chain on it
goes to clusters that `fat_alloc_clus` tries. -/
theorem direntAppend_kept {clus : Nat} {next : Volume} (small : clus < 2 ^ 28)
    (appended : direntAppend dirent fuel clus vol = some next) :
    ∃ disk c j, Kept vol (vol.on disk) ∧ j < 16 ∧ 2 ≤ c ∧
      next = vol.on (update disk (clus2lba vol c) (put (disk (clus2lba vol c)) (32 * j) dirent)) ∧
      (0xffffff8 ≤ fatTableRead vol clus → c = clus ∨ c < vol.sectorCnt / vol.sectorsPerCluster) := by
  induction fuel generalizing clus vol next with
  | zero => exact by simp [direntAppend] at appended
  | succ fuel ih =>
    by_cases two : 2 ≤ clus
    · cases isUnused : firstUnused (vol.disk (clus2lba vol clus)) with
      | some j =>
        rw [direntAppend_here two isUnused, some.injEq] at appended
        refine ⟨vol.disk, clus, j, fun _ _ _ _ => rfl, ?_, two, appended.symm, fun _ => .inl rfl⟩
        exact mem_range.mp (mem_of_find?_eq_some isUnused)
      | none =>
        by_cases isLink : fatTableRead vol clus < 0xffffff8
        · rw [direntAppend_next two isUnused rfl isLink] at appended
          obtain ⟨disk, c, j, kept, inside, two', isNext, -⟩ := ih formatted (by omega) appended
          exact ⟨disk, c, j, kept, inside, two', isNext, fun ends => absurd isLink (by omega)⟩
        · have ends := Nat.le_of_not_lt isLink
          rw [direntAppend_end two isUnused ends] at appended
          cases fatAllocClus_cases vol with
          | inl failed =>
            rw [failed, direntAppend_nowhere] at appended
            cases appended
          | inr allocated =>
            obtain ⟨two', tried, free⟩ := allocated
            have nextSmall := formatted.tried_lt tried
            have extended := Kept.extend small ends (by omega) free
            have isEnd := @fatTableRead_write (fatTableWrite vol clus (fatAllocClus vol))
              (fatAllocClus vol) 0xffffff8 (by decide)
            obtain ⟨disk, c, j, kept, inside, two'', isNext, later⟩ :=
              ih formatted.write.write (by omega) appended
            refine ⟨disk, c, j, extended.trans kept, inside, two'', isNext, ?_⟩
            · intro _
              cases later (by rw [isEnd]) with
              | inl isFirst => exact .inr (isFirst ▸ tried)
              | inr isLater => exact .inr isLater
    · simp [direntAppend, readCluster, two] at appended

/-- When there is no unused entry, the chain goes on to the cluster that `fat_alloc_clus` returns,
wherever the entry is written then. -/
theorem direntAppend_extends (isChain : Chain vol clusters head chain)
    (full : appendSector dirent (sectors vol chain) = none) {next : Volume}
    (enough : chain.length ≤ fuel) (appended : direntAppend dirent fuel head vol = some next) :
    fatAllocClus vol ≠ 0 ∧
      (chain ++ [fatAllocClus vol]).IsChain fun c after => fatTableRead next c = after := by
  obtain ⟨_, last, rfl, ends, isAppend⟩ := direntAppend_full formatted isChain full
    (fuel - chain.length)
  rw [Nat.add_sub_cancel' enough] at isAppend
  rw [isAppend] at appended
  have numbers := formatted.numbers
  have isLast := isChain.member last (by simp)
  cases fatAllocClus_cases vol with
  | inl failed =>
    rw [failed, direntAppend_nowhere] at appended
    cases appended
  | inr allocated =>
    obtain ⟨_, tried, free⟩ := allocated
    have small := formatted.tried_lt tried
    have extended := Kept.extend (by omega) ends (by omega) free
    have isEnd := @fatTableRead_write (fatTableWrite vol last (fatAllocClus vol))
      (fatAllocClus vol) 0xffffff8 (by decide)
    have ne : fatAllocClus vol ≠ last := by
      intro same
      rw [same] at free
      omega
    have linked : fatTableRead (fatTableWrite (fatTableWrite vol last (fatAllocClus vol))
        (fatAllocClus vol) 0xffffff8) last = fatAllocClus vol := by
      rw [fatTableRead_write_ne ne (by omega) (by omega), fatTableRead_write (by omega)]
    obtain ⟨disk, c, j, kept, _, two', rfl, later⟩ :=
      direntAppend_kept formatted.write.write (by omega) appended
    -- the entry is written behind the table
    have isTried : c < vol.sectorCnt / vol.sectorsPerCluster := by
      cases later (Nat.le_of_eq isEnd.symm) with
      | inl isFirst => exact isFirst ▸ tried
      | inr isLater => exact isLater
    have same : ∀ i < clusters, fatTableRead (vol.on (update disk (clus2lba vol c)
        (put (disk (clus2lba vol c)) (32 * j) dirent))) i = fatTableRead (vol.on disk) i := by
      intro i isCluster
      refine @fatTableRead_congr (vol.on disk) _ i (update_of_ne ?_ ..)
      have front : fatSector vol i < dataStart vol := formatted.fatSector_lt isCluster
      have behind := formatted.tried_data two' isTried
      change fatSector vol i ≠ clus2lba vol c
      omega
    refine ⟨by omega, isChain_append.mpr ⟨?_, isChain_singleton _, ?_⟩⟩
    · refine isChain.isChain.imp_of_mem_imp fun d after isMem isMember' isNext => ?_
      have isAfter := isChain.member after isMember'
      have isMem := isChain.member d isMem
      rw [← isNext] at isAfter ⊢
      exact (same d isMem.2.1).trans (extended.trans kept d (by omega) (by omega) (by omega))
    · intro d isLast' after isNext
      rw [getLast?_append, getLast?_singleton, some_or, mem_some_iff] at isLast'
      rw [head?_cons, mem_some_iff] at isNext
      subst isLast' isNext
      exact (same last isLast.2.1).trans ((kept last (by omega) (by omega) (by omega)).trans linked)

/-- Writing an entry of zeros sets a link of the table to zero, if it does anything to it. -/
theorem direntAppend_zero {clus i : Nat} {next : Volume} (small : clus < 2 ^ 28)
    (iSmall : i < 2 ^ 28) (appended : direntAppend (replicate 32 0) fuel clus vol = some next)
    (pos : 0 < fatTableRead vol i) (isLink : fatTableRead vol i < 0xffffff8) :
    fatTableRead next i = fatTableRead vol i ∨ fatTableRead next i = 0 := by
  obtain ⟨disk, c, j, kept, _, -, rfl, -⟩ := direntAppend_kept formatted small appended
  rw [← kept i iSmall pos isLink]
  by_cases hit : fatSector vol i = clus2lba vol c
  · have isSector : fatTableRead (vol.on (update disk (clus2lba vol c)
        (put (disk (clus2lba vol c)) (32 * j) (replicate 32 0)))) i =
        le32 (put (disk (fatSector vol i)) (32 * j) (replicate 32 0)) (fatOff i) := by
      rw [← hit]
      exact congrArg (le32 · (fatOff i)) (update_self ..)
    rw [isSector]
    have aligned : fatOff i % 4 = 0 := by
      rw [fatOff]
      omega
    by_cases inZeros : 32 * j ≤ fatOff i ∧ fatOff i < 32 * j + 32
    · have zero : ∀ k, fatOff i ≤ k → k < fatOff i + 4 →
          put (disk (fatSector vol i)) (32 * j) (replicate 32 0) k = 0 := by
        intro k from_ _
        obtain ⟨m, rfl⟩ := Nat.exists_eq_add_of_le (Nat.le_trans inZeros.1 from_)
        exact put_inside (by rw [getElem?_replicate_of_lt (by omega)])
      exact .inr (le32_congr zero)
    · refine .inl (le32_put_outside ?_)
      rw [length_replicate]
      omega
  · exact .inl (@fatTableRead_congr (vol.on disk) _ i (update_of_ne hit ..))

end Append

end Micro.Fat
