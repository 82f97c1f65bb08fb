import Micro.Fat.Model

/-!
# Listing and looking up names

The named entries of a directory come with the fragments of their long names in front of them.
`fat_getdents` lists them one by one.  `fat_lookup` goes through the same entries with a copy
of the same loop, which does not start afresh behind a long name that is not the right one.
-/

namespace Micro.Fat

open Kern Lib Option List

variable {n : Nat} {name : CStr}

/-- Nothing but unused entries comes before the next deleted or volume entry, or the end. -/
def clears : List Buf → Bool
  | [] => true
  | slot :: rest =>
      match kind slot with
      | .unused => clears rest
      | .reset => true
      | _ => false

/-- A named entry with the fragments in front of it. -/
structure Entry where
  lfns : List CStr
  slot : Buf
  /-- Whether the count of fragments is set to zero before it is used again. -/
  cleared : Bool

/-- The named entries, with fragments that came before. -/
def entries : (lfns : List CStr) → List Buf → List Entry
  | _, [] => []
  | lfns, slot :: rest =>
      match kind slot with
      | .unused => entries lfns rest
      | .reset => entries [] rest
      | .fragment => entries (lfns ++ [lfn slot]) rest
      | .named => ⟨lfns, slot, clears rest⟩ :: entries [] rest

/-- No more than eight fragments are in front of an entry. -/
def runsFit : (count : Nat) → List Buf → Bool
  | _, [] => true
  | count, slot :: rest =>
      match kind slot with
      | .unused => runsFit count rest
      | .reset => runsFit 0 rest
      | .fragment => count < 8 && runsFit (count + 1) rest
      | .named => runsFit 0 rest

/-- The comparison of `fat_lookup` at an entry. -/
def Entry.accepted (name : CStr) (entry : Entry) : Bool := accepts entry.lfns entry.slot name

/-- `fat_getdents` lists the entry under the name. -/
def Entry.carries (name : CStr) (entry : Entry) : Bool := listedName entry.lfns entry.slot = name

/-- One of the two takes the entry for the name. -/
def Entry.named (name : CStr) (entry : Entry) : Bool := entry.accepted name || entry.carries name

/-- Both take the entry for the name, and its cluster number has 16 bits. -/
def Entry.agreed (name : CStr) (entry : Entry) : Bool :=
  entry.accepted name && entry.carries name && le16 entry.slot 20 = 0

/-- A comparison that fails here does not spoil the count of fragments for those that follow. -/
def Entry.passed (entry : Entry) : Bool := entry.lfns = [] || entry.cleared

/-- The structure an entry is listed as. -/
def Entry.dirent (entry : Entry) : Fs.Dirent := listed entry.lfns entry.slot

/-- The structures the entries of a directory are listed as. -/
def listing (directory : List Buf) : List Fs.Dirent := (entries [] directory).map Entry.dirent

/-! ## Listing -/

section Listing

variable {size : Nat}

/-- Once the offset has been counted below zero, no entry is listed. -/
theorem getdentsLoop_negative {directory : List Buf} {lfns : List CStr} {off : Int} {i : Nat}
    (negative : off < 0) (fits : runsFit lfns.length directory = true) :
    getdentsLoop size lfns off i directory = some [] := by
  induction directory generalizing lfns off i with
  | nil => rfl
  | cons slot _ ih =>
    rw [runsFit] at fits
    rw [getdentsLoop]
    cases isKind : kind slot with
    | unused =>
      simp only [isKind] at fits ⊢
      exact ih negative fits
    | reset =>
      simp only [isKind] at fits ⊢
      exact ih negative fits
    | fragment =>
      simp only [isKind, Bool.and_eq_true, decide_eq_true_eq] at fits ⊢
      rw [if_pos fits.1]
      exact ih negative (by simpa using fits.2)
    | named =>
      simp only [isKind] at fits ⊢
      split
      · rfl
      · rw [if_pos (by omega)]
        exact ih (by omega) fits

/-- Past the last entry the loop goes through the whole directory. -/
theorem getdentsLoop_past (room : Fs.direntSize < size) {directory : List Buf} {lfns : List CStr}
    {k : Nat} (past : (entries lfns directory).length ≤ k) :
    getdentsLoop size lfns k 0 directory =
      if runsFit lfns.length directory then some [] else none := by
  induction directory generalizing lfns k with
  | nil => rfl
  | cons slot _ ih =>
    rw [getdentsLoop, runsFit]
    rw [entries] at past
    cases isKind : kind slot with
    | unused =>
      simp only [isKind] at past ⊢
      exact ih past
    | reset =>
      simp only [isKind] at past ⊢
      exact ih past
    | fragment =>
      simp only [isKind] at past ⊢
      by_cases fits : lfns.length < 8
      · simpa [fits] using ih past
      · simp [fits]
    | named =>
      simp only [isKind, length_cons] at past ⊢
      obtain ⟨before, rfl⟩ : ∃ before, k = before + 1 := ⟨k - 1, by omega⟩
      rw [if_neg (by omega), show ((before + 1 : Nat) : Int) - 1 = before by omega]
      exact ih (by omega)

theorem getdentsLoop_single (room : Fs.direntSize < size) {directory : List Buf} {lfns : List CStr}
    {k : Nat} (fits : runsFit lfns.length directory = true) :
    getdentsLoop size lfns k 0 directory =
      some ((entries lfns directory).map Entry.dirent)[k]?.toList := by
  induction directory generalizing lfns k with
  | nil => rfl
  | cons slot rest ih =>
    rw [runsFit] at fits
    rw [getdentsLoop, entries]
    cases isKind : kind slot with
    | unused =>
      simp only [isKind] at fits ⊢
      exact ih fits
    | reset =>
      simp only [isKind] at fits ⊢
      exact ih fits
    | fragment =>
      simp only [isKind, Bool.and_eq_true, decide_eq_true_eq] at fits ⊢
      rw [if_pos fits.1]
      exact ih (by simpa using fits.2)
    | named =>
      simp only [isKind] at fits ⊢
      rw [if_neg (by omega)]
      cases k with
      | zero =>
        have nothing := @getdentsLoop_negative size rest [] (-1) 1 (by decide) fits
        simp [nothing, Entry.dirent]
      | succ k =>
        rw [if_pos (by omega), show ((k + 1 : Nat) : Int) - 1 = k by omega, @ih [] k fits]
        simp

/-- Without room the loop ends at the first named entry. -/
theorem getdentsLoop_full (full : size ≤ Fs.direntSize) {directory : List Buf} {lfns : List CStr}
    {k : Int} : getdentsLoop size lfns k 0 directory =
      if runsFit lfns.length (directory.takeWhile fun slot => kind slot ≠ .named) then some []
      else none := by
  induction directory generalizing lfns k with
  | nil => rfl
  | cons slot _ ih =>
    rw [getdentsLoop]
    cases isKind : kind slot with
    | unused => simp [isKind, runsFit, ih]
    | reset => simp [isKind, runsFit, ih]
    | fragment =>
      by_cases fits : lfns.length < 8
      · simp [isKind, runsFit, ih, fits]
      · simp [isKind, runsFit, fits]
    | named =>
      simp only [Nat.zero_mul, Nat.zero_add]
      rw [if_pos full]
      simp [isKind, runsFit]

end Listing

variable {directory : List Buf} {dir : Nat} {vol : Volume}

/-- The calls find no run of more than eight fragments; with a buffer too small for an entry they
end in front of the first one. -/
def runsFitFor (n : Nat) (directory : List Buf) : Bool :=
  if Fs.direntSize < n then runsFit 0 directory
  else runsFit 0 (directory.takeWhile fun slot => kind slot ≠ .named)

theorem fatGetdents_oneByOne (read : dirSlots vol dir = some directory)
    (fits : runsFitFor n directory = true) :
    Fs.OneByOne (fatGetdents vol dir) n (listing directory) := by
  apply Fs.oneByOne_of_bytes
  intro k
  simp only [fatGetdents, read, bind_some]
  unfold runsFitFor at fits
  split_ifs at fits ⊢ with room
  · rw [@getdentsLoop_single n room directory [] k fits]
    rfl
  · rw [getdentsLoop_full (by omega), length_nil, if_pos fits]
    rfl

theorem fatGetdents_lost (read : dirSlots vol dir = some directory)
    (long : runsFitFor n directory = false) :
    fatGetdents vol dir ((listing directory).length : Nat) n = none := by
  simp only [fatGetdents, read, bind_some]
  unfold runsFitFor at long
  split_ifs at long with room
  · rw [getdentsLoop_past room (by simp [listing]), if_neg (by simp [long])]
    rfl
  · rw [getdentsLoop_full (by omega), length_nil, long]
    rfl

def chainClusters (vol : Volume) : (cnt clus : Nat) → List Nat
  | 0, _ => []
  | cnt + 1, clus => clus :: chainClusters vol cnt (fatTableRead vol clus)

/-- All entries of a cluster; the driver only reads the first sector. -/
def clusterSlots (vol : Volume) (cluster : Nat) : List Buf :=
  (List.range vol.sectorsPerCluster).flatMap fun i => slots (vol.disk (clus2lba vol cluster + i))

/-- All entries of a directory. -/
def allSlots (vol : Volume) (dir : Nat) : List Buf :=
  (chainClusters vol ((fatCchainCnt vol dir).getD 0) dir).flatMap (clusterSlots vol)

/-! ## Looking up -/

def lookupEntries (name : CStr) : List Entry → Option (Option Buf)
  | [] => some none
  | entry :: rest =>
      if entry.accepted name then some (some entry.slot)
      else if entry.passed then lookupEntries name rest
      else none

/-- The loop goes from one named entry to the next. -/
theorem lookupLoop_entries {directory : List Buf} :
    (∀ {lfns : List CStr}, runsFit lfns.length directory = true →
      lookupLoop name (some lfns) directory = lookupEntries name (entries lfns directory)) ∧
    (runsFit 0 directory = true → lookupLoop name none directory =
      if clears directory then lookupEntries name (entries [] directory) else none) := by
  induction directory with
  | nil => exact ⟨fun _ => rfl, fun _ => rfl⟩
  | cons slot rest ih =>
    obtain ⟨counted, wrapped⟩ := ih
    constructor
    · intro lfns fits
      rw [runsFit] at fits
      rw [lookupLoop, entries]
      cases isKind : kind slot with
      | unused =>
        simp only [isKind] at fits ⊢
        exact counted fits
      | reset =>
        simp only [isKind] at fits ⊢
        exact @counted [] fits
      | fragment =>
        simp only [isKind, Bool.and_eq_true, decide_eq_true_eq, bind_some] at fits ⊢
        rw [if_pos fits.1]
        exact counted (by simpa using fits.2)
      | named =>
        simp only [isKind, bind_some, lookupEntries] at fits ⊢
        have isAccepted : Entry.accepted name ⟨lfns, slot, clears rest⟩ = accepts lfns slot name :=
          rfl
        rw [isAccepted]
        by_cases accepted : accepts lfns slot name = true
        · rw [if_pos accepted, if_pos accepted]
        · by_cases short : lfns = []
          · rw [if_pos short, @counted [] fits]
            simp [Entry.passed, short]
          · rw [if_neg short, wrapped fits]
            simp [Entry.passed, short]
    · intro fits
      rw [runsFit] at fits
      rw [lookupLoop, clears, entries]
      cases isKind : kind slot with
      | unused =>
        simp only [isKind] at fits ⊢
        exact wrapped fits
      | reset =>
        simp only [isKind] at fits ⊢
        exact @counted [] fits
      | fragment => simp
      | named => simp

/-- The first entry that is accepted is found, if no long name in front of it leaves the count of
fragments below zero. -/
theorem lookupEntries_eq (named : List Entry) : lookupEntries name named =
    if (named.takeWhile fun entry => !entry.accepted name).all Entry.passed then
      some ((named.find? (Entry.accepted name)).map Entry.slot)
    else none := by
  induction named with
  | nil => rfl
  | cons entry _ ih =>
    rw [lookupEntries, ih]
    cases accepted : entry.accepted name with
    | true => simp [accepted]
    | false =>
      cases passed : entry.passed with
      | true => simp [accepted, passed]
      | false => simp [accepted, passed]

/-- What `fat_lookup` returns: the number and type of an inode, or an error. -/
def lookedUp (vol : Volume) (dir : Nat) (name : CStr) : Option (Except Int (Option Nat × Nat)) :=
  (fatLookup vol dir name).map fun result =>
    result.map fun found => (some found.inode, if found.isDir then 4 else 8)

/-- `fat_lookup` succeeds for the names that `fat_getdents` lists, with the number and the type of
the entry listed. -/
def LookupAgrees (vol : Volume) (dir n : Nat) (name : CStr) : Prop :=
  ∃ listed, Fs.OneByOne (fatGetdents vol dir) n listed ∧ lookedUp vol dir name = some (
    match listed.find? fun dirent => dirent.dName = name with
    | some dirent => .ok (dirent.dIno, dirent.dType)
    | none => .error (-Fs.enoent))

/-- The entry taken by the one and the entry listed by the other give the same number and type. -/
def sameInode : Option Entry → Option Entry → Bool
  | some taken, some carrying =>
      startCluster taken.slot = dIno carrying.slot && isDir taken.slot = isDir carrying.slot
  | none, none => true
  | _, _ => false

/-- What the two loops need to agree on a name: no run of more than eight fragments; in front of
the entry that is accepted, only long names behind which the count is set to zero; and the first
entry that is taken for the name in the comparison of the one or the list of the other is so in
both, with a cluster number of 16 bits. -/
structure Comparable (name : CStr) (directory : List Buf) : Prop where
  runs : runsFit 0 directory = true
  passed : ((entries [] directory).takeWhile fun entry => !entry.accepted name).all Entry.passed = true
  agreed : ((entries [] directory).find? (Entry.named name)).all (Entry.agreed name) = true

/-- No two entries have the same cluster number. -/
def Unshared (directory : List Buf) : Prop :=
  (entries [] directory).Pairwise fun entry other =>
    startCluster entry.slot ≠ dIno other.slot ∧ startCluster other.slot ≠ dIno entry.slot

theorem startCluster_eq_dIno {slot : Buf} : startCluster slot = dIno slot ↔ le16 slot 20 = 0 := by
  unfold startCluster dIno
  omega

section Agreed

variable {held : List Entry}

theorem sameInode_of_agreed
    (agreed : (held.find? (Entry.named name)).all (Entry.agreed name) = true) :
    sameInode (held.find? (Entry.accepted name)) (held.find? (Entry.carries name)) = true := by
  induction held with
  | nil => rfl
  | cons entry held ih =>
    by_cases named : entry.named name = true
    · rw [find?_cons_of_pos named] at agreed
      simp only [Option.all_some, Entry.agreed, Bool.and_eq_true, decide_eq_true_eq] at agreed
      obtain ⟨⟨accepted, carries⟩, upper⟩ := agreed
      simp [accepted, carries, sameInode, startCluster_eq_dIno, upper]
    · rw [find?_cons_of_neg named] at agreed
      simp only [Entry.named, Bool.or_eq_true, not_or] at named
      rw [find?_cons_of_neg named.1, find?_cons_of_neg named.2]
      exact ih agreed

theorem agreed_of_sameInode
    (unshared : held.Pairwise fun entry other =>
      startCluster entry.slot ≠ dIno other.slot ∧ startCluster other.slot ≠ dIno entry.slot)
    (same : sameInode (held.find? (Entry.accepted name)) (held.find? (Entry.carries name)) = true) :
    (held.find? (Entry.named name)).all (Entry.agreed name) = true := by
  induction held with
  | nil => rfl
  | cons entry held ih =>
    obtain ⟨apart, unshared⟩ := pairwise_cons.mp unshared
    cases accepted : entry.accepted name <;> cases carries : entry.carries name
    · simp only [find?_cons, Entry.named, accepted, carries, Bool.or_self] at same ⊢
      exact ih unshared same
    · -- an entry behind it would have to have the same number
      simp only [find?_cons, accepted, carries] at same
      cases found : held.find? (Entry.accepted name) with
      | none => simp [found, sameInode] at same
      | some other =>
        simp only [found, sameInode, Bool.and_eq_true, decide_eq_true_eq] at same
        exact absurd same.1 (apart other (mem_of_find?_eq_some found)).2
    · simp only [find?_cons, accepted, carries] at same
      cases found : held.find? (Entry.carries name) with
      | none => simp [found, sameInode] at same
      | some other =>
        simp only [found, sameInode, Bool.and_eq_true, decide_eq_true_eq] at same
        exact absurd same.1 (apart other (mem_of_find?_eq_some found)).1
    · simp only [find?_cons, accepted, carries, sameInode, Bool.and_eq_true, decide_eq_true_eq] at same
      simpa [Entry.named, Entry.agreed, accepted, carries] using startCluster_eq_dIno.mp same.1

end Agreed

theorem todenttype_eq (slot other : Buf) :
    (if isDir slot then 4 else 8) = todenttype other ↔ isDir slot = isDir other := by
  unfold todenttype
  cases isDir slot <;> cases isDir other <;> simp

theorem find?_listing (name : CStr) (directory : List Buf) :
    (listing directory).find? (fun dirent => dirent.dName = name) =
      ((entries [] directory).find? (Entry.carries name)).map Entry.dirent := by
  rw [listing, find?_map]
  rfl

/-- What `fat_lookup` returns for a directory without long runs of fragments. -/
theorem lookedUp_eq (read : dirSlots vol dir = some directory) (fits : runsFit 0 directory = true) :
    lookedUp vol dir name =
      if ((entries [] directory).takeWhile fun entry => !entry.accepted name).all Entry.passed then
        some (match (entries [] directory).find? (Entry.accepted name) with
          | some taken => .ok (some (startCluster taken.slot), if isDir taken.slot then 4 else 8)
          | none => .error (-Fs.enoent))
      else none := by
  have looped := (@lookupLoop_entries name directory).1 (@id (runsFit ([] : List CStr).length _ = true) fits)
  rw [lookupEntries_eq] at looped
  simp only [lookedUp, fatLookup, read, bind_some]
  rw [looped]
  split
  · cases (entries [] directory).find? (Entry.accepted name) with
    | none => rfl
    | some taken => rfl
  · rfl

theorem results_eq_iff (taken carrying : Option Entry) :
    (match taken with
      | some taken => Except.ok (some (startCluster taken.slot), if isDir taken.slot then 4 else 8)
      | none => .error (-Fs.enoent)) =
      (match carrying.map Entry.dirent with
        | some dirent => .ok (dirent.dIno, dirent.dType)
        | none => .error (-Fs.enoent)) ↔ sameInode taken carrying = true := by
  rcases taken with _ | taken <;> rcases carrying with _ | carrying
  · simp [sameInode]
  · simp [sameInode]
  · simp [sameInode]
  · simp [sameInode, Entry.dirent, listed, todenttype_eq]

/-- In every directory that can be read, lookup and listing agree on a name if the entries are
comparable; if its entries have different cluster numbers, only then. -/
theorem lookup_agrees_when (vol : Volume) (dir n : Nat) (name : CStr) (directory : List Buf)
    (read : dirSlots vol dir = some directory) (room : 2 * Fs.direntSize ≤ n) :
    (Comparable name directory → LookupAgrees vol dir n name) ∧
      (Unshared directory → LookupAgrees vol dir n name → Comparable name directory) := by
  have fits : Fs.direntSize < n := by
    rw [Fs.direntSize] at room ⊢
    omega
  have isFit : runsFitFor n directory = runsFit 0 directory := if_pos fits
  constructor
  · intro comparable
    refine ⟨listing directory, fatGetdents_oneByOne read (isFit.trans comparable.runs), ?_⟩
    rw [lookedUp_eq read comparable.runs, if_pos comparable.passed, find?_listing]
    exact congrArg some ((results_eq_iff _ _).mpr (sameInode_of_agreed comparable.agreed))
  · intro unshared agrees
    obtain ⟨listed, oneByOne, looked⟩ := agrees
    have runs : runsFit 0 directory = true := by
      by_contra long
      rw [Bool.not_eq_true, ← isFit] at long
      obtain ⟨_, replied, -⟩ := oneByOne (listing directory).length
      rw [fatGetdents_lost read long] at replied
      cases replied
    obtain rfl := oneByOne.unique (fatGetdents_oneByOne read (isFit.trans runs)) room
    rw [lookedUp_eq read runs, find?_listing] at looked
    split at looked
    · rename_i passed
      exact ⟨runs, passed, agreed_of_sameInode unshared ((results_eq_iff _ _).mp (some.inj looked))⟩
    · cases looked

/-- A buffer that begins with some bytes. -/
def bufOf (bytes : List UInt8) : Buf := fun k => bytes.getD k 0

/-- An entry for a name of eight and three characters. -/
def shortEntry (name ext : List UInt8) (attr cluster : Nat) : List UInt8 :=
  name ++ ext ++ [UInt8.ofNat attr] ++ List.replicate 8 0 ++ bytes16 (cluster / 2 ^ 16) ++
    List.replicate 4 0 ++ bytes16 cluster ++ List.replicate 4 0

/-- A volume of sixty clusters with one directory of one cluster, the second. -/
def oneDirectory (directory : List (List UInt8)) : Volume where
  resSectors := 1
  fats := 1
  sectorsPerFat := 1
  sectorsPerCluster := 1
  sectorCnt := 64
  disk := fun sector =>
    if sector = 1 then bufOf (bytes32 0xffffff8 ++ bytes32 0xffffff8 ++ bytes32 0xffffff8)
    else if sector = 2 then bufOf directory.flatten
    else fun _ => 0

theorem oneDirectory_slots (directory : List (List UInt8)) :
    dirSlots (oneDirectory directory) 2 = some (slots (bufOf directory.flatten)) := by
  have isEnd : fatTableRead (oneDirectory directory) 2 = 0xffffff8 := by
    change le32 (bufOf (bytes32 0xffffff8 ++ bytes32 0xffffff8 ++ bytes32 0xffffff8)) 8 = 0xffffff8
    decide
  have counted : fatCchainCnt (oneDirectory directory) 2 = some 1 := by
    rw [fatCchainCnt, show 2 ^ 32 = 4294967295 + 1 from rfl, chainCount]
    simp [isEnd, chainEnds]
  have isLba : clus2lba (oneDirectory directory) 2 = 2 := by simp [clus2lba, oneDirectory]
  have isSector : (oneDirectory directory).disk 2 = bufOf directory.flatten := rfl
  simp [dirSlots, counted, dirSectors, readCluster, isLba, isSector]

/-- `FOO.TXT`, in cluster 5 -/
def fooEntry : List UInt8 :=
  shortEntry [0x46, 0x4f, 0x4f, 0x20, 0x20, 0x20, 0x20, 0x20] [0x54, 0x58, 0x54] 0x20 5

/-- A directory with the file `FOO.TXT`. -/
theorem lookup_agrees_foo :
    LookupAgrees (oneDirectory [fooEntry]) 2 560 [0x46, 0x4f, 0x4f, 0x2e, 0x54, 0x58, 0x54] := by
  apply (lookup_agrees_when _ 2 560 _ _ (oneDirectory_slots _) (by decide)).1
  exact ⟨by decide +kernel, by decide +kernel, by decide +kernel⟩

/-- The fragment of the long name `hello` and the entry it belongs to, in cluster 6. -/
def helloEntries : List (List UInt8) :=
  [[0x41, 0x68, 0, 0x65, 0, 0x6c, 0, 0x6c, 0, 0x6f, 0, 0x0f, 0, 0x5a] ++ List.replicate 12 0 ++
    List.replicate 6 0,
   shortEntry [0x48, 0x45, 0x4c, 0x4c, 0x4f, 0x20, 0x20, 0x20] [0x20, 0x20, 0x20] 0x20 6]

/-- Behind a file with a long name, `FOO.TXT` is listed, and looking it up reads outside of the
array of fragments. -/
theorem lookup_behind_long_name :
    fatGetdents (oneDirectory (helloEntries ++ [fooEntry])) 2 1 560 =
        some (Fs.bytesReply [⟨some 5, 8, [0x46, 0x4f, 0x4f, 0x2e, 0x54, 0x58, 0x54]⟩]) ∧
      fatLookup (oneDirectory (helloEntries ++ [fooEntry])) 2
        [0x46, 0x4f, 0x4f, 0x2e, 0x54, 0x58, 0x54] = none ∧
      ¬ LookupAgrees (oneDirectory (helloEntries ++ [fooEntry])) 2 560
        [0x46, 0x4f, 0x4f, 0x2e, 0x54, 0x58, 0x54] := by
  have lost : fatLookup (oneDirectory (helloEntries ++ [fooEntry])) 2
      [0x46, 0x4f, 0x4f, 0x2e, 0x54, 0x58, 0x54] = none := by
    rw [fatLookup, oneDirectory_slots, bind_some]
    have isLost : lookupLoop [0x46, 0x4f, 0x4f, 0x2e, 0x54, 0x58, 0x54] (some [])
        (slots (bufOf (helloEntries ++ [fooEntry]).flatten)) = none := by
      decide +kernel
    rw [isLost, map_none]
  refine ⟨?_, lost, ?_⟩
  · decide +kernel
  · rintro ⟨_, -, looked⟩
    cases looked

end Micro.Fat
