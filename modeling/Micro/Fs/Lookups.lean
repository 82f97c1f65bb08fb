import Micro.Fs.Disks

/-!
# Paths on the mounted file systems

How paths are walked with the drivers, as functions of what the file systems hold: the
lookups of a path change nothing, and a walk gives a result unless a driver goes astray on
the way.
-/

namespace Micro.Fs

open Kern Ext2 List Option

variable {e : Int} {file child root : Inode} {token path : CStr} {mounts : List Mount}
  {tokens init : List CStr} {vol : Nat} {step : Inode × CStr} {opens : Opens} {disks : Disks}
  {taskCurr : Option Task}

namespace Disks

variable (disks : Disks)

/-- A call of the `lookup` pointer of an inode. -/
def look (file : Inode) (token : CStr) : Option (Except Int Inode) :=
  file.ops.lookup.bind fun op => disks.lookup op file token

/-- The walk of `get_parent_dir`. -/
def walk (taskCurr : Option Task) : Inode → List CStr → Option (Except Int Inode)
  | file, [] => if sIsdir file.mode then some (.ok file) else some (.error (-enotdir))
  | file, token :: tokens =>
      if ¬ sIsdir file.mode then some (.error (-enotdir))
      else if vfsCheckperm taskCurr file 4 = -1 then some (.error (-eacces))
      else
        match disks.look file token with
        | some (.ok child) => walk taskCurr child tokens
        | some (.error e) => some (.error e)
        | none => none

/-- What `get_parent_dir` finds. -/
def parent (mounts : List Mount) (taskCurr : Option Task) (path : CStr) :
    Option (Except Int (Inode × CStr)) :=
  match vfsGetmnt mounts path with
  | .error e => some (.error e)
  | .ok (root, relat) =>
      match (pathTokens relat).getLast? with
      | none => some (.error (-enoent))
      | some name =>
          match disks.walk taskCurr root (pathTokens relat).dropLast with
          | some (.ok dir) => some (.ok (dir, name))
          | some (.error e) => some (.error e)
          | none => none

/-- The names that a walk looks up, with the directories it looks them up in. -/
def passed (taskCurr : Option Task) : Inode → List CStr → List (Inode × CStr)
  | _, [] => []
  | file, token :: tokens =>
      if ¬ sIsdir file.mode ∨ vfsCheckperm taskCurr file 4 = -1 then []
      else
        (file, token) :: match disks.look file token with
          | some (.ok child) => passed taskCurr child tokens
          | _ => []

/-- The entries that are looked up on the way to the directory of a path. -/
def way (mounts : List Mount) (taskCurr : Option Task) (path : CStr) : List (Inode × CStr) :=
  match vfsGetmnt mounts path with
  | .ok (root, relat) => disks.passed taskCurr root (pathTokens relat).dropLast
  | .error _ => []

end Disks

/-! ## Lookups -/

theorem look_error (failed : disks.look file token = some (.error e)) : e = -enoent := by
  obtain ⟨_, _, looked⟩ := bind_eq_some_iff.mp failed
  cases Disks.lookup_answer looked
  rfl

/-- The drivers give a result where it is known, and nothing is known otherwise. -/
def Agrees {ρ : Type} (disks : Disks) (result : Option (Option Disks × ρ)) : Option ρ → Prop
  | some r => result = some (some disks, r)
  | none => ∀ disks' r, result ≠ some (some disks', r)

theorem Agrees.iff {ρ : Type} {result : Option (Option Disks × ρ)} {pure : Option ρ} {disks' : Disks}
    {r : ρ} (agrees : Agrees disks result pure) :
    result = some (some disks', r) ↔ disks' = disks ∧ pure = some r := by
  cases pure with
  | none => simpa using agrees disks' r
  | some r' =>
    have isResult : result = some (some disks, r') := agrees
    simp [isResult, eq_comm]

theorem lostRules : DirRules (drivers opens) (fun dev => dev = none) (fun _ => True)
    (fun _ => True) where
  lookup _ _ _ lost := by simp [drivers, lost]
  found _ _ _ _ _ := trivial
  readlink _ _ _ lost := by simp [drivers, lost]
  openFile _ _ _ lost := lost
  mknod _ _ _ _ _ lost _ _ := by simp [drivers, ext2Op, lost]
  mkdir _ _ _ _ lost _ _ := by simp [drivers, ext2Op, lost]
  unlink _ lost _ _ := by simp [drivers, ext2Op, lost]
  symlink _ lost _ _ := by simp [drivers, ext2Op, lost]
  link _ _ lost _ _ := by simp [drivers, ext2Op, lost]

theorem Walks.lost {Known : Inode → Prop} {result : Option (Option Disks × Except Int Inode)}
    (walks : Walks (fun dev => dev = none) Known result) : Agrees disks result none := by
  intro _ r isResult
  rw [isResult] at walks
  cases walks.1

theorem callLookup_known {result : Except Int Inode}
    (looked : disks.look file token = some result) :
    callLookup (drivers opens).toMachine (some disks) file token = some (some disks, result) := by
  obtain ⟨_, isOp, isLookup⟩ := bind_eq_some_iff.mp looked
  cases result with
  | ok child => simp [callLookup, isOp, drivers, isLookup]
  | error e =>
    have isNoent := look_error looked
    subst isNoent
    simp only [callLookup, isOp, drivers, map_some, bind_some, isLookup,
      if_pos (show -enoent < 0 by decide)]

theorem callLookup_lost (looked : disks.look file token = none) :
    callLookup (drivers opens).toMachine (some disks) file token = none ∨
      callLookup (drivers opens).toMachine (some disks) file token = some (none, .ok {}) := by
  cases isOp : file.ops.lookup with
  | none => exact .inl (by simp [callLookup, isOp])
  | some _ =>
    rw [Disks.look, isOp, bind_some] at looked
    exact .inr (by simp [callLookup, isOp, drivers, looked])

/-! ## The directory of a path -/

section Parent

theorem parentWalk_agrees (tokens : List CStr) : ∀ file,
    Agrees disks (parentWalk (drivers opens).toMachine taskCurr (some disks) file tokens)
      (disks.walk taskCurr file tokens) := by
  induction tokens with
  | nil =>
    intro file
    simp only [parentWalk, Disks.walk]
    split <;> rfl
  | cons token tokens ih =>
    intro file
    simp only [parentWalk, Disks.walk]
    split
    · rfl
    · split
      · rfl
      · cases looked : disks.look file token with
        | some result =>
          rw [callLookup_known looked]
          cases result with
          | ok child => exact ih child
          | error e => rfl
        | none =>
          rcases callLookup_lost looked with faults | lost
          · rw [faults]
            exact fun _ _ isSome => by cases isSome
          · rw [lost]
            exact (parentWalk_walks lostRules tokens rfl trivial).lost

theorem getParentDir_agrees (path : CStr) :
    Agrees disks (getParentDir (drivers opens).toMachine mounts taskCurr (some disks) path)
      (disks.parent mounts taskCurr path) := by
  simp only [getParentDir, Disks.parent]
  cases vfsGetmnt mounts path with
  | error e => rfl
  | ok found =>
    obtain ⟨root, relat⟩ := found
    dsimp only
    cases (pathTokens relat).getLast? with
    | none => rfl
    | some _ =>
      have agrees := @parentWalk_agrees opens disks taskCurr (pathTokens relat).dropLast root
      dsimp only
      cases walked : disks.walk taskCurr root (pathTokens relat).dropLast with
      | none =>
        rw [walked] at agrees
        intro _ r finds
        split at finds
        · cases finds
          exact agrees _ _ ‹_›
        · cases finds
          exact agrees _ _ ‹_›
        · cases finds
      | some result =>
        rw [walked] at agrees
        have isResult := agrees
        rw [isResult]
        cases result with
        | error e => rfl
        | ok _ => rfl

theorem walk_nil_ok {dir : Inode} : disks.walk taskCurr file [] = some (.ok dir) ↔
    sIsdir file.mode = true ∧ file = dir := by
  simp only [Disks.walk]
  split <;> simp [*]

theorem walk_cons_ok {dir : Inode} :
    disks.walk taskCurr file (token :: tokens) = some (.ok dir) ↔
      sIsdir file.mode = true ∧ vfsCheckperm taskCurr file 4 ≠ -1 ∧
        ∃ child, disks.look file token = some (.ok child) ∧
          disks.walk taskCurr child tokens = some (.ok dir) := by
  simp only [Disks.walk]
  split
  · simp [*]
  · split
    · simp [*]
    · split <;> simp_all

theorem walk_unchecked : ∀ {file dir : Inode},
    disks.walk taskCurr file tokens = some (.ok dir) → disks.walk none file tokens = some (.ok dir) := by
  induction tokens with
  | nil => exact fun walked => walked
  | cons _ tokens ih =>
    intro file dir walked
    obtain ⟨isDir, _, child, looked, walked⟩ := walk_cons_ok.mp walked
    exact walk_cons_ok.mpr ⟨isDir, by simp [vfsCheckperm], child, looked, ih walked⟩

/-- A path leads from a root through directories to a name. -/
def Leads (mounts : List Mount) (path : CStr) (root : Inode) (init : List CStr) (name : CStr) : Prop :=
  ∃ relat, vfsGetmnt mounts path = .ok (root, relat) ∧ pathTokens relat = init ++ [name]

theorem leads_or_fails (mounts : List Mount) (path : CStr) :
    (∃ root init name, Leads mounts path root init name) ∨
      ∃ e, ∀ (disks : Disks) (taskCurr : Option Task),
        disks.parent mounts taskCurr path = some (.error e) ∧ disks.way mounts taskCurr path = [] := by
  simp only [Leads, Disks.parent, Disks.way]
  cases vfsGetmnt mounts path with
  | error e => exact Or.inr ⟨e, fun _ _ => ⟨rfl, rfl⟩⟩
  | ok found =>
    obtain ⟨root, relat⟩ := found
    cases isLast : (pathTokens relat).getLast? with
    | none =>
      rw [getLast?_eq_none_iff] at isLast
      exact Or.inr ⟨-enoent, fun _ _ => by simp [isLast, Disks.passed]⟩
    | some name =>
      exact Or.inl ⟨root, (pathTokens relat).dropLast, name, relat, rfl,
        (dropLast_append_getLast? name isLast).symm⟩

section Leads

variable {name : CStr} {dir : Inode}

section

variable (leads : Leads mounts path root init name)
include leads

theorem Leads.parent :
    disks.parent mounts taskCurr path =
      (disks.walk taskCurr root init).map fun result => result.map fun dir => (dir, name) := by
  obtain ⟨_, answer, isTokens⟩ := leads
  simp only [Disks.parent, answer, isTokens, getLast?_append, dropLast_concat]
  match disks.walk taskCurr root init with
  | some (.ok dir) => rfl
  | some (.error e) => rfl
  | none => rfl

theorem Leads.way : disks.way mounts taskCurr path = disks.passed taskCurr root init := by
  obtain ⟨_, answer, isTokens⟩ := leads
  simp only [Disks.way, answer, isTokens, dropLast_concat]

theorem Leads.plain (mem : token ∈ init ++ [name]) : token ≠ [] := by
  obtain ⟨_, _, isTokens⟩ := leads
  rw [← isTokens] at mem
  exact (strtokAll_plain mem).1

theorem Leads.last_plain : name ≠ [] := leads.plain (mem_append_right _ (mem_singleton_self _))

theorem Leads.parent_ok {last : CStr}
    (found : disks.parent mounts taskCurr path = some (.ok (dir, last))) :
    disks.walk taskCurr root init = some (.ok dir) ∧ last = name := by
  rw [leads.parent] at found
  obtain ⟨result, walked, isPlace⟩ := map_eq_some_iff.mp found
  cases result with
  | error e => cases isPlace
  | ok dir =>
    cases isPlace
    exact ⟨walked, rfl⟩

end

theorem parent_ok : disks.parent mounts taskCurr path = some (.ok (dir, name)) ↔
    ∃ root init, Leads mounts path root init name ∧ disks.walk taskCurr root init = some (.ok dir) := by
  constructor
  · intro found
    rcases leads_or_fails mounts path with ⟨root, init, _, leads⟩ | ⟨e, fails⟩
    · obtain ⟨walked, isLast⟩ := leads.parent_ok found
      subst isLast
      exact ⟨root, init, leads, walked⟩
    · rw [(fails disks taskCurr).1] at found
      cases found
  · rintro ⟨root, init, leads, walked⟩
    rw [leads.parent, walked]
    rfl

theorem parent_unchecked (found : disks.parent mounts taskCurr path = some (.ok (dir, name))) :
    disks.parent mounts none path = some (.ok (dir, name)) := by
  obtain ⟨root, init, leads, walked⟩ := parent_ok.mp found
  exact parent_ok.mpr ⟨root, init, leads, walk_unchecked walked⟩

end Leads

theorem walk_isDir : ∀ {file dir : Inode},
    disks.walk taskCurr file tokens = some (.ok dir) →
    sIsdir file.mode = true ∧ sIsdir dir.mode = true := by
  induction tokens with
  | nil =>
    intro file dir walked
    obtain ⟨isDir, same⟩ := walk_nil_ok.mp walked
    exact ⟨isDir, same ▸ isDir⟩
  | cons _ tokens ih =>
    intro file dir walked
    obtain ⟨isDir, _, _, _, walked⟩ := walk_cons_ok.mp walked
    exact ⟨isDir, (ih walked).2⟩

end Parent

/-! ## Resolving a path -/

theorem not_link_of_isDir {mode : Nat} (isDir : sIsdir mode = true) : sIslnk mode = false := by
  simp only [sIsdir, sIslnk, beq_iff_eq] at isDir ⊢
  simp [isDir]

section Resolve

variable {symlinks : Bool} {name : CStr} {dev : Option Disks}
  {follow : Option Disks → CStr → Option (Option Disks × Except Int Inode)}

theorem resolveWalk_found {found : Inode} (notLink : sIslnk child.mode = false) (init : List CStr) :
    ∀ {file dir : Inode}, disks.walk none file init = some (.ok dir) →
    disks.look dir name = some (.ok child) →
    resolveWalk (drivers opens).toMachine taskCurr symlinks follow (some disks) file (init ++ [name]) =
      some (dev, .ok found) → found = child := by
  induction init with
  | nil =>
    intro file dir walked looked resolved
    obtain ⟨_, same⟩ := walk_nil_ok.mp walked
    subst same
    rw [nil_append, resolveWalk, callLookup_known looked] at resolved
    split at resolved
    · cases resolved
    · split at resolved
      · cases resolved
      · simp only [notLink] at resolved
        cases resolved
        rfl
  | cons _ init ih =>
    intro file dir walked looked resolved
    obtain ⟨isDir, _, _, isNext, walked⟩ := walk_cons_ok.mp walked
    have notLinkNext := not_link_of_isDir (walk_isDir walked).1
    rw [cons_append, resolveWalk, callLookup_known isNext, if_neg (not_not.mpr isDir)] at resolved
    split at resolved
    · cases resolved
    · simp only [notLinkNext] at resolved
      exact ih walked looked resolved

theorem resolveWalk_agrees (lost : ∀ {dev link}, dev = none →
      Walks (fun dev => dev = none) (fun _ => True) (follow dev link)) (init : List CStr) : ∀ file,
    Agrees disks (resolveWalk (drivers opens).toMachine none false follow (some disks) file
        (init ++ [name]))
      (match disks.walk none file init with
      | some (.ok dir) => disks.look dir name
      | some (.error e) => some (.error e)
      | none => none) := by
  induction init with
  | nil =>
    intro file
    simp only [nil_append, resolveWalk, Disks.walk]
    by_cases isDir : sIsdir file.mode = true
    · simp only [isDir, Bool.and_false, if_true]
      cases looked : disks.look file name with
      | some result =>
        rw [callLookup_known looked]
        cases result with
        | ok child => rfl
        | error e => rfl
      | none =>
        rcases callLookup_lost looked with faults | lost
        · rw [faults]
          exact fun _ _ isSome => by cases isSome
        · rw [lost]
          exact fun _ _ isSome => by cases isSome
    · simp only [isDir]
      rfl
  | cons token init ih =>
    intro file
    simp only [cons_append, resolveWalk, Disks.walk]
    by_cases isDir : sIsdir file.mode = true
    · simp only [isDir, Bool.and_false]
      cases looked : disks.look file token with
      | some result =>
        rw [callLookup_known looked]
        cases result with
        | ok child => exact ih child
        | error e => rfl
      | none =>
        rcases callLookup_lost looked with faults | astray
        · rw [faults]
          exact fun _ _ isSome => by cases isSome
        · rw [astray]
          exact (resolveWalk_walks lostRules lost (init ++ [name]) rfl trivial).lost
    · simp only [isDir]
      rfl

variable (leads : Leads mounts path root init name)
include leads

theorem Leads.resolve :
    Agrees disks (vfsResolve (drivers opens).toMachine mounts none false (some disks) path)
      (match disks.walk none root init with
      | some (.ok dir) => disks.look dir name
      | some (.error e) => some (.error e)
      | none => none) := by
  obtain ⟨_, answer, isTokens⟩ := leads
  simp only [vfsResolve, doVfsResolve, answer, isTokens]
  apply resolveWalk_agrees
  intro _ _ lost
  exact doVfsResolve_walks lostRules (fun _ _ => trivial) 7 lost

theorem Leads.resolves {dir found : Inode} (walked : disks.walk none root init = some (.ok dir))
    (looked : disks.look dir name = some (.ok child)) (notLink : sIslnk child.mode = false)
    (resolved : vfsResolve (drivers opens).toMachine mounts taskCurr symlinks (some disks) path =
      some (dev, .ok found)) : found = child := by
  obtain ⟨_, answer, isTokens⟩ := leads
  simp only [vfsResolve, doVfsResolve, answer, isTokens] at resolved
  exact resolveWalk_found notLink init walked looked resolved

end Resolve

/-! ## Entries -/

/-- Where an entry is: the volume, the number of the directory, and the name. -/
abbrev Entry := Nat × Nat × CStr

/-- The entry with a name in a directory. -/
def entryAt (dir : Inode) (name : CStr) : Entry := (dir.priv, dir.inode, name)

/-- The inodes of the entries with a name, in use or not. -/
def numbers (links : List (List UInt8 × Nat)) (name : List UInt8) : List Nat :=
  (links.filter fun entry => entry.1 = name).map Prod.snd

namespace Disks

variable (disks : Disks)

def nodeAt (vol num : Nat) : Option Ext2.Node := (disks.trees vol).bind fun tree => tree.node num

def inodeAt (vol num : Nat) : Option Inode := (disks.nodeAt vol num).map (inode2file vol num)

/-- The inodes of the entries with the same name in the same directory, in use or not. -/
def numbersAt (entry : Entry) : Option (List Nat) :=
  (disks.nodeAt entry.1 entry.2.1).map fun node => numbers node.links entry.2.2

/-- The inode of the first of them, which lookups find. -/
def firstAt (entry : Entry) : Option (Option Nat) := (disks.numbersAt entry).map List.head?

/-- The inodes of those in use. -/
def holding (entry : Entry) : List Nat := ((disks.numbersAt entry).getD []).filter (· ≠ 0)

end Disks

/-- `ext2_lookup` gives the inode of the first entry with the name. -/
theorem ext2Lookup_eq (dir : Inode) (name : CStr) :
    disks.ext2Lookup dir name = (disks.firstAt (entryAt dir name)).bind fun first =>
        match first with
        | some n => (disks.inodeAt dir.priv n).map .ok
        | none => some (.error (-enoent)) := by
  simp only [Disks.ext2Lookup, Disks.firstAt, Disks.numbersAt, Disks.inodeAt, Disks.nodeAt, entryAt,
    Tree.lookup]
  cases disks.trees dir.priv with
  | none => rfl
  | some tree =>
    simp only [bind_some]
    cases tree.node dir.inode with
    | none => rfl
    | some node =>
      simp only [bind_some, map_some, numbers, head?_map, head?_filter]
      cases node.links.find? fun entry => entry.1 = name with
      | none => rfl
      | some entry => cases isChild : tree.node entry.2 <;> simp [isChild, Except.map]

theorem inodeAt_some {num : Nat} {inode : Inode} (isInode : disks.inodeAt vol num = some inode) :
    num ≠ 0 ∧ inode.inode = num ∧ inode.priv = vol := by
  obtain ⟨_, isNode, isFile⟩ := map_eq_some_iff.mp isInode
  obtain ⟨_, _, isNode⟩ := bind_eq_some_iff.mp isNode
  subst isFile
  refine ⟨fun zero => ?_, rfl, rfl⟩
  simp [Ext2.Tree.node, zero] at isNode

section Look

variable {dir : Inode} {name : CStr} (isOp : dir.ops.lookup = some ext2Fn)
include isOp

theorem look_ext2 : disks.look dir name = disks.ext2Lookup dir name := by
  rw [Disks.look, isOp, bind_some, Disks.lookup, if_pos rfl]

theorem look_ext2_ok : disks.look dir name = some (.ok child) ↔
    ∃ n, disks.firstAt (entryAt dir name) = some (some n) ∧ disks.inodeAt dir.priv n = some child := by
  rw [look_ext2 isOp, ext2Lookup_eq]
  cases disks.firstAt (entryAt dir name) with
  | none => simp
  | some first => cases first <;> simp

theorem look_ext2_error (absent : disks.firstAt (entryAt dir name) = some none) :
    disks.look dir name = some (.error (-enoent)) := by
  rw [look_ext2 isOp, ext2Lookup_eq, absent]
  rfl

theorem look_ext2_zero (unused : disks.firstAt (entryAt dir name) = some (some 0)) :
    disks.look dir name = none := by
  rw [look_ext2 isOp, ext2Lookup_eq, unused]
  cases isInode : disks.inodeAt dir.priv 0 with
  | none => simp [isInode]
  | some _ => exact absurd rfl (inodeAt_some isInode).1

end Look

theorem numbers_append (first second : List (List UInt8 × Nat)) (name : List UInt8) :
    numbers (first ++ second) name = numbers first name ++ numbers second name := by
  rw [numbers, filter_append, map_append]
  rfl

theorem numbers_cons (entry : List UInt8 × Nat) (links : List (List UInt8 × Nat)) (name : List UInt8) :
    numbers (entry :: links) name =
      if entry.1 = name then entry.2 :: numbers links name else numbers links name := by
  simp only [numbers]
  split <;> simp_all

theorem numbers_absent {links : List (List UInt8 × Nat)} {name : List UInt8}
    (absent : ∀ entry ∈ links, entry.1 ≠ name) : numbers links name = [] := by
  rw [numbers]
  simpa using absent

/-! ## Two states -/

/-- Another state with the same inodes; entries of volumes may differ. -/
structure Similar (disks after : Disks) : Prop where
  devices : after.devices = disks.devices
  images : after.images = disks.images
  scrap : after.scrap = disks.scrap
  inodes : ∀ vol num, after.inodeAt vol num = disks.inodeAt vol num

section Similar

variable {after : Disks}

theorem Similar.trans {third : Disks} (first : Similar disks after) (second : Similar after third) :
    Similar disks third where
  devices := second.devices.trans first.devices
  images := second.images.trans first.images
  scrap := second.scrap.trans first.scrap
  inodes vol num := (second.inodes vol num).trans (first.inodes vol num)

theorem Similar.look (similar : Similar disks after) (same : file.ops.lookup = some ext2Fn →
      after.firstAt (entryAt file token) = disks.firstAt (entryAt file token)) :
    after.look file token = disks.look file token := by
  by_cases isOp : file.ops.lookup = some ext2Fn
  · rw [look_ext2 isOp, look_ext2 isOp, ext2Lookup_eq, ext2Lookup_eq, same isOp]
    simp only [similar.inodes]
  · simp only [Disks.look]
    cases isSome : file.ops.lookup with
    | none => rfl
    | some op =>
      have notExt2 : op ≠ ext2Fn := fun equal => isOp (by rw [isSome, equal])
      simp only [bind_some, Disks.lookup, if_neg notExt2, Disks.devfsLookup,
        Disks.initramfsLookup, similar.devices, similar.images, similar.scrap]

theorem Similar.look_or (similar : Similar disks after) (file : Inode) (token : CStr) :
    after.look file token = disks.look file token ∨ file.ops.lookup = some ext2Fn := by
  by_cases isOp : file.ops.lookup = some ext2Fn
  · exact .inr isOp
  · exact .inl (similar.look fun is => absurd is isOp)

end Similar

section Passed

variable {after : Disks} {taskCurr : Option Task}

theorem mem_passed_cons :
    step ∈ disks.passed taskCurr file (token :: tokens) ↔
      sIsdir file.mode = true ∧ vfsCheckperm taskCurr file 4 ≠ -1 ∧ (step = (file, token) ∨
        ∃ child, disks.look file token = some (.ok child) ∧
          step ∈ disks.passed taskCurr child tokens) := by
  rw [Disks.passed]
  split
  · rename_i stops
    rcases stops with stops | stops <;> simp_all
  · split <;> simp_all

theorem mem_passed : ∀ {file : Inode} {step : Inode × CStr},
    step ∈ disks.passed taskCurr file tokens → sIsdir step.1.mode = true ∧ step.2 ∈ tokens := by
  induction tokens with
  | nil => nofun
  | cons _ tokens ih =>
    intro file step mem
    obtain ⟨isDir, _, first | ⟨_, _, later⟩⟩ := mem_passed_cons.mp mem
    · rw [first]
      exact ⟨isDir, mem_cons_self⟩
    · exact ⟨(ih later).1, mem_cons_of_mem _ (ih later).2⟩

theorem Leads.passed_plain {name : CStr} (leads : Leads mounts path root init name)
    (mem : step ∈ disks.passed taskCurr file init) : step.2 ≠ [] :=
  leads.plain (mem_append_left _ (mem_passed mem).2)

theorem passed_unchecked : ∀ {file : Inode} {step : Inode × CStr},
    step ∈ disks.passed taskCurr file tokens → step ∈ disks.passed none file tokens := by
  induction tokens with
  | nil => nofun
  | cons _ tokens ih =>
    intro file step mem
    obtain ⟨isDir, _, rest⟩ := mem_passed_cons.mp mem
    refine mem_passed_cons.mpr ⟨isDir, by simp [vfsCheckperm], rest.imp_right ?_⟩
    rintro ⟨child, looked, later⟩
    exact ⟨child, looked, ih later⟩

theorem passed_found : ∀ {file dir : Inode},
    disks.walk taskCurr file tokens = some (.ok dir) → ∀ step ∈ disks.passed taskCurr file tokens,
      ∃ child, disks.look step.1 step.2 = some (.ok child) ∧ sIsdir child.mode = true := by
  induction tokens with
  | nil => exact fun _ step mem => by cases mem
  | cons _ tokens ih =>
    intro file dir walked step mem
    obtain ⟨_, _, child, looked, walked⟩ := walk_cons_ok.mp walked
    obtain ⟨_, _, first | ⟨_, looked', later⟩⟩ := mem_passed_cons.mp mem
    · rw [first]
      exact ⟨child, looked, (walk_isDir walked).1⟩
    · cases looked.symm.trans looked'
      exact ih walked step later

/-- A walk with a result has not gone astray at any name. -/
theorem passed_known : ∀ {file : Inode},
    disks.walk taskCurr file tokens ≠ none → ∀ step ∈ disks.passed taskCurr file tokens,
      disks.look step.1 step.2 ≠ none := by
  induction tokens with
  | nil => exact fun _ step mem => by cases mem
  | cons _ tokens ih =>
    intro file known step mem
    obtain ⟨isDir, mayRead, place⟩ := mem_passed_cons.mp mem
    simp only [Disks.walk, if_neg (not_not.mpr isDir), if_neg mayRead] at known
    rcases place with first | ⟨_, looked, later⟩
    · rw [first]
      intro astray
      rw [astray] at known
      exact known rfl
    · rw [looked] at known
      exact ih known step later

/-- The same walk in another state, where lookups may have become `Bad`. -/
theorem walk_changed {Bad : Option (Except Int Inode) → Prop} (notOk : ∀ child, ¬ Bad (some (.ok child)))
    (tokens : List CStr) : ∀ {file : Inode},
    (∀ step ∈ disks.passed taskCurr file tokens, after.look step.1 step.2 = disks.look step.1 step.2 ∨
      Bad (after.look step.1 step.2)) →
    (∀ step ∈ disks.passed taskCurr file tokens, after.look step.1 step.2 = disks.look step.1 step.2) ∧
        after.walk taskCurr file tokens = disks.walk taskCurr file tokens ∨
      Bad (after.walk taskCurr file tokens) := by
  induction tokens with
  | nil => exact fun _ => .inl ⟨fun step mem => absurd mem not_mem_nil, rfl⟩
  | cons token tokens ih =>
    intro file changed
    simp only [Disks.walk]
    by_cases isDir : ¬ sIsdir file.mode
    · simp [isDir, Disks.passed]
    · by_cases mayNot : vfsCheckperm taskCurr file 4 = -1
      · simp [mayNot, Disks.passed]
      · have looks := not_or.mpr ⟨isDir, mayNot⟩
        simp only [Disks.passed, if_neg looks, if_neg isDir, if_neg mayNot,
          forall_mem_cons] at changed ⊢
        rcases changed.1 with same | isBad
        · rw [same]
          match looked : disks.look file token with
          | some (.ok child) =>
            simp only [looked] at changed
            rcases ih changed.2 with ⟨allSame, sameWalk⟩ | isBad
            · exact .inl ⟨⟨rfl, allSame⟩, sameWalk⟩
            · exact .inr isBad
          | some (.error e) => simp
          | none => simp
        · right
          match looked : after.look file token with
          | some (.ok child) =>
            rw [looked] at isBad
            exact absurd isBad (notOk child)
          | some (.error e) =>
            rw [looked] at isBad
            exact isBad
          | none =>
            rw [looked] at isBad
            exact isBad

theorem walk_same (same : ∀ step ∈ disks.passed taskCurr file tokens,
      after.look step.1 step.2 = disks.look step.1 step.2) :
    after.walk taskCurr file tokens = disks.walk taskCurr file tokens := by
  rcases @walk_changed disks after taskCurr (fun _ => False) (fun _ => id) tokens file
    fun step mem => .inl (same step mem) with ⟨_, sameWalk⟩ | impossible
  · exact sameWalk
  · exact impossible.elim

end Passed

/-! ## Changes of one directory -/

section Relinks

variable {dir : Nat} {tree after : Tree}
  {change : List (List UInt8 × Nat) → List (List UInt8 × Nat) → Prop}

theorem nodeAt_setTree (other num : Nat) :
    (disks.setTree vol after).nodeAt other num =
      if other = vol then after.node num else disks.nodeAt other num := by
  simp only [Disks.nodeAt, Disks.setTree, Function.update_apply]
  split <;> rfl

variable (isTree : disks.trees vol = some tree)
include isTree

variable (relinks : tree.Relinks dir change after)
include relinks

theorem relinks_similar : Similar disks (disks.setTree vol after) where
  devices := rfl
  images := rfl
  scrap := rfl
  inodes other num := by
    simp only [Disks.inodeAt, nodeAt_setTree]
    split
    · rename_i sameVol
      subst sameVol
      have isNode : disks.nodeAt other num = tree.node num := by rw [Disks.nodeAt, isTree, bind_some]
      rw [isNode]
      by_cases same : num = dir
      · subst same
        obtain ⟨_, _, isOld, isNew, _⟩ := relinks.here
        rw [isOld, isNew]
        rfl
      · rw [relinks.others num same]
    · rfl

theorem relinks_others {entry : Entry} (elsewhere : ¬ (entry.1 = vol ∧ entry.2.1 = dir)) :
    (disks.setTree vol after).numbersAt entry = disks.numbersAt entry := by
  simp only [Disks.numbersAt, nodeAt_setTree]
  split
  · rename_i sameVol
    rw [relinks.others _ fun same => elsewhere ⟨sameVol, same⟩, Disks.nodeAt, sameVol, isTree,
      bind_some]
  · rfl

theorem relinks_here :
    ∃ node links, tree.node dir = some node ∧ change node.links links ∧ ∀ name,
      disks.numbersAt (vol, dir, name) = some (numbers node.links name) ∧
      (disks.setTree vol after).numbersAt (vol, dir, name) = some (numbers links name) := by
  obtain ⟨node, _, isOld, isNew, changed⟩ := relinks.here
  refine ⟨node, _, isOld, changed, fun name => ⟨?_, ?_⟩⟩
  · simp only [Disks.numbersAt, Disks.nodeAt, isTree, bind_some, isOld, map_some]
  · simp only [Disks.numbersAt, nodeAt_setTree, if_true, isNew, map_some]

end Relinks

end Micro.Fs
