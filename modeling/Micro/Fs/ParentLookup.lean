import Mathlib.Data.List.Basic
import Micro.Fs.Symlinks

/-!
# The parent of a path

`get_parent_dir` finds the directory that holds the last component of a path.  It walks
the components before it as `vfs_resolve` would walk the path of the parent, but it was
written apart: it does not follow symbolic links, and it takes the mount of the whole path
where `vfs_resolve` takes the mount of the parent.

Both use the same lookups, so nothing is assumed of the file system here: the drivers'
operations are whatever the machine has.
-/

namespace Micro.Fs

open Kern List Option

variable {file : Inode} {relat : CStr} {σ : Type} {disk : σ}

/-! ## The walk both share -/

/-- Where a walk ends: at a file, with an error, or at the first symbolic link. -/
inductive Walked where
  | at (file : Inode)
  | fails (e : Int)
  | link (file : Inode)

/-- Look up each component in turn, up to the first link. -/
def walkTo (machine : Machine σ) (taskCurr : Option Task) :
    σ → Inode → List CStr → Option (σ × Walked)
  | dev, file, [] => some (dev, .at file)
  | dev, file, token :: tokens =>
      if ¬ sIsdir file.mode then some (dev, .fails (-enotdir))
      else if vfsCheckperm taskCurr file 4 = -1 then some (dev, .fails (-eacces))
      else
        match callLookup machine dev file token with
        | some (dev, .ok child) =>
            if sIslnk child.mode then some (dev, .link child)
            else walkTo machine taskCurr dev child tokens
        | some (dev, .error e) => some (dev, .fails e)
        | none => none

/-- Read a link and resolve its target. -/
def followLink (machine : Machine σ) (follow : σ → CStr → Option (σ × Except Int Inode))
    (dev : σ) (file : Inode) : Option (σ × Except Int Inode) :=
  let (dev, n, bytes) := vfsReadlink machine dev file 60
  match linkTarget n bytes with
  | some link => follow dev link
  | none => none

section Walks

variable (machine : Machine σ) (taskCurr : Option Task)

/-- The loop of `do_vfs_resolve` follows the first link. -/
theorem resolveWalk_walkTo (follow : σ → CStr → Option (σ × Except Int Inode))
    (names : List CStr) : ∀ (dev : σ) (file : Inode),
    resolveWalk machine taskCurr true follow dev file names =
      (walkTo machine taskCurr dev file names).bind fun reached =>
        match reached.2 with
        | .at file => some (reached.1, .ok file)
        | .fails e => some (reached.1, .error e)
        | .link file => followLink machine follow reached.1 file := by
  induction names with
  | nil => exact fun _ _ => rfl
  | cons name names ih =>
    intro dev file
    simp only [resolveWalk, walkTo]
    split
    · rfl
    · split
      · rfl
      · rcases callLookup machine dev file name with _ | ⟨disk, _ | child⟩
        · rfl
        · rfl
        · simp only [Bool.and_true]
          split
          · rfl
          · exact ih disk child

/-- The loop of `get_parent_dir` finds that the first link is no directory. -/
theorem parentWalk_walkTo (names : List CStr) : ∀ (dev : σ) (file : Inode),
    parentWalk machine taskCurr dev file names =
      (walkTo machine taskCurr dev file names).map fun reached =>
        (reached.1, match reached.2 with
          | .at file => if sIsdir file.mode then .ok file else .error (-enotdir)
          | .fails e => .error e
          | .link _ => .error (-enotdir)) := by
  have noDir : ∀ {file : Inode}, sIslnk file.mode = true → sIsdir file.mode = false := by
    intro file isLink
    simp only [sIslnk, sIsdir, beq_iff_eq] at isLink ⊢
    rw [isLink]
    decide
  induction names with
  | nil =>
    intro dev file
    simp only [parentWalk, walkTo, map_some]
    split <;> rfl
  | cons name names ih =>
    intro dev file
    simp only [parentWalk, walkTo]
    split
    · rfl
    · split
      · rfl
      · rcases callLookup machine dev file name with _ | ⟨disk, _ | child⟩
        · rfl
        · rfl
        · by_cases isLink : sIslnk child.mode = true
          · simp only [isLink]
            cases names <;> simp [parentWalk, noDir isLink]
          · simp only [isLink]
            exact ih disk child

end Walks

/-! ## Errors -/

variable {machine : Machine σ} {mounts : List Mount} {taskCurr : Option Task} {dev : σ}
  {path : CStr}

section Errors

variable {e : Int}

theorem callLookup_negative {token : CStr}
    (failed : callLookup machine dev file token = some (disk, .error e)) : e < 0 := by
  rcases map_eq_some_iff.mp failed with ⟨_, _, isResult⟩
  rw [Prod.mk.injEq] at isResult
  have isError := isResult.2
  split at isError
  · cases isError
    assumption
  · cases isError

theorem walkTo_negative (names : List CStr) : ∀ {dev : σ} {file : Inode},
    walkTo machine taskCurr dev file names = some (disk, .fails e) → e < 0 := by
  induction names with
  | nil =>
    intro dev file failed
    cases failed
  | cons _ names ih =>
    intro dev file failed
    simp only [walkTo] at failed
    split at failed
    · cases failed
      decide
    · split at failed
      · cases failed
        decide
      · split at failed
        · split at failed
          · cases failed
          · exact ih failed
        · rename_i looked
          cases failed
          exact callLookup_negative looked
        · cases failed

theorem vfsGetmnt_negative (unmounted : vfsGetmnt mounts path = .error e) : e < 0 := by
  simp only [vfsGetmnt] at unmounted
  split at unmounted
  · cases unmounted
  · cases unmounted
    decide

theorem doVfsResolve_negative (depth : Nat) : ∀ {dev : σ} {path : CStr},
    doVfsResolve machine mounts taskCurr depth true dev path = some (disk, .error e) → e < 0 := by
  induction depth with
  | zero =>
    intro dev path failed
    cases failed
    decide
  | succ depth ih =>
    intro dev path failed
    simp only [doVfsResolve] at failed
    split at failed
    · rename_i unmounted
      cases failed
      exact vfsGetmnt_negative unmounted
    · rw [resolveWalk_walkTo] at failed
      rcases bind_eq_some_iff.mp failed with ⟨⟨_, _ | _ | _⟩, walked, rest⟩
      · cases rest
      · cases rest
        exact walkTo_negative _ walked
      · simp only [followLink] at rest
        split at rest
        · exact ih rest
        · cases rest

theorem getParentDir_negative
    (failed : getParentDir machine mounts taskCurr dev path = some (disk, .error e)) : e < 0 := by
  simp only [getParentDir, parentWalk_walkTo] at failed
  split at failed
  · rename_i unmounted
    cases failed
    exact vfsGetmnt_negative unmounted
  split at failed
  · cases failed
    decide
  split at failed
  · cases failed
  · rename_i walked
    cases failed
    rcases map_eq_some_iff.mp walked with ⟨⟨_, reached⟩, reaches, isResult⟩
    cases reached with
    | «at» file =>
      by_cases isDir : sIsdir file.mode = true
      · simp [isDir] at isResult
      · simp only [isDir] at isResult
        cases isResult
        decide
    | fails e =>
      cases isResult
      exact walkTo_negative _ reaches
    | link file =>
      cases isResult
      decide
  · cases failed

end Errors

/-! ## The path and its parent -/

def parentPath (path : CStr) : CStr := canonPath (pathTokens path).dropLast

def lastName (path : CStr) : CStr := (pathTokens path).getLast?.getD []

/-- The mounts whose path starts the path all start the path of the parent. -/
def SameMount (mounts : List Mount) (path : CStr) : Prop :=
  ∀ mount ∈ mounts, mount.path <+: path → mount.path <+: parentPath path

instance (mounts : List Mount) (path : CStr) : Decidable (SameMount mounts path) :=
  inferInstanceAs (Decidable (∀ mount ∈ mounts, mount.path <+: path →
    mount.path <+: parentPath path))

/-- A path below a directory is the directory's, a slash unless the directory is the root,
and the last component. -/
theorem path_split (canonical : Canonical path) (below : pathTokens path ≠ []) :
    Component (lastName path) ∧
      ((parentPath path = [47] ∧ path = 47 :: lastName path) ∨
        path = parentPath path ++ 47 :: lastName path) := by
  rcases eq_nil_or_concat (pathTokens path) with none | ⟨names, last, isConcat⟩
  · exact absurd none below
  · have valid := canonical.components
    have isPath := canonical.eq_canonPath
    simp only [parentPath, lastName]
    rw [isConcat] at valid isPath ⊢
    rw [concat_eq_append] at valid isPath ⊢
    simp only [dropLast_concat, getLast?_concat]
    constructor
    · exact valid last (by simp)
    · cases names with
      | nil =>
        left
        constructor
        · rfl
        · rw [isPath]
          simp [canonPath]
      | cons _ names =>
        right
        rw [cons_append, canonPath_cons] at isPath
        rw [canonPath_cons]
        simpa using isPath

theorem pathTokens_concat {name : CStr} (component : Component name) (s : CStr) :
    pathTokens (s ++ 47 :: name) = pathTokens s ++ [name] := by
  have parts : (s ++ 47 :: name).splitOn 47 = s.splitOn 47 ++ [name] := by
    induction s with
    | nil =>
      rw [nil_append, splitOn_cons_eq_if_modifyHead, splitOn_eq_singleton component.noSlash]
      rfl
    | cons c rest ih =>
      rw [cons_append, splitOn_cons_eq_if_modifyHead, splitOn_cons_eq_if_modifyHead, ih]
      split
      · rfl
      · rcases exists_cons_of_ne_nil (splitOn_ne_nil 47 rest) with ⟨_, _, isCons⟩
        rw [isCons]
        rfl
  rw [pathTokens_splitOn, parts, pathTokens_splitOn]
  simp [component.nonempty]

theorem pathTokens_plain {s : CStr} (noSlash : 47 ∉ s) :
    pathTokens s = if s = [] then [] else [s] := by
  rw [pathTokens_splitOn, splitOn_eq_singleton noSlash]
  split <;> simp [*]

section Mounted

variable (canonical : Canonical path)
include canonical

variable (below : pathTokens path ≠ [])
include below

theorem parentPath_isPrefix : parentPath path <+: path := by
  rcases (path_split canonical below).2 with ⟨isRoot, isPath⟩ | isPath
  · rw [isRoot]
    exact ⟨lastName path, isPath.symm⟩
  · exact ⟨_, isPath.symm⟩

/-- When every mount of the path is one of the parent, the same mount is chosen for both,
and what is left of the path has one component more. -/
theorem getmnt_same (same : SameMount mounts path) :
    (vfsGetmnt mounts (parentPath path) = .error (-enoent) ∧
      vfsGetmnt mounts path = .error (-enoent)) ∨
    ∃ file relat relatPath, vfsGetmnt mounts (parentPath path) = .ok (file, relat) ∧
      vfsGetmnt mounts path = .ok (file, relatPath) ∧
      pathTokens relatPath = pathTokens relat ++ [lastName path] := by
  have isStart := parentPath_isPrefix canonical below
  have steps : ∀ mount ∈ mounts, ∀ candidate,
      getmntStep path candidate mount = getmntStep (parentPath path) candidate mount := by
    intro mount mem candidate
    have iff : mount.path <+: path ↔ mount.path <+: parentPath path :=
      ⟨same mount mem, fun starts => starts.trans isStart⟩
    rw [getmntStep_eq, getmntStep_eq]
    simp only [iff]
  have folds : mounts.foldl (getmntStep path) (none, 0) =
      mounts.foldl (getmntStep (parentPath path)) (none, 0) := by
    apply foldl_ext
    exact fun candidate mount mem => steps mount mem candidate
  have best := getmnt_best mounts (parentPath path)
  simp only [vfsGetmnt, folds]
  generalize mounts.foldl (getmntStep (parentPath path)) (none, 0) = candidate at best ⊢
  rcases candidate with ⟨_ | mount, i⟩
  · exact .inl ⟨rfl, rfl⟩
  · right
    rcases best.matched mount rfl with ⟨_, starts, isLength⟩
    refine ⟨mount.file, (parentPath path).drop i, path.drop i, rfl, rfl, ?_⟩
    have short : i ≤ (parentPath path).length := by
      rw [show i = mount.path.length from isLength]
      exact starts.length_le
    rcases path_split canonical below with ⟨component, ⟨isRoot, isPath⟩ | isPath⟩
    · have tokens : pathTokens (lastName path) = [lastName path] := by
        rw [pathTokens_plain component.noSlash, if_neg component.nonempty]
      have left : pathTokens (path.drop i) = [lastName path] := by
        cases i with
        | zero =>
          conv_lhs => rw [isPath]
          exact (pathTokens_slash _).trans tokens
        | succ i =>
          conv_lhs => rw [isPath]
          rw [isRoot, length_singleton, Nat.succ_le_succ_iff] at short
          rw [Nat.le_zero.mp short]
          exact tokens
      have none : pathTokens ([47].drop i) = [] := by
        cases i with
        | zero => rfl
        | succ i => rw [drop_succ_cons, drop_nil]; rfl
      rw [isRoot, left, none, nil_append]
    · have dropped : path.drop i = (parentPath path).drop i ++ 47 :: lastName path := by
        conv_lhs => rw [isPath]
        exact drop_append_of_le_length short
      rw [dropped, pathTokens_concat component]

/-- When a mount of the path is none of the parent, what is left of the path is an end of
its last component. -/
theorem getmnt_other (other : ¬ SameMount mounts path) :
    ∃ file relat, vfsGetmnt mounts path = .ok (file, relat) ∧ 47 ∉ relat := by
  have isStart := parentPath_isPrefix canonical below
  simp only [SameMount, not_forall] at other
  rcases other with ⟨mount, mem, starts, notParent⟩
  have longer : (parentPath path).length < mount.path.length := by
    apply Nat.lt_of_not_le
    exact fun shorter => notParent (prefix_of_prefix_length_le starts isStart shorter)
  have best := getmnt_best mounts path
  simp only [vfsGetmnt]
  generalize mounts.foldl (getmntStep path) (none, 0) = candidate at best ⊢
  have reaches := Nat.lt_of_lt_of_le longer (best.longest mount mem starts)
  rcases candidate with ⟨_ | chosen, i⟩
  · rw [best.unmatched rfl] at reaches
    exact absurd reaches (Nat.not_lt_zero _)
  · refine ⟨chosen.file, path.drop i, rfl, ?_⟩
    rcases path_split canonical below with ⟨component, split⟩
    have last : ∃ k ≤ i, path.drop k = lastName path := by
      rcases split with ⟨_, isPath⟩ | isPath
      · refine ⟨1, Nat.one_le_of_lt reaches, ?_⟩
        conv_lhs => rw [isPath]
        rfl
      · refine ⟨(parentPath path).length + 1, reaches, ?_⟩
        have dropped : ∀ s name : CStr, (s ++ 47 :: name).drop (s.length + 1) = name := by simp
        exact (congrArg (drop _) isPath).trans (dropped _ _)
    rcases last with ⟨k, _, isLast⟩
    rw [show i = k + (i - k) by omega, ← drop_drop, isLast]
    exact fun slash => component.noSlash (mem_of_mem_drop slash)

end Mounted

/-! ## Agreement -/

/-- A directory that the task may read. -/
def ReadableDir (taskCurr : Option Task) (dir : Inode) : Prop :=
  sIsdir dir.mode = true ∧ vfsCheckperm taskCurr dir 4 ≠ -1

section Agreement

variable (machine mounts taskCurr dev path)

/-- `get_parent_dir` finds the directory to which `vfs_resolve` resolves the parent, if it
may be read, and fails where `vfs_resolve` fails. -/
structure ParentAgrees : Prop where
  found : ∀ disk dir,
    vfsResolve machine mounts taskCurr true dev (parentPath path) = some (disk, .ok dir) →
    ReadableDir taskCurr dir →
    ∃ after, getParentDir machine mounts taskCurr dev path = some (after, .ok (dir, lastName path))
  failed : ∀ disk e,
    vfsResolve machine mounts taskCurr true dev (parentPath path) = some (disk, .error e) →
    ∃ after e', getParentDir machine mounts taskCurr dev path = some (after, .error e')

/-- Where no mount comes between the path and its parent, a symbolic link on the way to the
parent leads to no directory that may be read.  Where one does, `get_parent_dir` starts
from it: the parent is no directory that may be read unless it is the root of that mount
and the whole last component is left; and if the parent is not found, nothing is left of
the path or the root of the mount is no directory. -/
structure Undisturbed : Prop where
  links : SameMount mounts path → ∀ file relat disk link after dir,
    vfsGetmnt mounts (parentPath path) = .ok (file, relat) →
    walkTo machine taskCurr dev file (pathTokens relat) = some (disk, .link link) →
    followLink machine (doVfsResolve machine mounts taskCurr 7 true) disk link =
      some (after, .ok dir) →
    ¬ ReadableDir taskCurr dir
  mounted : ¬ SameMount mounts path → ∀ file relat, vfsGetmnt mounts path = .ok (file, relat) →
    (∀ disk dir,
      vfsResolve machine mounts taskCurr true dev (parentPath path) = some (disk, .ok dir) →
      ReadableDir taskCurr dir → relat = lastName path ∧ file = dir) ∧
    (∀ disk e,
      vfsResolve machine mounts taskCurr true dev (parentPath path) = some (disk, .error e) →
      relat = [] ∨ sIsdir file.mode = false)

end Agreement

section Cases

/-- With the same mount, `get_parent_dir` ends where the walk ends. -/
theorem getParentDir_walkTo {names : List CStr}
    (mounted : vfsGetmnt mounts path = .ok (file, relat))
    (tokens : pathTokens relat = names ++ [lastName path]) :
    getParentDir machine mounts taskCurr dev path =
      (walkTo machine taskCurr dev file names).map fun reached =>
        (reached.1, match reached.2 with
          | .at dir => if sIsdir dir.mode then .ok (dir, lastName path) else .error (-enotdir)
          | .fails e => .error e
          | .link _ => .error (-enotdir)) := by
  simp only [getParentDir, mounted, tokens, getLast?_concat, dropLast_concat, parentWalk_walkTo]
  rcases walkTo machine taskCurr dev file names with _ | ⟨_, dir | e | _⟩
  · rfl
  · by_cases isDir : sIsdir dir.mode = true <;> simp [isDir]
  · rfl
  · rfl

section Walks

variable {relatPath : CStr} (isParent : vfsGetmnt mounts (parentPath path) = .ok (file, relat))
  (isPath : vfsGetmnt mounts path = .ok (file, relatPath))
  (tokens : pathTokens relatPath = pathTokens relat ++ [lastName path])
include isParent isPath tokens

/-- Without a link on the way, both end where the walk ends.  At a link `get_parent_dir`
fails, and `vfs_resolve` goes on with the target. -/
theorem agrees_walk_iff :
    ParentAgrees machine mounts taskCurr dev path ↔
      ∀ disk link after dir,
        walkTo machine taskCurr dev file (pathTokens relat) = some (disk, .link link) →
        followLink machine (doVfsResolve machine mounts taskCurr 7 true) disk link =
          some (after, .ok dir) → ¬ ReadableDir taskCurr dir := by
  have parent : getParentDir machine mounts taskCurr dev path = _ :=
    getParentDir_walkTo isPath tokens
  have resolved : vfsResolve machine mounts taskCurr true dev (parentPath path) =
      resolveWalk machine taskCurr true (doVfsResolve machine mounts taskCurr 7 true) dev file
        (pathTokens relat) := by
    simp only [vfsResolve, doVfsResolve, isParent]
  rw [resolveWalk_walkTo] at resolved
  constructor
  · intro agrees disk link after dir walked followed readable
    rw [walked] at resolved parent
    rcases agrees.found after dir (resolved.trans followed) readable with ⟨_, isFound⟩
    cases parent.symm.trans isFound
  · intro unread
    rcases walked : walkTo machine taskCurr dev file (pathTokens relat) with
      _ | ⟨disk, _ | e | link⟩
    · rw [walked] at resolved
      constructor
      · intro _ _ isDir
        cases resolved.symm.trans isDir
      · intro _ _ fails
        cases resolved.symm.trans fails
    · rw [walked] at resolved parent
      constructor
      · intro _ _ isDir readable
        cases resolved.symm.trans isDir
        simp only [map_some, readable.1] at parent
        exact ⟨disk, parent⟩
      · intro _ _ fails
        cases resolved.symm.trans fails
    · rw [walked] at resolved parent
      constructor
      · intro _ _ isDir
        cases resolved.symm.trans isDir
      · intro _ _ _
        exact ⟨disk, e, parent⟩
    · rw [walked] at resolved parent
      constructor
      · intro after dir isDir readable
        exact absurd readable (unread disk link after dir walked (resolved.symm.trans isDir))
      · intro _ _ _
        exact ⟨disk, -enotdir, parent⟩

end Walks

/-- With the same mount the two agree unless a link leads to a directory. -/
theorem agrees_same_iff (canonical : Canonical path) (below : pathTokens path ≠ [])
    (same : SameMount mounts path) :
    ParentAgrees machine mounts taskCurr dev path ↔
      ∀ file relat disk link after dir,
        vfsGetmnt mounts (parentPath path) = .ok (file, relat) →
        walkTo machine taskCurr dev file (pathTokens relat) = some (disk, .link link) →
        followLink machine (doVfsResolve machine mounts taskCurr 7 true) disk link =
          some (after, .ok dir) →
        ¬ ReadableDir taskCurr dir := by
  rcases getmnt_same canonical below same with ⟨noParent, noPath⟩ | ⟨file, relat, _,
    isParent, isPath, tokens⟩
  · have resolved : vfsResolve machine mounts taskCurr true dev (parentPath path) =
        some (dev, .error (-enoent)) := by
      simp only [vfsResolve, doVfsResolve, noParent]
    have parent : getParentDir machine mounts taskCurr dev path = some (dev, .error (-enoent)) := by
      simp only [getParentDir, noPath]
    constructor
    · intro _ file relat disk link after dir isParent
      cases noParent.symm.trans isParent
    · intro _
      constructor
      · intro disk dir isDir
        cases resolved.symm.trans isDir
      · intro disk e _
        exact ⟨dev, -enoent, parent⟩
  · rw [agrees_walk_iff isParent isPath tokens]
    constructor
    · intro unread _ _ disk link after dir isOther
      cases isParent.symm.trans isOther
      exact unread disk link after dir
    · exact fun unread disk link after dir => unread file relat disk link after dir isParent

/-- With a mount between the two, `get_parent_dir` answers with the root of that mount and
what is left of the path. -/
theorem agrees_other_iff (component : Component (lastName path))
    (mounted : vfsGetmnt mounts path = .ok (file, relat)) (noSlash : 47 ∉ relat) :
    ParentAgrees machine mounts taskCurr dev path ↔
      (∀ disk dir,
        vfsResolve machine mounts taskCurr true dev (parentPath path) = some (disk, .ok dir) →
        ReadableDir taskCurr dir → relat = lastName path ∧ file = dir) ∧
      (∀ disk e,
        vfsResolve machine mounts taskCurr true dev (parentPath path) = some (disk, .error e) →
        relat = [] ∨ sIsdir file.mode = false) := by
  have parent : getParentDir machine mounts taskCurr dev path =
      some (dev, if relat = [] then .error (-enoent)
        else if sIsdir file.mode then .ok (file, relat) else .error (-enotdir)) := by
    simp only [getParentDir, mounted, pathTokens_plain noSlash]
    by_cases isNil : relat = []
    · simp [isNil]
    · by_cases isDir : sIsdir file.mode = true <;> simp [isNil, isDir, parentWalk]
  constructor
  · intro agrees
    constructor
    · intro disk dir resolved readable
      rcases agrees.found disk dir resolved readable with ⟨after, isFound⟩
      rw [parent] at isFound
      split_ifs at isFound <;> cases isFound
      exact ⟨rfl, rfl⟩
    · intro disk e resolved
      rcases agrees.failed disk e resolved with ⟨after, _, fails⟩
      rw [parent] at fails
      split_ifs at fails with isNil isDir
      · exact .inl isNil
      · cases fails
      · exact .inr (Bool.not_eq_true _ ▸ isDir)
  · rintro ⟨found, failed⟩
    constructor
    · intro disk dir resolved readable
      rcases found disk dir resolved readable with ⟨isLast, isDir⟩
      subst isDir
      rw [isLast, if_neg component.nonempty, if_pos readable.1] at parent
      exact ⟨dev, parent⟩
    · intro disk e resolved
      rcases failed disk e resolved with isNil | notDir
      · rw [if_pos isNil] at parent
        exact ⟨dev, _, parent⟩
      · simp only [notDir, Bool.false_eq_true, if_false] at parent
        split_ifs at parent
        · exact ⟨dev, _, parent⟩
        · exact ⟨dev, _, parent⟩

end Cases

/-- `get_parent_dir` agrees with the resolution of the parent exactly if neither a symbolic
link nor a mount comes between them. -/
theorem parent_lookup_agrees_iff (machine : Machine σ) (mounts : List Mount)
    (taskCurr : Option Task) (dev : σ) {path : CStr} (canonical : Canonical path)
    (below : pathTokens path ≠ []) :
    ParentAgrees machine mounts taskCurr dev path ↔
      Undisturbed machine mounts taskCurr dev path := by
  by_cases same : SameMount mounts path
  · rw [agrees_same_iff canonical below same]
    constructor
    · intro unread
      exact ⟨fun _ => unread, fun other => absurd same other⟩
    · exact fun undisturbed => undisturbed.links same
  · rcases getmnt_other canonical below same with ⟨file, relat, mounted, noSlash⟩
    rw [agrees_other_iff (path_split canonical below).1 mounted noSlash]
    constructor
    · intro conditions
      constructor
      · exact fun isSame => absurd isSame same
      · intro _ _ _ mounted'
        cases mounted.symm.trans mounted'
        exact conditions
    · exact fun undisturbed => undisturbed.mounted same file relat mounted

/-- `/d/x` is in the directory `/d`. -/
theorem parent_lookup_agrees_plain :
    ParentAgrees (treeMachine linkedTree) linkedTree.mounts none () [47, 100, 47, 120] := by
  apply (parent_lookup_agrees_iff _ _ _ _ ?_ (by decide)).mpr
  · constructor
    · intro _ _ _ _ _ _ _ mounted walked
      have root : vfsGetmnt linkedTree.mounts (parentPath [47, 100, 47, 120]) =
          .ok (linkedTree.inode 0, [100]) := rfl
      cases root.symm.trans mounted
      cases walked
    · intro other
      exact absurd (by decide) other
  · exact ⟨[[100], [120]], by decide, rfl⟩

/-- The tree with its directory `d` mounted over itself. -/
def overmounted : List Mount :=
  linkedTree.mounts ++ [{ path := [47, 100], file := linkedTree.inode 1 }]

/-- `/l` is a link to the directory `/d`, but the parent of `/l/x` is not found; and `/d` is
in the root directory, but its parent is not found when something is mounted on `/d`. -/
theorem parent_lookup_disagrees :
    ¬ ParentAgrees (treeMachine linkedTree) linkedTree.mounts none () [47, 108, 47, 120] ∧
      ¬ ParentAgrees (treeMachine linkedTree) overmounted none () [47, 100] := by
  have readable : ∀ dir : Inode, sIsdir dir.mode = true → ReadableDir none dir :=
    fun dir isDir => ⟨isDir, by simp [vfsCheckperm]⟩
  constructor
  · intro agrees
    rcases agrees.found () (linkedTree.inode 1) (by decide +kernel) (readable _ (by decide)) with
      ⟨after, isFound⟩
    have parent : getParentDir (treeMachine linkedTree) linkedTree.mounts none ()
        [47, 108, 47, 120] = some ((), .error (-enotdir)) := by
      decide +kernel
    cases parent.symm.trans isFound
  · intro agrees
    rcases agrees.found () (linkedTree.inode 0) (by decide +kernel) (readable _ (by decide)) with
      ⟨after, isFound⟩
    have parent : getParentDir (treeMachine linkedTree) overmounted none () [47, 100] =
        some ((), .error (-enoent)) := by
      decide +kernel
    cases parent.symm.trans isFound

end Micro.Fs
