import Micro.Fs.Mounts

/-!
# Symbolic links

`do_vfs_resolve` against the walk it stands for.  The walk looks up the components of a
path one after the other and, at a symbolic link, goes on from the root with the
components of the target followed by those that were left.  `do_vfs_resolve` resolves
the target alone: the components that were left are dropped.

The file system is a table of nodes numbered by inode, of which a tree is a special case.
-/

namespace Micro.Fs

open Kern List Option

variable {n : Nat} {σ : Type} {machine : Machine σ} {dev : σ}

/-- A directory, a file or a symbolic link, as the `mode` of its inode says. -/
structure Node where
  file : Inode
  entries : List (CStr × Nat)
  target : CStr

/-- The nodes of a file system by inode number.  Targets of links are absolute paths. -/
structure FileTree where
  root : Nat
  node : Nat → Node
  absolute : ∀ n, sIslnk (node n).file.mode = true → (node n).target.head? = some 47
  terminated : ∀ n, 0 ∉ (node n).target

namespace FileTree

variable (tree : FileTree)

def inode (n : Nat) : Inode := { (tree.node n).file with inode := n }

/-- The entry of a directory with a given name. -/
def entry (dir : Nat) (name : CStr) : Option Nat := (tree.node dir).entries.lookup name

theorem inode_injective {m : Nat} (same : tree.inode n = tree.inode m) : n = m :=
  congrArg Inode.inode same

/-- How far a walk gets: to a node, to an error, or to a link with components left. -/
inductive Reached where
  | node (n : Nat)
  | fails (e : Int)
  | link (target : CStr) (rest : List CStr)
  deriving DecidableEq

/-- Look up each component in turn, up to the first link. -/
def walk (taskCurr : Option Task) : Nat → List CStr → Reached
  | n, [] => .node n
  | n, name :: names =>
      if ¬ sIsdir (tree.inode n).mode then .fails (-enotdir)
      else if vfsCheckperm taskCurr (tree.inode n) 4 = -1 then .fails (-eacces)
      else
        match tree.entry n name with
        | none => .fails (-enoent)
        | some child =>
            if sIslnk (tree.inode child).mode then .link (tree.node child).target names
            else walk taskCurr child names

/-- The reference walk from the root: at a link, go on with the components of its target
followed by those that are left.  `-ELOOP` when no more links may be followed. -/
def resolve (taskCurr : Option Task) : Nat → List CStr → Except Int Nat
  | 0, _ => .error (-eloop)
  | depth + 1, names =>
      match tree.walk taskCurr tree.root names with
      | .node n => .ok n
      | .fails e => .error e
      | .link target rest => resolve taskCurr depth (pathTokens target ++ rest)

/-- The reference walk from a node. -/
def resolveFrom (taskCurr : Option Task) (depth n : Nat) (names : List CStr) : Except Int Nat :=
  match tree.walk taskCurr n names with
  | .node n => .ok n
  | .fails e => .error e
  | .link target rest => tree.resolve taskCurr depth (pathTokens target ++ rest)

/-- Following the links of a path one by one, each from the first link in the target of
the one before: each target fits into `link[60]` with its terminator, and where the last
one leads to a node, walking the components dropped on the way leads back to it. -/
def LosesNothing (taskCurr : Option Task) : Nat → List CStr → List CStr → Prop
  | 0, _, _ => True
  | depth + 1, names, dropped =>
      match tree.walk taskCurr tree.root names with
      | .node n => tree.resolveFrom taskCurr depth n dropped = .ok n
      | .fails _ => True
      | .link target rest =>
          target.length < 60 ∧ LosesNothing taskCurr depth (pathTokens target) (rest ++ dropped)

theorem walk_append (taskCurr : Option Task) (names more : List CStr) : ∀ n,
    tree.walk taskCurr n (names ++ more) = match tree.walk taskCurr n names with
      | .node n => tree.walk taskCurr n more
      | .fails e => .fails e
      | .link target rest => .link target (rest ++ more) := by
  induction names with
  | nil => exact fun n => rfl
  | cons name names ih =>
    intro n
    simp only [cons_append, walk]
    split
    · rfl
    · split
      · rfl
      · cases tree.entry n name with
        | none => rfl
        | some child =>
          dsimp only
          split
          · rfl
          · exact ih child

theorem walk_target {taskCurr : Option Task} {names : List CStr} : ∀ {n : Nat} {target : CStr}
    {rest : List CStr}, tree.walk taskCurr n names = .link target rest →
    target.head? = some 47 ∧ 0 ∉ target := by
  induction names with
  | nil =>
    intro n target rest reached
    cases reached
  | cons name names ih =>
    intro n target rest reached
    simp only [walk] at reached
    split at reached
    · cases reached
    · split at reached
      · cases reached
      · split at reached
        · cases reached
        · rename_i child _
          split at reached
          · cases reached
            exact ⟨tree.absolute child ‹_›, tree.terminated child⟩
          · exact ih reached

end FileTree

/-- A machine whose file system is the tree. -/
structure Serves (machine : Machine σ) (tree : FileTree) (dev : σ) : Prop where
  lookup : ∀ n, sIsdir (tree.inode n).mode = true → ∃ op, (tree.inode n).ops.lookup = some op ∧
    ∀ name, (machine.lookup op dev (tree.inode n) name).1 = dev ∧ match tree.entry n name with
      | some child => (machine.lookup op dev (tree.inode n) name).2 = (0, tree.inode child)
      | none => (machine.lookup op dev (tree.inode n) name).2.1 = -enoent
  readlink : ∀ n, sIslnk (tree.inode n).mode = true → ∃ op, (tree.inode n).ops.readlink = some op ∧
    ∀ size, machine.readlink op dev (tree.inode n) size =
      (dev, ((min (tree.node n).target.length size : Nat) : Int), (tree.node n).target.take size)

section Resolve

variable {tree : FileTree} (serves : Serves machine tree dev) {taskCurr : Option Task}
include serves

theorem callLookup_tree (isDir : sIsdir (tree.inode n).mode = true) (name : CStr) :
    callLookup machine dev (tree.inode n) name = some (dev, match tree.entry n name with
        | some child => .ok (tree.inode child)
        | none => .error (-enoent)) := by
  obtain ⟨_, isOp, law⟩ := serves.lookup n isDir
  obtain ⟨sameDev, answer⟩ := law name
  simp only [callLookup, isOp, map_some, sameDev]
  cases isEntry : tree.entry n name with
  | none =>
    simp only [isEntry] at answer
    simp [answer, enoent]
  | some child =>
    simp only [isEntry] at answer
    simp [answer]

theorem linkTarget_tree (isLink : sIslnk (tree.inode n).mode = true) :
    ∃ count bytes, vfsReadlink machine dev (tree.inode n) 60 = (dev, count, bytes) ∧
      linkTarget count bytes =
        if (tree.node n).target.length < 60 then some (tree.node n).target else none := by
  obtain ⟨_, isOp, law⟩ := serves.readlink n isLink
  refine ⟨_, _, by rw [vfsReadlink, isOp]; exact law 60, ?_⟩
  have plain : ∀ c ∈ (tree.node n).target, decide (c ≠ 0) = true := by
    intro c mem
    simp only [decide_eq_true_eq]
    exact fun zero => tree.terminated n (zero ▸ mem)
  by_cases fits : (tree.node n).target.length < 60
  · have small : min (tree.node n).target.length 60 = (tree.node n).target.length := by omega
    have inRange : ¬ (((tree.node n).target.length : Int) < 0 ∨
      60 ≤ ((tree.node n).target.length : Int)) := by omega
    rw [if_pos fits, small, linkTarget, if_neg inRange, Int.toNat_natCast, take_take,
      small, take_length, takeWhile_eq_self_iff.mpr plain]
  · have large : min (tree.node n).target.length 60 = 60 := by omega
    rw [if_neg fits, large, linkTarget, if_pos (.inr (by decide))]

/-- The loop of `do_vfs_resolve` walks up to the first link. -/
theorem resolveWalk_tree (follow : σ → CStr → Option (σ × Except Int Inode)) (names : List CStr) :
    ∀ n, resolveWalk machine taskCurr true follow dev (tree.inode n) names =
      match tree.walk taskCurr n names with
      | .node n => some (dev, .ok (tree.inode n))
      | .fails e => some (dev, .error e)
      | .link target _ => if target.length < 60 then follow dev target else none := by
  induction names with
  | nil => exact fun n => rfl
  | cons name names ih =>
    intro n
    simp only [resolveWalk, FileTree.walk]
    by_cases isDir : sIsdir (tree.inode n).mode = true
    · by_cases denied : vfsCheckperm taskCurr (tree.inode n) 4 = -1
      · simp [isDir, denied]
      · simp only [isDir, denied, callLookup_tree serves isDir]
        cases isEntry : tree.entry n name with
        | none => rfl
        | some child =>
          by_cases isLink : sIslnk (tree.inode child).mode = true
          · obtain ⟨_, _, read, isTarget⟩ := linkTarget_tree serves isLink
            simp only [isLink, read, isTarget]
            by_cases fits : (tree.node child).target.length < 60
            · simp [fits]
            · simp [fits]
          · simp only [isLink]
            exact ih child
    · simp [isDir]

end Resolve

/-- The mount table of a system with one file system. -/
def FileTree.mounts (tree : FileTree) : List Mount :=
  [{ path := [47], file := tree.inode tree.root }]

theorem getmnt_root (tree : FileTree) {path : CStr} (absolute : path.head? = some 47) :
    ∃ relat, vfsGetmnt tree.mounts path = .ok (tree.inode tree.root, relat) ∧
      pathTokens relat = pathTokens path := by
  obtain ⟨relat, isPath⟩ := head?_eq_some_iff.mp absolute
  subst isPath
  refine ⟨relat, ?_, (pathTokens_slash relat).symm⟩
  simp [vfsGetmnt, FileTree.mounts, getmntStep_eq]

/-- Resolving the target of a link resolves the whole path exactly when nothing is lost. -/
theorem doVfsResolve_iff {tree : FileTree} (serves : Serves machine tree dev)
    (taskCurr : Option Task) (depth : Nat) (path : CStr) (dropped : List CStr)
    (absolute : path.head? = some 47) :
    (doVfsResolve machine tree.mounts taskCurr depth true dev path =
        some (dev, (tree.resolve taskCurr depth (pathTokens path ++ dropped)).map tree.inode) ↔
      tree.LosesNothing taskCurr depth (pathTokens path) dropped) := by
  induction depth generalizing path dropped with
  | zero => exact ⟨fun _ => trivial, fun _ => rfl⟩
  | succ depth ih =>
    obtain ⟨_, mounted, sameTokens⟩ := getmnt_root tree absolute
    simp only [doVfsResolve, mounted, sameTokens, resolveWalk_tree serves, FileTree.resolve,
      tree.walk_append, FileTree.LosesNothing]
    cases reached : tree.walk taskCurr tree.root (pathTokens path) with
    | node n =>
      simp only [FileTree.resolveFrom]
      cases tree.walk taskCurr n dropped with
      | node m =>
        simp only [Except.map, some.injEq, Prod.mk.injEq, true_and, Except.ok.injEq]
        exact ⟨fun same => (tree.inode_injective same).symm, fun same => by rw [same]⟩
      | fails e => simp [Except.map]
      | link target rest =>
        dsimp only
        cases tree.resolve taskCurr depth (pathTokens target ++ rest) with
        | error e => simp [Except.map]
        | ok m =>
          simp only [Except.map, some.injEq, Prod.mk.injEq, true_and, Except.ok.injEq]
          exact ⟨fun same => (tree.inode_injective same).symm, fun same => by rw [same]⟩
    | fails e => simp [Except.map]
    | link target rest =>
      obtain ⟨absoluteTarget, _⟩ := tree.walk_target reached
      by_cases fits : target.length < 60
      · simpa [fits] using ih target (rest ++ dropped) absoluteTarget
      · simp [fits]

/-- `vfs_resolve` ends where the reference walk ends, with every index in range, exactly
when the links on the way lose nothing. -/
theorem resolve_walks_iff {machine : Machine σ} {tree : FileTree} {dev : σ}
    (serves : Serves machine tree dev) (taskCurr : Option Task) {path : CStr}
    (canonical : Canonical path) :
    vfsResolve machine tree.mounts taskCurr true dev path =
        some (dev, (tree.resolve taskCurr 8 (pathTokens path)).map tree.inode) ↔
      tree.LosesNothing taskCurr 8 (pathTokens path) [] := by
  have absolute : path.head? = some 47 := by
    rw [canonical.eq_canonPath]
    exact canonPath_head _
  have whole := doVfsResolve_iff serves taskCurr 8 path [] absolute
  rw [append_nil] at whole
  exact whole

/-- A directory `d` with a file `f`, and a link `l` to the directory, in the root. -/
def linkedNode : Nat → Node
  | 0 => { file := { mode := 0x41ff, ops := { lookup := some 0 } }
           entries := [([100], 1), ([108], 2)], target := [] }
  | 1 => { file := { mode := 0x41ff, ops := { lookup := some 0 } }
           entries := [([102], 3)], target := [] }
  | 2 => { file := { mode := 0xa1ff, ops := { readlink := some 0 } }
           entries := [], target := [47, 100] }
  | _ => { file := { mode := 0x81ff }, entries := [], target := [] }

def linkedTree : FileTree where
  root := 0
  node := linkedNode
  absolute := by
    intro n isLink
    match n with
    | 0 => exact absurd isLink (by decide)
    | 1 => exact absurd isLink (by decide)
    | 2 => rfl
    | _ + 3 => exact absurd isLink (show ¬ sIslnk 0x81ff = true by decide)
  terminated := by
    intro n
    match n with
    | 0 => decide
    | 1 => decide
    | 2 => decide
    | _ + 3 => simp [linkedNode]

/-- A machine that looks up and reads links in a tree. -/
def treeMachine (tree : FileTree) : Machine Unit where
  __ := Machine.idle _
  lookup := fun _ _ dir name =>
    match tree.entry dir.inode name with
    | some child => ((), 0, tree.inode child)
    | none => ((), -enoent, {})
  readlink := fun _ _ link size =>
    ((), ((min (tree.node link.inode).target.length size : Nat) : Int),
      (tree.node link.inode).target.take size)

theorem linkedTree_served : Serves (treeMachine linkedTree) linkedTree () where
  lookup := by
    intro n isDir
    have isOp : (linkedTree.inode n).ops.lookup = some 0 := by
      match n with
      | 0 => rfl
      | 1 => rfl
      | 2 => exact absurd isDir (by decide)
      | _ + 3 => exact absurd isDir (show ¬ sIsdir 0x81ff = true by decide)
    refine ⟨0, isOp, fun name => ⟨rfl, ?_⟩⟩
    simp only [treeMachine, FileTree.inode]
    cases linkedTree.entry n name with
    | none => rfl
    | some _ => rfl
  readlink := by
    intro n isLink
    match n with
    | 0 => exact absurd isLink (by decide)
    | 1 => exact absurd isLink (by decide)
    | 2 => exact ⟨0, rfl, fun _ => rfl⟩
    | _ + 3 => exact absurd isLink (show ¬ sIslnk 0x81ff = true by decide)

/-- `/l` leads to the directory. -/
theorem resolve_walks_last_link :
    vfsResolve (treeMachine linkedTree) linkedTree.mounts none true () [47, 108] =
      some ((), (linkedTree.resolve none 8 (pathTokens [47, 108])).map linkedTree.inode) := by
  apply (resolve_walks_iff linkedTree_served none ?_).mpr
  · exact ⟨by decide, rfl⟩
  · exact ⟨[[108]], by decide, rfl⟩

/-- `/l/f` is the file; it is resolved to the directory. -/
theorem resolve_drops_components :
    Serves (treeMachine linkedTree) linkedTree () ∧ Canonical [47, 108, 47, 102] ∧
      linkedTree.resolve none 8 (pathTokens [47, 108, 47, 102]) = .ok 3 ∧
      vfsResolve (treeMachine linkedTree) linkedTree.mounts none true () [47, 108, 47, 102] ≠
        some ((), (linkedTree.resolve none 8 (pathTokens [47, 108, 47, 102])).map
          linkedTree.inode) := by
  exact ⟨linkedTree_served, ⟨[[108], [102]], by decide, rfl⟩, by decide +kernel, by decide +kernel⟩

end Micro.Fs
