import Micro.Fs.Disks
import Micro.Proc.Task

/-!
# Unique names

Two entries in use of one directory should not have the same name.  `ext2_append_dirent`
does not look for the name, so this is left to the calls: some check that the path does not
resolve, following links, and others do not check.
-/

namespace Micro.Ext2

/-- The names of the entries in use. -/
def liveNames (links : List (List UInt8 × Nat)) : List (List UInt8) :=
  (links.filter fun entry => entry.2 ≠ 0).map Prod.fst

/-- No directory has two entries in use with the same name. -/
def Tree.Unique (tree : Tree) : Prop :=
  ∀ node ∈ tree.inodes, node.used = true → Fs.sIsdir node.mode = true → (liveNames node.links).Nodup

variable {tree after : Tree} {dir : Nat} {dirent : Dirent} {name : List UInt8}

theorem Tree.mem_inodes {node : Node} : node ∈ tree.inodes ↔ ∃ num, tree.node num = some node := by
  simp only [List.mem_iff_getElem?, Tree.node]
  constructor
  · rintro ⟨i, isNode⟩
    exact ⟨i + 1, by simpa using isNode⟩
  · rintro ⟨num, isNode⟩
    split at isNode
    · cases isNode
    · exact ⟨num - 1, isNode⟩

theorem Tree.Unique.relinks {change : List (List UInt8 × Nat) → List (List UInt8 × Nat) → Prop}
    (unique : tree.Unique) (relinks : tree.Relinks dir change after)
    (keeps : ∀ node links, tree.node dir = some node → change node.links links →
      (liveNames node.links).Nodup → (liveNames links).Nodup) : after.Unique := by
  intro node mem used isDir
  obtain ⟨num, isNode⟩ := mem_inodes.mp mem
  by_cases same : num = dir
  · subst same
    obtain ⟨old, _, isOld, isNew, changed⟩ := relinks.here
    cases isNode.symm.trans isNew
    exact keeps old _ isOld changed (unique old (mem_inodes.mpr ⟨num, isOld⟩) used isDir)
  · rw [relinks.others num same] at isNode
    exact unique node (mem_inodes.mpr ⟨num, isNode⟩) used isDir

theorem Node.withEntry_nodup {node : Node} (fresh : dirent.name ∉ liveNames node.links)
    (nodup : (liveNames node.links).Nodup) : (liveNames (node.withEntry dirent)).Nodup := by
  rw [Node.withEntry]
  split
  · rw [← node.ahead_append dirent] at fresh nodup
    simp only [liveNames, List.filter_append, List.map_append, List.filter_cons] at fresh nodup ⊢
    split
    · rw [List.map_cons, List.nodup_middle, List.nodup_cons]
      exact ⟨fresh, nodup⟩
    · exact nodup
  · exact nodup

variable (unique : tree.Unique)
include unique

theorem Tree.Unique.appendDirent
    (fresh : ∀ node, tree.node dir = some node → dirent.name ∉ liveNames node.links)
    (appended : tree.appendDirent dir dirent = some after) : after.Unique := by
  obtain ⟨node, isNode, relinks⟩ := Tree.appendDirent_relinks appended
  apply unique.relinks relinks
  intro _ _ isOther isLinks nodup
  cases isNode.symm.trans isOther
  rw [isLinks]
  exact Node.withEntry_nodup (fresh node isNode) nodup

theorem Tree.Unique.unlink {r : Int} (unlinked : tree.unlink dir name = some (after, r)) :
    after.Unique := by
  apply unique.relinks (Tree.unlink_relinks unlinked)
  rintro _ _ _ (⟨_, _, _, isLinks, isAfter, _⟩ | ⟨same, _⟩) nodup
  · refine List.Nodup.sublist ?_ nodup
    rw [isLinks, isAfter]
    apply List.Sublist.map
    simp only [List.filter_append, List.filter_cons]
    apply List.Sublist.append_left
    simp only [ne_eq, not_true_eq_false, decide_false, Bool.false_eq_true, if_false]
    split
    · exact List.sublist_cons_self _ _
    · exact List.Sublist.refl _
  · rw [same]
    exact nodup

/-- `ext2_mkentry`: the new inode has no entries. -/
theorem Tree.Unique.mkentry {mode uid gid : Nat}
    (fresh : ∀ node, tree.node dir = some node → Tree.storedName name ∉ liveNames node.links)
    (made : tree.mkentry dir name mode uid gid = some after) : after.Unique := by
  obtain ⟨num, isNum, appended⟩ := Option.bind_eq_some_iff.mp made
  have isSome : (tree.node num).isSome := by
    simp only [Tree.allocInode] at isNum
    split at isNum
    · obtain ⟨i, isFree, isSucc⟩ := Option.map_eq_some_iff.mp isNum
      have inside := (List.findIdx?_eq_some_iff_getElem.mp isFree).choose
      rw [← isSucc]
      simp [Tree.node, inside]
    · cases isNum
  refine Tree.Unique.appendDirent ?_ ?_ appended
  · intro node mem used isDir
    rcases List.mem_or_eq_of_mem_set mem with old | new
    · exact unique node old used isDir
    · rw [new]
      exact List.nodup_nil
  · intro node isNode
    rw [Tree.node_setNode isSome] at isNode
    split at isNode
    · cases isNode
      exact List.not_mem_nil
    · exact fresh node isNode

theorem Tree.Unique.symlink {num : Nat} {target : List UInt8}
    (changed : tree.symlink num target = some after) : after.Unique := by
  obtain ⟨old, isOld, rest⟩ := Option.bind_eq_some_iff.mp changed
  split at rest
  · cases rest
    intro node mem used isDir
    rcases List.mem_or_eq_of_mem_set mem with same | new
    · exact unique node same used isDir
    · rw [new] at used isDir ⊢
      exact unique old (Tree.mem_inodes.mpr ⟨num, isOld⟩) used isDir
  · cases rest

end Micro.Ext2

namespace Micro.Fs

open Kern Lib Proc Ext2 Option

variable {opens : Opens}

/-- No directory of a volume has two entries in use with the same name, as far as the volumes
are known. -/
def UniqueNames (dev : Option Disks) : Prop :=
  ∀ disks vol tree, dev = some disks → disks.trees vol = some tree → tree.Unique

theorem UniqueNames.lost : UniqueNames none := fun _ _ _ isSome => by cases isSome

/-- No entry in use of a directory has the name that an entry made for a name gets. -/
def nameFree (dev : Option Disks) (dir : Inode) (name : CStr) : Bool :=
  match dev.bind fun disks => (disks.trees dir.priv).bind fun tree => tree.node dir.inode with
  | some node => decide (Tree.storedName name ∉ liveNames node.links)
  | none => true

theorem nameFree.fresh {disks : Disks} {dir : Inode} {name : CStr} {tree : Tree}
    (free : nameFree (some disks) dir name = true) (isTree : disks.trees dir.priv = some tree)
    (node : Ext2.Node) (isNode : tree.node dir.inode = some node) :
    Tree.storedName name ∉ liveNames node.links := by
  simpa [nameFree, isTree, isNode] using free

theorem UniqueNames.ext2Op {dev : Option Disks} (unique : UniqueNames dev) {op : FnPtr} {vol : Nat}
    {change : Tree → Option (Tree × Int)}
    (keeps : ∀ disks tree done, dev = some disks → disks.trees vol = some tree →
      change tree = some done → tree.Unique → done.1.Unique) :
    UniqueNames (ext2Op op dev vol change).1 := by
  intro _ other tree' isAfter isTree'
  obtain ⟨disks, tree, _, isDisks, _, isTree, changed, isSet⟩ := ext2Op_some (Prod.ext isAfter rfl)
  subst isSet
  simp only [Disks.setTree, Function.update_apply] at isTree'
  split at isTree'
  · cases isTree'
    exact keeps disks tree _ isDisks isTree changed (unique disks vol tree isDisks isTree)
  · exact unique disks other tree' isDisks isTree'

/-- A `make` is allowed where the name is free. -/
theorem uniqueRules : DirRules (drivers opens) UniqueNames (fun _ => True)
    (fun act => act.kind = .make → nameFree act.dev act.dir act.name = true) where
  lookup op dir name unique := drivers_lookup_holds unique .lost op dir name
  found _ _ _ _ _ := trivial
  readlink op inode n unique := drivers_readlink_holds unique .lost op inode n
  openFile _ _ _ unique := unique
  mknod op mode rdev uid gid unique _ allowed := by
    apply unique.ext2Op
    intro disks tree done isDisks isTree made uniqueTree
    obtain ⟨after, isMade, isDone⟩ := map_eq_some_iff.mp made
    subst isDisks isDone
    exact uniqueTree.mkentry (nameFree.fresh (allowed rfl) isTree) isMade
  mkdir op mode uid gid unique _ allowed := by
    apply unique.ext2Op
    intro disks tree done isDisks isTree made uniqueTree
    obtain ⟨after, isMade, isDone⟩ := map_eq_some_iff.mp made
    obtain ⟨_, isEntered, rest⟩ := bind_eq_some_iff.mp isMade
    split at rest
    · cases rest
    · cases rest
      subst isDisks isDone
      exact uniqueTree.mkentry (nameFree.fresh (allowed rfl) isTree) isEntered
  unlink op unique _ _ := by
    apply unique.ext2Op
    intro disks tree done _ _ unlinked uniqueTree
    exact uniqueTree.unlink unlinked
  symlink op unique _ _ := by
    apply unique.ext2Op
    intro disks tree done _ _ changed uniqueTree
    obtain ⟨after, isChanged, isDone⟩ := map_eq_some_iff.mp changed
    subst isDone
    exact uniqueTree.symlink isChanged
  link op file unique _ allowed := by
    apply unique.ext2Op
    intro disks tree done isDisks isTree linked uniqueTree
    obtain ⟨after, isLinked, isDone⟩ := map_eq_some_iff.mp linked
    subst isDisks isDone
    exact uniqueTree.appendDirent (nameFree.fresh (allowed rfl) isTree) (Tree.link_appends isLinked)

/-! ## Runs -/

def callStep {σ : Type} (machine : DirMachine σ) (kernel : Kernel σ) (label : ThreadId × DirCall) :
    Option (Kernel σ) :=
  dirStep machine label.1 kernel label.2

/-- The call adds only names that the directory has no entry in use for. -/
def addsFree (opens : Opens)
    (kernel : Kernel (Option Disks)) (label : ThreadId × DirCall) : Bool :=
  !label.2.pointers.all (ptrValid kernel label.1) ||
    (acts (drivers opens) kernel label.1 label.2).all fun act =>
      act.kind ≠ .make || nameFree act.dev act.dir act.name

/-- Step lemma: a call that adds only free names keeps names distinct. -/
theorem callStep_unique (kernel : Kernel (Option Disks)) (label : ThreadId × DirCall)
    (next : Kernel (Option Disks)) (unique : UniqueNames kernel.dev)
    (stepped : Restricted (fun kernel label next => callStep (drivers opens) kernel label = some next)
      (fun kernel label => addsFree opens kernel label = true) kernel label next) :
    UniqueNames next.dev := by
  obtain ⟨returns, free⟩ := stepped
  obtain ⟨done, ran, isNext⟩ := map_eq_some_iff.mp returns
  subst isNext
  refine (dirCall_leaves uniqueRules unique (fun _ _ => trivial) ?_ done ran).holds
  intro valid act mem makes
  have allowed : ∀ act ∈ acts (drivers opens) kernel label.1 label.2,
      act.kind ≠ .make ∨ nameFree act.dev act.dir act.name = true := by
    simpa [addsFree, valid] using free
  exact (allowed act mem).resolve_left (not_not.mpr makes)

/-- A volume whose root has the files `a` and `b`, inodes 3 and 4. -/
def twoFiles : Tree where
  groups := 1
  inodes := [⟨true, 0, 0, 0, [], []⟩,
    ⟨true, 0x41ed, 0, 0, [[⟨2, 12, 2, [46]⟩, ⟨2, 12, 2, [46, 46]⟩, ⟨3, 12, 1, [97]⟩,
      ⟨4, 988, 1, [98]⟩]], []⟩,
    ⟨true, 0x81a4, 0, 0, [], []⟩, ⟨true, 0x81a4, 0, 0, [], []⟩, ⟨false, 0, 0, 0, [], []⟩]
  freeBlocks := 100

/-- The volume alone. -/
def twoFilesDisks : Disks where
  trees := fun vol => if vol = 16 then some twoFiles else none
  devices := []
  images := fun _ => none
  scrap := {}

/-- The volume is mounted at `/`. -/
def twoFilesKernel : Kernel (Option Disks) :=
  oneTaskOn (some twoFilesDisks) [⟨[47], inode2file 16 2 ⟨true, 0x41ed, 0, 0, [], []⟩⟩]

def noDevices : Opens := fun _ inode file => (0, inode, file.ops)

theorem twoFiles_unique : UniqueNames twoFilesKernel.dev := by
  intro _ _ _ isDisks isTree
  cases isDisks
  simp only [twoFilesDisks] at isTree
  split at isTree
  · cases isTree
    unfold Tree.Unique
    decide +kernel
  · cases isTree

/-- The names in use in the root, if the volume is known. -/
def rootNames (dev : Option Disks) : Option (List (List UInt8)) :=
  dev.bind fun disks => (disks.trees 16).bind fun tree => (tree.node 2).map fun node =>
    liveNames node.links

end Micro.Fs
