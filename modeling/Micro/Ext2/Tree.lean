import Micro.Ext2.Directory
import Micro.Lib.Splice

/-!
# A volume as a tree of directories

The operations of the driver on directories, over the inodes of a volume with the entries of
each directory block by block.  That the bytes on the disk are changed in the same way is
shown for the loops of `ext2_lookup`, `ext2_unlink` and `ext2_append_dirent`.

Blocks are of 1024 bytes, the only size for which `ext2_mount` finds the group descriptors.
A step is `none` where the driver reads an inode that the volume does not have, writes
outside of a buffer, or uses block 0 while it is a block of a directory.
-/

namespace Micro.Ext2

open Lib List Option

variable {dir mode uid gid : Nat} {name : List UInt8} {edit : Dirent → List Dirent}

/-- An inode: its bit in the bitmap, the attributes, the entries of a directory, and the target
of a symbolic link. -/
structure Node where
  used : Bool
  mode : Nat
  uid : Nat
  gid : Nat
  blocks : List (List Dirent) := []
  target : List UInt8 := []
  deriving DecidableEq

/-- The inodes from number 1 on, and what `ext2_alloc_blk` needs. -/
structure Tree where
  groups : Nat
  inodes : List Node
  freeBlocks : Nat
  /-- Block 0 was given to a directory when no block was free. -/
  boot : Bool := false
  deriving DecidableEq

namespace Node

/-- The names and inodes of the entries. -/
def links (node : Node) : List (List UInt8 × Nat) := node.blocks.flatten.map Dirent.link

/-- The entries ahead of the place that `ext2_append_dirent` finds for a new one. -/
def ahead (node : Node) (dirent : Dirent) : List (List UInt8 × Nat) :=
  (upto (hasRoom dirent) node.blocks.flatten).map Dirent.link

/-- The loops come to a new entry: it goes to an entry that leaves room, or to a new direct
block. -/
def Reaches (node : Node) (dirent : Dirent) : Prop :=
  (∃ entry ∈ node.blocks.flatten, hasRoom dirent entry = true) ∨ node.blocks.length < 12

instance (node : Node) (dirent : Dirent) : Decidable (node.Reaches dirent) :=
  inferInstanceAs (Decidable (_ ∨ _))

/-- The entries that the loops come to once a new one has been added. -/
def withEntry (node : Node) (dirent : Dirent) : List (List UInt8 × Nat) :=
  if node.Reaches dirent then
    node.ahead dirent ++ dirent.link :: node.links.drop (node.ahead dirent).length
  else node.links

end Node

namespace Tree

variable (tree : Tree)

/-- `ext2_read_inode` -/
def node (num : Nat) : Option Node := if num = 0 then none else tree.inodes[num - 1]?

/-- `ext2_write_inode` -/
def setNode (num : Nat) (node : Node) : Tree :=
  { tree with inodes := tree.inodes.set (num - 1) node }

/-- `ext2_alloc_blk`; its result is block 0 if no block is free.  `ext2_rewrite_bgds` copies the
descriptors of all groups into a buffer of one block, which has room for 32. -/
def allocBlk : Option Tree :=
  if tree.freeBlocks = 0 then some tree
  else if tree.groups ≤ 32 then some { tree with freeBlocks := tree.freeBlocks - 1 }
  else none

/-- `ext2_alloc_inode`; without a free inode the driver goes on with number 0, which
`ext2_read_inode` looks for outside of the descriptors. -/
def allocInode : Option Nat :=
  if tree.groups ≤ 32 then (tree.inodes.findIdx? fun node => !node.used).map (· + 1) else none

def direntType (mode : Nat) : UInt8 :=
  match mode &&& 0xf000 with
  | 0x8000 => 1
  | 0x4000 => 2
  | 0x2000 => 3
  | 0x6000 => 4
  | 0x1000 => 5
  | 0xc000 => 6
  | 0xa000 => 7
  | _ => 0

/-- The name of an entry that was made for a name: `name_len` has 8 bits. -/
def storedName (name : List UInt8) : List UInt8 := name.take (name.length % 2 ^ 8)

/-- The entry `ext2_mkentry` and `ext2_link` make, as it is read back. -/
def entryOf (inode : Nat) (type : UInt8) (name : List UInt8) : Dirent :=
  ⟨inode % 2 ^ 32, (direntBytes + name.length) % 2 ^ 16, type, storedName name⟩

/-- An entry is cut to the size it needs, and a new one takes the rest. -/
def carve (dirent entry : Dirent) : List Dirent :=
  [{ entry with size := entry.expect }, { dirent with size := entry.size - entry.expect }]

section

variable (dir : Nat)

/-- The end of `ext2_append_dirent`, where no entry has room.  Behind the direct blocks
`ext2_set_inode_blk` does not count the new block, so that no loop comes to it. -/
def extend (node : Node) (dirent : Dirent) : Option Tree :=
  (tree.allocBlk).bind fun taken =>
    if dirent.size > 1024 then none
    else if node.blocks.length < 12 then
      if tree.freeBlocks = 0 ∧ tree.boot then none
      else
        some ({ taken with boot := taken.boot || tree.freeBlocks = 0 }.setNode dir
          { node with blocks := node.blocks ++ [[{ dirent with size := 1024 }]] })
    else if node.blocks.length < 268 then some taken
    else none

def appendDirent (dirent : Dirent) : Option Tree :=
  (tree.node dir).bind fun node =>
    if dirent.size < direntBytes then none
    else
      match spliceBlocks (hasRoom dirent) (carve dirent) node.blocks with
      | some blocks => some (tree.setNode dir { node with blocks })
      | none => tree.extend dir node dirent

def lookup (name : List UInt8) : Option (Except Int (Nat × Node)) :=
  (tree.node dir).bind fun node =>
    match node.links.find? fun entry => entry.1 = name with
    | some entry => (tree.node entry.2).map fun child => .ok (entry.2, child)
    | none => some (.error (-Fs.enoent))

/-- `ext2_mkentry`, with the inode of `ext2_init_inode` -/
def mkentry (name : List UInt8) (mode uid gid : Nat) : Option Tree :=
  (tree.allocInode).bind fun num =>
    (tree.setNode num ⟨true, mode % 2 ^ 16, uid % 2 ^ 16, gid % 2 ^ 16, [], []⟩).appendDirent dir
      (entryOf num (direntType mode) name)

/-- `ext2_mkdir`.  The new inode has no blocks, so the entries for `.` and `..` are written to
block 0. -/
def mkdir (name : List UInt8) (mode uid gid : Nat) : Option Tree :=
  (tree.mkentry dir name (mode &&& 0xfff ||| 0x4000) uid gid).bind fun made =>
    if made.boot then none else some made

def mknod (name : List UInt8) (mode uid gid : Nat) : Option Tree :=
  tree.mkentry dir name mode uid gid

def unlink (name : List UInt8) : Option (Tree × Int) :=
  (tree.node dir).map fun node =>
    match spliceBlocks (fun entry => entry.name = name) (fun entry => [cleared entry.size])
      node.blocks with
    | some blocks => (tree.setNode dir { node with blocks }, 0)
    | none => (tree, -Fs.enoent)

end

/-- `ext2_link` of an inode with a mode: `strncpy` puts a zero behind the entry, which is in the
next header of the heap if the entry fills its block of 32 bytes -/
def link (inode mode : Nat) (name : List UInt8) (dir : Nat) : Option Tree :=
  if (8 + name.length) % 32 = 0 then none
  else tree.appendDirent dir (entryOf inode (direntType mode) name)

/-- `ext2_symlink`: there are 88 bytes from `ino.blocks` to the end of the inode.  The numbers of
blocks that a directory has would be overwritten. -/
def symlink (num : Nat) (target : List UInt8) : Option Tree :=
  (tree.node num).bind fun node =>
    if target.length ≤ 88 ∧ node.blocks = [] then some (tree.setNode num { node with target })
    else none

/-- `ext2_readlink` of an inode with a mode -/
def readlink (num mode n : Nat) : Option (Except Int (List UInt8)) :=
  if ¬ Fs.sIslnk mode then some (.error (-Fs.einval))
  else (tree.node num).map fun node => .ok (node.target.take n)

end Tree

/-! ## What is changed -/

section Effects

variable {tree after : Tree} {num other : Nat} {node : Node} {dirent : Dirent}
  {change : List (List UInt8 × Nat) → List (List UInt8 × Nat) → Prop}

theorem Tree.node_setNode (isNode : (tree.node num).isSome) :
    (tree.setNode num node).node other = if other = num then some node else tree.node other := by
  simp only [Tree.node] at isNode ⊢
  by_cases zero : num = 0
  · simp [zero] at isNode
  · rw [if_neg zero, isSome_getElem?] at isNode
    by_cases zeroOther : other = 0
    · rw [if_pos zeroOther, if_pos zeroOther, if_neg (by omega)]
    · simp only [if_neg zeroOther, Tree.setNode, getElem?_set]
      by_cases same : other = num
      · rw [if_pos same, if_pos (by omega), if_pos (by omega)]
      · rw [if_neg same, if_neg (by omega)]

theorem Tree.link_appends {mode : Nat} {name : List UInt8}
    (linked : tree.link num mode name dir = some after) :
    tree.appendDirent dir (entryOf num (direntType mode) name) = some after := by
  rw [link] at linked
  split at linked
  · cases linked
  · exact linked

theorem Tree.allocBlk_inodes (taken : tree.allocBlk = some after) : after.inodes = tree.inodes := by
  simp only [allocBlk] at taken
  split at taken
  · cases taken
    rfl
  · split at taken
    · cases taken
      rfl
    · cases taken

/-- A directory has other entries, and is otherwise the same. -/
structure Tree.Relinks (tree : Tree) (dir : Nat) (change : List (List UInt8 × Nat) →
    List (List UInt8 × Nat) → Prop) (after : Tree) : Prop where
  here : ∃ node blocks, tree.node dir = some node ∧ after.node dir = some { node with blocks } ∧
    change node.links (Node.links { node with blocks })
  others : ∀ other, other ≠ dir → after.node other = tree.node other

theorem Tree.Relinks.setNode {blocks : List (List Dirent)} (isNode : tree.node dir = some node)
    (isTree : after.inodes = tree.inodes)
    (changed : change node.links (Node.links { node with blocks })) :
    tree.Relinks dir change (after.setNode dir { node with blocks }) := by
  have sameNode : ∀ other, after.node other = tree.node other := by simp [Tree.node, isTree]
  have isSome : (after.node dir).isSome := by simp [sameNode, isNode]
  refine ⟨⟨node, blocks, isNode, ?_, changed⟩, fun other ne => ?_⟩
  · rw [node_setNode isSome, if_pos rfl]
  · rw [node_setNode isSome, if_neg ne, sameNode]

theorem Node.ahead_append (node : Node) (dirent : Dirent) :
    node.ahead dirent ++ node.links.drop (node.ahead dirent).length = node.links := by
  have isPrefix : node.ahead dirent <+: node.links := (upto_isPrefix _ _).map _
  obtain ⟨_, isLinks⟩ := isPrefix
  rw [← isLinks, drop_left]

/-- What `ext2_append_dirent` does: the entry is inserted, or ends up where no loop comes. -/
theorem Tree.appendDirent_relinks (appended : tree.appendDirent dir dirent = some after) :
    ∃ node, tree.node dir = some node ∧
      tree.Relinks dir (fun _ links => links = node.withEntry dirent) after := by
  obtain ⟨node, isNode, rest⟩ := bind_eq_some_iff.mp appended
  refine ⟨node, isNode, ?_⟩
  have flat := @spliceBlocks_flatten _ (hasRoom dirent) (carve dirent) node.blocks
  split at rest
  · cases rest
  · split at rest
    · rename_i blocks spliced
      cases rest
      rw [spliced] at flat
      obtain ⟨before, entry, behind, split, isAfter, isFound, noneBefore⟩ := splice_some flat.symm
      have reaches : node.Reaches dirent := Or.inl ⟨entry, by simp [split], isFound⟩
      have isAhead : node.ahead dirent = (before ++ [entry]).map Dirent.link := by
        rw [Node.ahead, split, upto_split isFound noneBefore]
      have isLinks : node.links = node.ahead dirent ++ behind.map Dirent.link := by
        simp [isAhead, Node.links, split]
      apply Relinks.setNode isNode rfl
      rw [Node.withEntry, if_pos reaches, isLinks, drop_left, isAhead]
      simp [Node.links, isAfter, carve]
    · rename_i notSpliced
      rw [notSpliced] at flat
      have noRoom := splice_none.mp flat.symm
      obtain ⟨_, isTaken, rest⟩ := bind_eq_some_iff.mp rest
      have isInodes := allocBlk_inodes isTaken
      split at rest
      · cases rest
      · split at rest
        · rename_i short
          split at rest
          · cases rest
          · cases rest
            have reaches : node.Reaches dirent := Or.inr short
            have isAhead : node.ahead dirent = node.links := by
              rw [Node.ahead, upto_none noRoom, Node.links]
            apply Relinks.setNode isNode (by exact isInodes)
            rw [Node.withEntry, if_pos reaches, isAhead]
            simp [Node.links]
        · rename_i long
          split at rest
          · cases rest
            have unseen : ¬ node.Reaches dirent := by
              rintro (⟨entry, mem, room⟩ | short)
              · rw [noRoom entry mem] at room
                cases room
              · exact long short
            refine ⟨⟨node, node.blocks, isNode, ?_, ?_⟩, fun _ _ => ?_⟩
            · simp only [Tree.node, isInodes]
              exact isNode
            · rw [Node.withEntry, if_neg unseen]
            · simp only [Tree.node, isInodes]
          · cases rest

/-- The first entry with a name, in use or not, is cleared. -/
def Cleared (name : List UInt8) (links after : List (List UInt8 × Nat)) : Prop :=
  ∃ before inode behind, links = before ++ (name, inode) :: behind ∧
    after = before ++ ([], 0) :: behind ∧ ∀ entry ∈ before, entry.1 ≠ name

theorem Tree.unlink_relinks {r : Int} (unlinked : tree.unlink dir name = some (after, r)) :
    tree.Relinks dir (fun links after => Cleared name links after ∨
      after = links ∧ ∀ entry ∈ links, entry.1 ≠ name) after := by
  obtain ⟨node, isNode, rest⟩ := map_eq_some_iff.mp unlinked
  have flat := @spliceBlocks_flatten _ (fun entry : Dirent => decide (entry.name = name))
    (fun entry => [cleared entry.size]) node.blocks
  split at rest
  · rename_i blocks spliced
    cases rest
    rw [spliced] at flat
    obtain ⟨before, entry, behind, split, isAfter, isName, noneBefore⟩ := splice_some flat.symm
    apply Relinks.setNode isNode rfl
    have isName : entry.name = name := by simpa using isName
    refine Or.inl ⟨before.map Dirent.link, entry.inode, behind.map Dirent.link, ?_, ?_, ?_⟩
    · simp [Node.links, split, isName]
    · simp [Node.links, isAfter, cleared]
    · rw [List.forall_mem_map]
      exact fun other mem => by simpa using noneBefore other mem
  · rename_i notSpliced
    cases rest
    refine ⟨⟨node, node.blocks, isNode, isNode, .inr ⟨rfl, ?_⟩⟩, fun _ _ => rfl⟩
    rw [notSpliced] at flat
    have absent := splice_none.mp flat.symm
    rw [Node.links, List.forall_mem_map]
    exact fun other mem => by simpa using absent other mem

/-- The inode `ext2_init_inode` makes. -/
def Node.fresh (mode uid gid : Nat) : Node :=
  ⟨true, mode % 2 ^ 16, uid % 2 ^ 16, gid % 2 ^ 16, [], []⟩

/-- There is a free inode, and among the entries of the directory with one for it, the first
with the name is for an inode of the volume. -/
def Tree.Enters (tree : Tree) (dir : Nat) (name : List UInt8) (mode uid gid : Nat) : Prop :=
  ∃ num node entry, tree.allocInode = some num ∧
    (tree.setNode num (.fresh mode uid gid)).node dir = some node ∧
    (node.withEntry (entryOf num (direntType mode) name)).find? (fun entry => entry.1 = name) =
      some entry ∧ (tree.node entry.2).isSome

/-- The directory has one entry with the name, and it is for an inode of the volume. -/
def Tree.HoldsOnce (tree : Tree) (dir : Nat) (name : List UInt8) : Prop :=
  ∃ node before inode behind, tree.node dir = some node ∧
    node.links = before ++ (name, inode) :: behind ∧
    (∀ entry ∈ before ++ behind, entry.1 ≠ name) ∧ (tree.node inode).isSome

theorem Tree.isSome_setNode {changed : Node} :
    ((tree.setNode num changed).node other).isSome = (tree.node other).isSome := by
  simp only [Tree.node, Tree.setNode]
  split
  · rfl
  · rw [Bool.eq_iff_iff, isSome_getElem?, isSome_getElem?, length_set]

theorem Tree.Relinks.isSome (relinks : tree.Relinks dir change after) :
    (after.node other).isSome = (tree.node other).isSome := by
  by_cases same : other = dir
  · rcases relinks.here with ⟨_, _, isNode, isAfter, _⟩
    rw [same, isNode, isAfter]
    rfl
  · rw [relinks.others other same]

/-- `ext2_lookup` finds a name if the first entry with it is for an inode of the volume. -/
theorem Tree.lookup_ok_iff (isNode : tree.node dir = some node) :
    (∃ found, tree.lookup dir name = some (.ok found)) ↔
      ∃ entry, node.links.find? (fun entry => entry.1 = name) = some entry ∧
        (tree.node entry.2).isSome := by
  simp only [Tree.lookup, isNode, bind_some]
  cases node.links.find? fun entry => decide (entry.1 = name) with
  | none => simp
  | some entry =>
    cases isChild : tree.node entry.2 with
    | none => simp [isChild]
    | some _ => simp [isChild]

/-- `ext2_lookup` does not find a name if no entry has it. -/
theorem Tree.lookup_error_iff (isNode : tree.node dir = some node) :
    (∃ e, tree.lookup dir name = some (.error e)) ↔ ∀ entry ∈ node.links, entry.1 ≠ name := by
  simp only [Tree.lookup, isNode, bind_some]
  cases isFirst : node.links.find? fun entry => decide (entry.1 = name) with
  | none => simpa using isFirst
  | some entry =>
    have isName : entry.1 = name := by simpa using find?_some isFirst
    constructor
    · rintro ⟨e, isError⟩
      cases isChild : tree.node entry.2 <;> simp at isError
    · intro absent
      exact absurd isName (absent entry (mem_of_find?_eq_some isFirst))

/-- What it takes for the entry `ext2_mkentry` makes to be found. -/
theorem Tree.mkentry_found_iff (made : tree.mkentry dir name mode uid gid = some after) :
    (∃ found, after.lookup dir name = some (.ok found)) ↔ tree.Enters dir name mode uid gid := by
  rcases bind_eq_some_iff.mp made with ⟨num, isFree, appended⟩
  rcases Tree.appendDirent_relinks appended with ⟨node, isNode, relinks⟩
  rcases relinks.here with ⟨_, _, isSame, isAfter, links⟩
  rw [Tree.lookup_ok_iff isAfter, links]
  have isSome : ∀ other, (after.node other).isSome = (tree.node other).isSome :=
    fun other => relinks.isSome.trans Tree.isSome_setNode
  simp only [isSome]
  constructor
  · rintro ⟨entry, isFirst, inVolume⟩
    exact ⟨num, node, entry, isFree, isNode, isFirst, inVolume⟩
  · rintro ⟨_, _, entry, isFree', isNode', isFirst, inVolume⟩
    cases isFree.symm.trans isFree'
    cases isNode.symm.trans isNode'
    exact ⟨entry, isFirst, inVolume⟩

theorem Tree.mkdir_found_iff (made : tree.mkdir dir name mode uid gid = some after) :
    (∃ found, after.lookup dir name = some (.ok found)) ↔
      tree.Enters dir name (mode &&& 0xfff ||| 0x4000) uid gid := by
  rcases bind_eq_some_iff.mp made with ⟨_, isEntered, rest⟩
  split at rest
  · cases rest
  · cases rest
    exact Tree.mkentry_found_iff isEntered

/-- What it takes for a name to be found before `ext2_unlink` and not after it. -/
theorem Tree.unlink_removes_iff (named : name ≠ []) :
    ((∃ found, tree.lookup dir name = some (.ok found)) ∧
      ∃ done e, tree.unlink dir name = some done ∧
        done.1.lookup dir name = some (.error e)) ↔ tree.HoldsOnce dir name := by
  have first : ∀ {before behind : List (List UInt8 × Nat)} {inode : Nat},
      (∀ entry ∈ before, entry.1 ≠ name) →
      (before ++ (name, inode) :: behind).find? (fun entry => entry.1 = name) =
        some (name, inode) := by
    intro before behind inode noneBefore
    have isNone : before.find? (fun entry => decide (entry.1 = name)) = none := by
      simpa using noneBefore
    simp [isNone]
  constructor
  · rintro ⟨isFound, ⟨after, r⟩, e, unlinked, isMissing⟩
    rcases (Tree.unlink_relinks unlinked).here with ⟨node, blocks, isNode, isAfter, changed⟩
    rcases (Tree.lookup_ok_iff isNode).mp isFound with ⟨entry, isFirst, inVolume⟩
    rcases changed with ⟨before, inode, behind, isLinks, isCleared, noneBefore⟩ | ⟨_, absent⟩
    · have absent := (Tree.lookup_error_iff isAfter).mp ⟨e, isMissing⟩
      rw [isCleared] at absent
      rw [isLinks, first noneBefore] at isFirst
      cases isFirst
      refine ⟨node, before, inode, behind, isNode, isLinks, ?_, inVolume⟩
      intro other mem
      rcases mem_append.mp mem with isBefore | isBehind
      · exact noneBefore other isBefore
      · exact absent other (by simp [isBehind])
    · have isName : entry.1 = name := by simpa using find?_some isFirst
      exact absurd isName (absent entry (mem_of_find?_eq_some isFirst))
  · rintro ⟨node, before, inode, behind, isNode, isLinks, once, inVolume⟩
    have noneBefore : ∀ entry ∈ before, entry.1 ≠ name :=
      fun entry mem => once entry (mem_append_left _ mem)
    constructor
    · rw [Tree.lookup_ok_iff isNode, isLinks]
      exact ⟨(name, inode), first noneBefore, inVolume⟩
    · have returns : (tree.unlink dir name).isSome := by simp [Tree.unlink, isNode]
      rcases isSome_iff_exists.mp returns with ⟨⟨after, r⟩, unlinked⟩
      rcases (Tree.unlink_relinks unlinked).here with ⟨_, blocks, isSame, isAfter, changed⟩
      cases isNode.symm.trans isSame
      have absent : ∀ entry ∈ Node.links { node with blocks }, entry.1 ≠ name := by
        rcases changed with ⟨_, inode', _, isLinks', isCleared, _⟩ | ⟨_, absent⟩
        · have notOther : (name, inode') ∉ before ++ behind := fun mem => once _ mem rfl
          rw [mem_append, not_or] at notOther
          have isSplit := (append_cons_inj_of_notMem notOther.1 notOther.2).mp
            (isLinks.symm.trans isLinks')
          rw [isCleared, ← isSplit.1, ← isSplit.2.2]
          intro entry mem
          rcases mem_append.mp mem with isBefore | isBehind
          · exact noneBefore entry isBefore
          · rcases mem_cons.mp isBehind with isCleared | isBehind
            · rw [isCleared]
              exact named.symm
            · exact once entry (mem_append_right _ isBehind)
        · exact absurd rfl (absent (name, inode) (by simp [isLinks]))
      rcases (Tree.lookup_error_iff isAfter).mpr absent with ⟨e, isMissing⟩
      exact ⟨(after, r), e, unlinked, isMissing⟩

end Effects

/-! ## The bytes on the disk -/

/-- A directory on the disk has the entries that it has in the tree. -/
structure Shown (vol : Volume) (tree : Tree) (dir : Nat) (listing : Listing) : Prop where
  directory : Directory vol dir listing
  node : ∃ node, tree.node dir = some node ∧ node.blocks = listing.map Prod.snd
  inodes : ∀ entry ∈ entries listing, (readInode vol entry.2).isSome = (tree.node entry.2).isSome
  free : tree.freeBlocks = 0 ↔ freeTotal vol = 0
  groups : tree.groups = vol.groups.length

/-- The small volume with a directory as a tree. -/
def linkTree : Tree := ⟨1, replicate 16 ⟨true, 0x41ed, 0, 0, [[fullEntry 13]], []⟩, 57, false⟩

theorem linkTree_shown : Shown (linkVolume 13) linkTree 12 [(7, [fullEntry 13])] where
  directory := linkVolume_directory (by decide) rfl (by decide +kernel) (by decide +kernel)
  node := ⟨_, rfl, rfl⟩
  inodes := by decide +kernel
  free := by decide +kernel
  groups := rfl

variable {vol : Volume} {tree : Tree} {listing : Listing} {node : Node}

/-- `ext2_lookup` finds the same inode. -/
theorem shown_lookup (shown : Shown vol tree dir listing) (name : List UInt8) :
    lookupIno vol dir name = (tree.lookup dir name).map fun result => result.map Prod.fst := by
  obtain ⟨node, isNode, isBlocks⟩ := shown.node
  have isLinks : node.links = entries listing := by
    rw [Node.links, isBlocks, entries, records, flatMap]
  rw [lookupIno_spec shown.directory, Tree.lookup, isNode, bind_some, isLinks, firstNamed]
  cases isFirst : (entries listing).find? fun entry => decide (entry.1 = name) with
  | none => rfl
  | some entry =>
    have same := shown.inodes entry (mem_of_find?_eq_some isFirst)
    dsimp only
    cases isRead : readInode vol entry.2 with
    | none =>
      rw [isRead] at same
      have isNone : tree.node entry.2 = none := by simpa using same.symm
      rw [isNone]
      rfl
    | some _ =>
      rw [isRead] at same
      obtain ⟨_, isChild⟩ := isSome_iff_exists.mp same.symm
      rw [isChild]
      rfl

theorem shown_lookup_link : lookupIno (linkVolume 13) 12 [0x61] =
    (linkTree.lookup 12 [0x61]).map fun result => result.map Prod.fst :=
  shown_lookup linkTree_shown [0x61]

section

variable (shown : Shown vol tree dir listing) (isNode : tree.node dir = some node)
include shown isNode

theorem Shown.splice {spot : Spot} {found : Dirent → Bool} (isSpot : spot.Of vol listing)
    (noneBefore : ∀ other ∈ spot.earlier, found other = false) (isFound : found spot.entry = true) :
    spliceBlocks found edit node.blocks = some ((spot.put (edit spot.entry)).map Prod.snd) := by
  obtain ⟨other, isOther, isBlocks⟩ := shown.node
  obtain rfl := some.inj (isNode.symm.trans isOther)
  rw [Spot.earlier, forall_mem_append] at noneBefore
  rw [isBlocks, isSpot.listing_eq, Spot.put, map_append, spliceBlocks_append noneBefore.1,
    map_cons, spliceBlocks, append_assoc, splice_append noneBefore.2, cons_append,
    Lib.splice, if_pos isFound]
  simp [Spot.put]

theorem Shown.not_spliced {found : Dirent → Bool}
    (absent : ∀ entry ∈ records listing, found entry = false) :
    spliceBlocks found edit node.blocks = none := by
  obtain ⟨_, isOther, isBlocks⟩ := shown.node
  obtain rfl := some.inj (isNode.symm.trans isOther)
  rw [← map_eq_none_iff, spliceBlocks_flatten, splice_none, isBlocks]
  exact absent

end

/-- `ext2_unlink` does the same to the blocks. -/
theorem shown_unlink (shown : Shown vol tree dir listing) (name : List UInt8) :
    ∃ vol' tree' r listing', unlink vol dir name = some (vol', r) ∧
      tree.unlink dir name = some (tree', r) ∧ Directory vol' dir listing' ∧
      ∃ node, tree'.node dir = some node ∧ node.blocks = listing'.map Prod.snd := by
  obtain ⟨node, isNode, isBlocks⟩ := shown.node
  rcases unlink_spec shown.directory name with
    ⟨spot, isSpot, noneBefore, hasName, vol', unlinked, directory⟩ | ⟨absent, unlinked⟩
  · refine ⟨vol', tree.setNode dir { node with blocks := _ }, 0, _, unlinked, ?_, directory, _,
      (Tree.node_setNode (by rw [isNode]; rfl)).trans (if_pos rfl), rfl⟩
    simp only [Tree.unlink, isNode, map_some]
    rw [shown.splice isNode isSpot (by simpa using noneBefore) (by simpa using hasName)]
  · refine ⟨vol, tree, -Fs.enoent, listing, unlinked, ?_, shown.directory, node, isNode, isBlocks⟩
    simp only [Tree.unlink, isNode, map_some]
    rw [shown.not_spliced isNode (by simpa using absent)]

theorem shown_unlink_link : ∃ vol tree r, unlink (linkVolume 13) 12 [0x61] = some (vol, r) ∧
    linkTree.unlink 12 [0x61] = some (tree, r) := by
  obtain ⟨vol, tree, r, _, onDisk, inTree, _⟩ := shown_unlink linkTree_shown [0x61]
  exact ⟨vol, tree, r, onDisk, inTree⟩

/-- `ext2_append_dirent` does the same to the blocks. -/
theorem shown_append (shown : Shown vol tree dir listing) (inode : Nat) (type : UInt8)
    (name : List UInt8) (small : inode < 2 ^ 32) (nameLen : name.length < 2 ^ 8)
    (direct : listing.length ≤ 11) (spare : freeTotal vol ≠ 0) (few : vol.groups.length ≤ 32) :
    ∃ vol' tree' listing', appendDirent vol dir (newDirent inode type name) = some vol' ∧
      tree.appendDirent dir (Tree.entryOf inode type name) = some tree' ∧
      Directory vol' dir listing' ∧
      ∃ node, tree'.node dir = some node ∧ node.blocks = listing'.map Prod.snd := by
  obtain ⟨node, isNode, isBlocks⟩ := shown.node
  have isSome : (tree.node dir).isSome := by simp [isNode]
  have sameEntry : Tree.entryOf inode type name = newDirent inode type name := by
    rw [Tree.entryOf, Tree.storedName, newDirent, Nat.mod_eq_of_lt small, Nat.mod_eq_of_lt nameLen,
      take_length, Nat.mod_eq_of_lt (by rw [direntBytes]; omega)]
  have large : ¬ (newDirent inode type name).size < direntBytes := by simp [newDirent]
  rw [sameEntry, Tree.appendDirent, isNode, bind_some, if_neg large]
  by_cases room : ∃ entry ∈ records listing, hasRoom (newDirent inode type name) entry = true
  · obtain ⟨spot, isSpot, noneBefore, hasRoom, vol', appended, _, directory⟩ :=
      @appendDirent_room _ (newDirent inode type name) _ _ shown.directory small nameLen rfl room
    rw [shown.splice isNode isSpot noneBefore hasRoom]
    exact ⟨vol', _, _, appended, rfl, directory, _,
      (Tree.node_setNode isSome).trans (if_pos rfl), rfl⟩
  · have noRoom : ∀ entry ∈ records listing, hasRoom (newDirent inode type name) entry = false := by
      simpa using room
    obtain ⟨vol', _, appended, _, directory⟩ :=
      @appendDirent_full _ (newDirent inode type name) _ _ shown.directory small nameLen rfl noRoom
          direct spare few
    have notFree : ¬ tree.freeBlocks = 0 := fun none => spare (shown.free.mp none)
    have fits : ¬ (newDirent inode type name).size > 1024 := by
      simp only [newDirent, direntBytes]
      omega
    have short : node.blocks.length < 12 := by
      rw [isBlocks, length_map]
      omega
    rw [shown.not_spliced isNode noRoom]
    simp only [Tree.extend, Tree.allocBlk, notFree, if_false, shown.groups, if_pos few, bind_some,
      if_neg fits, if_pos short, false_and]
    refine ⟨vol', _, _, appended, rfl, directory, _,
      (Tree.node_setNode (by exact isSome)).trans (if_pos rfl), ?_⟩
    simp [isBlocks]

theorem shown_append_link :
    ∃ vol tree, appendDirent (linkVolume 13) 12 (newDirent 14 1 [0x62]) = some vol ∧
      linkTree.appendDirent 12 (Tree.entryOf 14 1 [0x62]) = some tree := by
  obtain ⟨vol, tree, _, onDisk, inTree, _⟩ := shown_append linkTree_shown 14 1 [0x62]
    (by decide) (by decide) (by decide) (by decide +kernel) (by decide)
  exact ⟨vol, tree, onDisk, inTree⟩

end Micro.Ext2
