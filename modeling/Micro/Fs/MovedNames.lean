import Micro.Fs.Rename

/-!
# Renames that move one name

A rename should put the inode of the old entry under the new name, remove the old entry, and
change no other; and change nothing if it fails.  `vfs_rename` adds a link and then removes a
name, so this depends on what the two directories hold: it is said here on what exactly.
-/

namespace Micro.Fs

open Kern Ext2 List Option

variable {disks : Disks} {dir root child : Inode} {name path : CStr} {init : List CStr}
  {result : Except Int Inode} {n : Nat}

/-! ## Directories -/

/-- The roots that file systems are mounted with. -/
inductive IsRoot : Inode → Prop where
  | ext2 (vol : Nat) (node : Ext2.Node) : IsRoot (inode2file vol 2 node)
  | devfs : IsRoot devfsRoot
  | initramfs (image : Nat) : IsRoot (initramfsRoot image)

/-- An inode of ext2, or one that ext2 does not serve, or not a directory. -/
inductive Served : Inode → Prop where
  | ext2 (vol num : Nat) (node : Ext2.Node) : Served (inode2file vol num node)
  | bare {inode : Inode} : inode.inode = 0 → inode.ops.unlink = none →
      inode.ops.lookup ≠ some ext2Fn → Served inode
  | file {inode : Inode} : sIsdir inode.mode = false → Served inode

section Served

variable {taskCurr : Option Task} {tokens : List CStr}

theorem IsRoot.served (isRoot : IsRoot root) : Served root := by
  cases isRoot with
  | ext2 vol node => exact .ext2 vol 2 node
  | devfs => exact .bare rfl rfl (by decide)
  | initramfs _ => exact .bare rfl rfl (by simp [initramfsRoot, initramfsFn, ext2Fn])

theorem look_served (looked : disks.look dir name = some (.ok child)) : Served child := by
  obtain ⟨_, _, looked⟩ := bind_eq_some_iff.mp looked
  cases Disks.lookup_answer looked with
  | ext2 vol num node => exact .ext2 vol num node
  | device device => exact .bare rfl rfl (by simp [Device.inode])
  | file notDir => exact .file notDir

theorem walk_served : ∀ {file : Inode}, Served file →
    disks.walk taskCurr file tokens = some (.ok dir) → Served dir := by
  induction tokens with
  | nil =>
    intro file served walked
    exact (walk_nil_ok.mp walked).2 ▸ served
  | cons _ tokens ih =>
    intro file served walked
    obtain ⟨_, _, _, looked, walked⟩ := walk_cons_ok.mp walked
    exact ih (look_served looked) walked

theorem passed_served : ∀ {file : Inode}, Served file →
    ∀ step ∈ disks.passed taskCurr file tokens, Served step.1 := by
  induction tokens with
  | nil => exact fun _ step mem => by cases mem
  | cons _ tokens ih =>
    intro file served step mem
    obtain ⟨_, _, first | ⟨_, looked, later⟩⟩ := mem_passed_cons.mp mem
    · rw [first]
      exact served
    · exact ih (look_served looked) step later

section

variable (served : Served dir) (isDir : sIsdir dir.mode = true)
include served isDir

theorem Served.ops (number : dir.inode ≠ 0) : dir.ops = ext2Iops := by
  cases served with
  | ext2 _ _ _ => rfl
  | bare isZero _ _ => exact absurd isZero number
  | file notDir => simp [notDir] at isDir

theorem Served.ops_of_unlink {op : FnPtr} (isOp : dir.ops.unlink = some op) :
    dir.ops = ext2Iops := by
  cases served with
  | ext2 _ _ _ => rfl
  | bare _ noUnlink _ => simp [noUnlink] at isOp
  | file notDir => simp [notDir] at isDir

theorem Served.bare_of_unlink (noUnlink : dir.ops.unlink = none) :
    dir.inode = 0 ∧ dir.ops.lookup ≠ some ext2Fn := by
  cases served with
  | ext2 _ _ _ => cases noUnlink
  | bare isZero _ noLookup => exact ⟨isZero, noLookup⟩
  | file notDir => simp [notDir] at isDir

end

section Roots

variable {mounts : List Mount} (roots : ∀ mount ∈ mounts, IsRoot mount.file)
include roots

theorem Leads.served (leads : Leads mounts path root init name) : Served root := by
  obtain ⟨_, answer, _⟩ := leads
  obtain ⟨mount, mem, isRoot⟩ := vfsGetmnt_mem answer
  rw [← isRoot]
  exact (roots mount mem).served

theorem way_served {step : Inode × CStr} (mem : step ∈ disks.way mounts taskCurr path) :
    Served step.1 ∧ sIsdir step.1.mode = true ∧ step.2 ≠ [] := by
  rcases leads_or_fails mounts path with ⟨_, _, _, leads⟩ | ⟨e, fails⟩
  · rw [leads.way] at mem
    exact ⟨passed_served (leads.served roots) step mem, (mem_passed mem).1, leads.passed_plain mem⟩
  · rw [(fails disks taskCurr).2] at mem
    cases mem

end Roots

end Served

/-! ## The property -/

section Property

variable (opens : Opens) (mounts : List Mount)

/-- The directory that has the entry of a path, and the name of the entry. -/
def Names (disks : Disks) (path : CStr) (dir : Inode) (name : CStr) : Prop :=
  getParentDir (drivers opens).toMachine mounts none (some disks) path =
    some (some disks, .ok (dir, name))

/-- What a path resolves to without following links. -/
def Resolves (disks : Disks) (path : CStr) (result : Except Int Inode) : Prop :=
  vfsResolve (drivers opens).toMachine mounts none false (some disks) path = some (some disks, result)

/-- No directory entry has changed. -/
structure SameEntries (before after : Disks) : Prop where
  holding : ∀ entry, after.holding entry = before.holding entry
  devices : after.devices = before.devices
  images : after.images = before.images

/-- The inode that the entry of `old` named is found under `new`, the entry of `old` is gone
unless it is the same entry, and no other entry has changed. -/
structure MovesTo (before after : Disks) (old new : CStr) (from_ dir inode : Inode) (last name : CStr) :
    Prop where
  source : Names opens mounts before old from_ last
  target : Names opens mounts before new dir name
  named : Resolves opens mounts before old (.ok inode)
  found : Resolves opens mounts after new (.ok inode)
  gone : entryAt from_ last = entryAt dir name ∨ ∃ e, Resolves opens mounts after old (.error e)
  holding : ∀ entry, after.holding entry =
    if entry = entryAt dir name then [inode.inode]
    else if entry = entryAt from_ last then []
    else before.holding entry
  devices : after.devices = before.devices
  images : after.images = before.images

def Moved (before after : Disks) (old new : CStr) : Prop :=
  ∃ from_ dir inode last name, MovesTo opens mounts before after old new from_ dir inode last name

/-- The call returns; if it returns 0 it has moved one name, and otherwise no entry has changed. -/
def RenamesOne (kernel : Kernel (Option Disks)) (taskCurr : Option Task) (old new : CStr) : Prop :=
  ∃ before done after, kernel.dev = some before ∧
    vfsRename (drivers opens) kernel taskCurr old new = some done ∧ done.1.dev = some after ∧
    (done.2 = 0 → Moved opens kernel.mounts before after old new) ∧
    (done.2 ≠ 0 → SameEntries before after)

end Property

/-! ## The condition -/

/-- Lookups find a number, and no other entry in use has the name. -/
def FindsOnly (found : List Nat) (num : Nat) : Prop :=
  found.head? = some num ∧ found.filter (· ≠ 0) = [num]

section Condition

variable (opens : Opens) (mounts : List Mount)
  (taskCurr : Option Task) (before : Disks) (old new : CStr)

/-- The link can be made, and the entry of `old` is in a directory of ext2. -/
structure Finds (file dir from_ inode : Inode) (name last : CStr) (tree linked : Tree) (node : Ext2.Node) :
    Prop extends Links opens mounts taskCurr before old new file dir name tree linked where
  isNode : tree.node dir.inode = some node
  source : before.parent mounts taskCurr old = some (.ok (from_, last))
  isUnlink : from_.ops.unlink = some ext2Fn
  looked : before.look from_ last = some (.ok inode)

/-- What has to hold before a rename. -/
inductive MayRename : Prop where
  /-- The link is refused. -/
  | refused {e : Int} : Refused opens mounts taskCurr before old new e → MayRename
  /-- The directory of `old` is not found, but the link adds no entry in use. -/
  | unseen {file dir : Inode} {name : CStr} {tree linked : Tree} {node : Ext2.Node} {e : Int} :
      Links opens mounts taskCurr before old new file dir name tree linked →
      tree.node dir.inode = some node →
      before.parent mounts taskCurr old = some (.error e) →
      (numbers (node.withEntry (linkEntry file name)) (Tree.storedName name)).filter (· ≠ 0) =
        (numbers node.links (Tree.storedName name)).filter (· ≠ 0) →
      (∀ step ∈ before.way mounts taskCurr old,
        entryAt step.1 step.2 = entryAt dir (Tree.storedName name) →
        (numbers (node.withEntry (linkEntry file name)) (Tree.storedName name)).head? =
          (numbers node.links (Tree.storedName name)).head?) → MayRename
  /-- Both entries are on one volume, the link is the only entry with the new name, `old` has the
  only entry with the old one, and `new` does not lead through it. -/
  | moves {file dir from_ inode : Inode} {name last : CStr} {tree linked : Tree} {node : Ext2.Node} :
      Finds opens mounts taskCurr before old new file dir from_ inode name last tree linked node →
      from_.priv = dir.priv → entryAt from_ last ≠ entryAt dir name →
      FindsOnly (numbers (node.withEntry (linkEntry file name)) name) inode.inode →
      before.numbersAt (entryAt from_ last) = some [inode.inode] →
      (∀ step ∈ before.way mounts none new, entryAt step.1 step.2 ≠ entryAt from_ last) → MayRename
  /-- Both are the same entry, and what is left is the only one. -/
  | same {file dir from_ inode : Inode} {name last : CStr} {tree linked : Tree} {node : Ext2.Node} :
      Finds opens mounts taskCurr before old new file dir from_ inode name last tree linked node →
      entryAt from_ last = entryAt dir name →
      FindsOnly (numbers (node.withEntry (linkEntry file name)) name).tail inode.inode → MayRename

end Condition

/-- Entries as they fit on the disk: `name_len` has 8 bits, and `inode` 32. -/
def Stored (disks : Disks) : Prop :=
  ∀ vol tree, disks.trees vol = some tree → ∀ node ∈ tree.inodes, ∀ entry ∈ node.links,
    entry.1.length < 2 ^ 8 ∧ entry.2 < 2 ^ 32

/-! ## Resolving in two states -/

variable {opens : Opens} {mounts : List Mount} {taskCurr : Option Task}

section States

variable {after : Disks} {token : CStr} {there : List Nat} {num : Nat}

theorem names_iff : Names opens mounts disks path dir name ↔
    disks.parent mounts none path = some (.ok (dir, name)) := by
  rw [Names, getParentDir_agrees path |>.iff]
  simp

theorem Leads.resolves_iff (leads : Leads mounts path root init name) :
    Resolves opens mounts disks path result ↔
      (∃ dir, disks.walk none root init = some (.ok dir) ∧ disks.look dir name = some result) ∨
      ∃ e, disks.walk none root init = some (.error e) ∧ result = .error e := by
  rw [Resolves, leads.resolve.iff]
  match disks.walk none root init with
  | some (.ok dir) => simp
  | some (.error e) => simp [eq_comm]
  | none => simp

theorem Leads.resolves_at (leads : Leads mounts path root init name)
    (walked : disks.walk none root init = some (.ok dir)) :
    Resolves opens mounts disks path result ↔ disks.look dir name = some result := by
  simp [leads.resolves_iff, walked]

theorem Similar.look_of_numbers (similar : Similar disks after)
    (same : after.numbersAt (entryAt dir token) = disks.numbersAt (entryAt dir token)) :
    after.look dir token = disks.look dir token :=
  similar.look fun _ => by rw [Disks.firstAt, Disks.firstAt, same]

theorem live_mem (only : there.filter (· ≠ 0) = [num]) : num ∈ there ∧ num ≠ 0 := by
  have inUse := mem_singleton_self num
  rw [← only] at inUse
  simpa using inUse

theorem mem_live (only : there.filter (· ≠ 0) = [num]) (mem : n ∈ there) (used : n ≠ 0) :
    n = num := by
  have inUse : n ∈ there.filter (· ≠ 0) := mem_filter.mpr ⟨mem, by simpa using used⟩
  rw [only] at inUse
  exact mem_singleton.mp inUse

theorem FindsOnly.number (finds : FindsOnly there num) : num ∈ there ∧ num ≠ 0 := live_mem finds.2

section

variable (similar : Similar disks after) (looked : disks.look dir token = some (.ok child))
  (isThere : after.numbersAt (entryAt dir token) = some there)
include similar looked isThere

/-- Where one entry in use has a name, a lookup that found an entry finds the same, unless an
entry that is not in use comes first. -/
theorem Similar.look_only (only : there.filter (· ≠ 0) = [num])
    (stays : ∀ n, disks.firstAt (entryAt dir token) = some (some n) → n ∈ there) :
    after.look dir token = disks.look dir token ∨
      there.head? = some 0 ∧ after.look dir token = none := by
  rcases similar.look_or dir token with same | isOp
  · exact .inl same
  · obtain ⟨n, isFirst, isChild⟩ := (look_ext2_ok isOp).mp looked
    have number := (inodeAt_some isChild).1
    cases isHead : there.head? with
    | none =>
      have mem := stays n isFirst
      rw [head?_eq_none_iff.mp isHead] at mem
      cases mem
    | some head =>
      have isFirstAfter : after.firstAt (entryAt dir token) = some (some head) := by
        rw [Disks.firstAt, isThere, map_some, isHead]
      by_cases used : head = 0
      · subst used
        exact .inr ⟨rfl, look_ext2_zero isOp isFirstAfter⟩
      · left
        apply similar.look
        intro _
        rw [isFirst, isFirstAfter, mem_live only (mem_of_head? isHead) used,
          mem_live only (stays n isFirst) number]

theorem Similar.look_found (finds : FindsOnly there num)
    (stays : ∀ n, disks.firstAt (entryAt dir token) = some (some n) → n ∈ there) :
    after.look dir token = disks.look dir token := by
  rcases similar.look_only looked isThere finds.2 stays with same | ⟨isZero, _⟩
  · exact same
  · rw [finds.1] at isZero
    exact absurd (some.inj isZero) finds.number.2

end

/-- A lookup gives the same in a later state, or goes astray there. -/
abbrev SameOrAstray (disks after : Disks) (step : Inode × CStr) : Prop :=
  after.look step.1 step.2 = disks.look step.1 step.2 ∨ after.look step.1 step.2 = none

/-- Looking for the directory of a path in a state where lookups may have gone astray. -/
theorem parent_astray
    (changed : ∀ step ∈ disks.way mounts taskCurr path, SameOrAstray disks after step) :
    (∀ step ∈ disks.way mounts taskCurr path, after.look step.1 step.2 = disks.look step.1 step.2) ∧
        after.parent mounts taskCurr path = disks.parent mounts taskCurr path ∨
      after.parent mounts taskCurr path = none := by
  rcases leads_or_fails mounts path with ⟨root, init, _, leads⟩ | ⟨e, fails⟩
  · rw [leads.way] at changed ⊢
    rw [leads.parent, leads.parent]
    rcases @walk_changed disks after taskCurr (· = none) (by simp) init root changed with
      ⟨same, sameWalk⟩ | astray
    · rw [sameWalk]
      exact .inl ⟨same, rfl⟩
    · rw [astray]
      exact .inr rfl
  · rw [(fails disks taskCurr).1, (fails disks taskCurr).2, (fails after taskCurr).1]
    simp

theorem parent_same
    (same : ∀ step ∈ disks.way mounts taskCurr path,
      after.look step.1 step.2 = disks.look step.1 step.2) :
    after.parent mounts taskCurr path = disks.parent mounts taskCurr path := by
  rcases leads_or_fails mounts path with ⟨_, _, _, leads⟩ | ⟨e, fails⟩
  · rw [leads.way] at same
    rw [leads.parent, leads.parent, walk_same same]
  · rw [(fails disks taskCurr).1, (fails after taskCurr).1]

theorem way_known (known : disks.parent mounts taskCurr path ≠ none) :
    ∀ step ∈ disks.way mounts taskCurr path, disks.look step.1 step.2 ≠ none := by
  rcases leads_or_fails mounts path with ⟨_, _, _, leads⟩ | ⟨e, fails⟩
  · rw [leads.way]
    rw [leads.parent, ne_eq, map_eq_none_iff] at known
    exact passed_known known
  · rw [(fails disks taskCurr).2]
    simp

end States

/-! ## After the link -/

section Linked

variable {before : Disks} {old new : CStr} {file : Inode} {tree linked : Tree} {node : Ext2.Node}
  {linkedDisks : Disks}

theorem Links.effect (roots : ∀ mount ∈ mounts, IsRoot mount.file)
    (links : Links opens mounts taskCurr before old new file dir name tree linked)
    (isNode : tree.node dir.inode = some node) :
    LinkEffect before dir file name node (before.setTree dir.priv linked) ∧ dir.ops = ext2Iops := by
  obtain ⟨_, isNode', effect⟩ := link_effect links.isTree links.linked
  cases isNode.symm.trans isNode'
  refine ⟨effect, ?_⟩
  obtain ⟨_, _, leads, walked⟩ := parent_ok.mp links.parent
  apply (walk_served (leads.served roots) walked).ops (walk_isDir walked).2
  intro zero
  simp [Ext2.Tree.node, zero] at isNode

section

variable (effect : LinkEffect before dir file name node linkedDisks)
include effect

theorem LinkEffect.first (other : CStr) :
    before.firstAt (entryAt dir other) = some (numbers node.links other).head? ∧
      linkedDisks.firstAt (entryAt dir other) =
        some (numbers (node.withEntry (linkEntry file name)) other).head? := by
  rw [Disks.firstAt, Disks.firstAt, effect.before, effect.here]
  exact ⟨rfl, rfl⟩

/-- A link that adds no entry in use may leave lookups astray, and changes them in no other way. -/
theorem LinkEffect.look_unused
    (unused : (numbers (node.withEntry (linkEntry file name)) (Tree.storedName name)).filter (· ≠ 0) =
      (numbers node.links (Tree.storedName name)).filter (· ≠ 0)) (step : Inode × CStr) :
    SameOrAstray before linkedDisks step := by
  by_cases here : entryAt step.1 step.2 = entryAt dir (Tree.storedName name)
  · have firsts := effect.first (Tree.storedName name)
    rcases head_numbers_withEntry node (linkEntry file name) with sameHead | ⟨reaches, isNew⟩
    · left
      apply effect.similar.look
      intro _
      rw [here, firsts.1, firsts.2]
      exact congrArg some sameHead
    · have isZero : (linkEntry file name).inode = 0 := unused_of_live_withEntry reaches unused
      refine (effect.similar.look_or _ _).imp_right fun isOp => look_ext2_zero isOp ?_
      rw [here, firsts.2, ← isZero]
      exact congrArg some isNew
  · exact .inl (effect.similar.look_of_numbers (effect.others here))

end

/-- When a rename fails after the link without having changed an entry. -/
theorem stranded_iff (roots : ∀ mount ∈ mounts, IsRoot mount.file)
    (links : Links opens mounts taskCurr before old new file dir name tree linked)
    (isNode : tree.node dir.inode = some node) {e : Int} :
    (before.setTree dir.priv linked).parent mounts taskCurr old = some (.error e) ∧
        SameEntries before (before.setTree dir.priv linked) ↔
      before.parent mounts taskCurr old = some (.error e) ∧
        (numbers (node.withEntry (linkEntry file name)) (Tree.storedName name)).filter (· ≠ 0) =
          (numbers node.links (Tree.storedName name)).filter (· ≠ 0) ∧
        ∀ step ∈ before.way mounts taskCurr old,
          entryAt step.1 step.2 = entryAt dir (Tree.storedName name) →
          (numbers (node.withEntry (linkEntry file name)) (Tree.storedName name)).head? =
            (numbers node.links (Tree.storedName name)).head? := by
  obtain ⟨effect, _⟩ := links.effect roots isNode
  have firsts := effect.first (Tree.storedName name)
  constructor
  · rintro ⟨fails, same⟩
    have unused := same.holding (entryAt dir (Tree.storedName name))
    rw [holding_some (effect.before _), holding_some (effect.here _)] at unused
    rcases parent_astray fun step (_ : step ∈ before.way mounts taskCurr old) =>
      effect.look_unused unused step with ⟨sameLooks, sameParent⟩ | astray
    · rw [fails] at sameParent
      refine ⟨sameParent.symm, unused, fun step mem here => ?_⟩
      rcases head_numbers_withEntry node (linkEntry file name) with sameHead | ⟨reaches, isNew⟩
      · exact sameHead
      · have isZero : (linkEntry file name).inode = 0 := unused_of_live_withEntry reaches unused
        have isNumber : step.1.inode = dir.inode := congrArg (fun entry => entry.2.1) here
        obtain ⟨served, isDir, _⟩ := way_served roots mem
        have isOps : step.1.ops = ext2Iops := by
          apply served.ops isDir
          rw [isNumber]
          intro zero
          simp [Ext2.Tree.node, zero] at isNode
        have astray : (before.setTree dir.priv linked).look step.1 step.2 = none := by
          apply look_ext2_zero (by rw [isOps]; rfl)
          rw [here, firsts.2, ← isZero]
          exact congrArg some isNew
        have known := way_known (by simp [← sameParent]) step mem
        exact absurd ((sameLooks step mem).symm.trans astray) known
    · rw [fails] at astray
      cases astray
  · rintro ⟨fails, unused, heads⟩
    refine ⟨?_, ?_, rfl, rfl⟩
    · rw [parent_same, fails]
      intro step mem
      apply effect.similar.look
      intro _
      by_cases here : entryAt step.1 step.2 = entryAt dir (Tree.storedName name)
      · rw [here, firsts.1, firsts.2, heads step mem here]
      · rw [Disks.firstAt, Disks.firstAt, effect.others here]
    · intro entry
      by_cases here : entry = entryAt dir (Tree.storedName name)
      · rw [here, holding_some (effect.before _), holding_some (effect.here _), unused]
      · exact holding_eq (effect.others here)

theorem mem_numbers {links : List (List UInt8 × Nat)} {other : List UInt8} :
    n ∈ numbers links other ↔ (other, n) ∈ links := by
  simp [numbers]

section

variable (stored : Stored before) (isTree : before.trees dir.priv = some tree)
  (isNode : tree.node dir.inode = some node)
include stored isTree isNode

theorem Stored.number {other : CStr} (mem : n ∈ numbers node.links other) : n < 2 ^ 32 :=
  (stored _ tree isTree node (Tree.mem_inodes.mpr ⟨_, isNode⟩) _ (mem_numbers.mp mem)).2

theorem Stored.storedName (mem : n ∈ numbers (node.withEntry (linkEntry file name)) name) :
    Tree.storedName name = name := by
  have short : name.length < 2 ^ 8 := by
    rcases mem_withEntry (mem_numbers.mp mem) with old | isNew
    · exact (stored _ tree isTree node (Tree.mem_inodes.mpr ⟨_, isNode⟩) _ old).1
    · have isName : name = Tree.storedName name := congrArg Prod.fst isNew
      rw [isName]
      exact lt_of_le_of_lt (length_take_le _ _) (Nat.mod_lt _ (by decide))
  rw [Tree.storedName, Nat.mod_eq_of_lt short, take_length]

end

theorem head_linkEntry (isName : Tree.storedName name = name) :
    (numbers (node.withEntry (linkEntry file name)) name).head? = (numbers node.links name).head? ∨
      (numbers (node.withEntry (linkEntry file name)) name).head? = some (file.inode % 2 ^ 32) := by
  have isNew : (linkEntry file name).name = name := isName
  have heads := head_numbers_withEntry node (linkEntry file name)
  rw [isNew] at heads
  exact heads.imp_right And.right

theorem Links.number (stored : Stored before)
    (links : Links opens mounts taskCurr before old new file dir name tree linked)
    (isNode : tree.node dir.inode = some node) {found inode : Inode} {last : CStr}
    (leads : Leads mounts old root init last)
    (walked : before.walk none root init = some (.ok found))
    (looked : before.look found last = some (.ok inode)) (isDir : sIsdir inode.mode = true)
    (isHead : (numbers node.links name).head? = some inode.inode) :
    file.inode % 2 ^ 32 = inode.inode := by
  have isFile : file = inode :=
    leads.resolves walked looked (not_link_of_isDir isDir) links.resolves
  rw [isFile]
  exact Nat.mod_eq_of_lt (stored.number links.isTree isNode (mem_of_head? isHead))

end Linked

end Micro.Fs
