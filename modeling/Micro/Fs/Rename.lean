import Micro.Fs.Lookups
import Micro.Fs.ParentLookup
import Micro.Fs.UniqueNames

/-!
# Renaming

`vfs_rename` links the file under the new path and then removes the old one.  The link
follows symbolic links, is added whatever the new directory holds, and stays if the old
directory is not found afterwards.  What a call does is first said once, case by case; from
that follows when it moves exactly one name.
-/

namespace Micro.Fs

open Kern Ext2 Option List

variable {r : Int} {disks : Disks} {file : Inode} {σ : Type}

/-! ## What a call does -/

section Outcome

variable (opens : Opens) (mounts : List Mount)
  (taskCurr : Option Task) (before : Disks) (old new : CStr)

/-- `vfs_link` has found the file and the directory, and `ext2_link` has added the entry. -/
structure Links (file dir : Inode) (name : CStr) (tree after : Tree) : Prop where
  resolves : vfsResolve (drivers opens).toMachine mounts taskCurr true (some before) old =
    some (some before, .ok file)
  parent : before.parent mounts taskCurr new = some (.ok (dir, name))
  isLink : file.ops.link = some ext2Fn
  isTree : before.trees dir.priv = some tree
  linked : tree.link file.inode file.mode name dir.inode = some after

/-- `vfs_link` returns an error and has added nothing. -/
inductive Refused : Int → Prop where
  | unresolved {e : Int} :
      vfsResolve (drivers opens).toMachine mounts taskCurr true (some before) old =
        some (some before, .error e) → Refused e
  | noParent {file : Inode} {e : Int} :
      vfsResolve (drivers opens).toMachine mounts taskCurr true (some before) old =
        some (some before, .ok file) →
      before.parent mounts taskCurr new = some (.error e) → Refused e
  | noLink {file dir : Inode} {name : CStr} :
      vfsResolve (drivers opens).toMachine mounts taskCurr true (some before) old =
        some (some before, .ok file) →
      before.parent mounts taskCurr new = some (.ok (dir, name)) → file.ops.link = none →
      Refused (-enoent)

/-- What `vfs_link` leaves behind, and returns. -/
inductive LinkOutcome : Disks → Int → Prop where
  | refused {e : Int} : Refused opens mounts taskCurr before old new e → LinkOutcome before e
  | links {file dir : Inode} {name : CStr} {tree after : Tree} :
      Links opens mounts taskCurr before old new file dir name tree after →
      LinkOutcome (before.setTree dir.priv after) 0

/-- What `vfs_rename` leaves behind, and returns. -/
inductive RenameOutcome : Disks → Int → Prop where
  | refused {e : Int} : Refused opens mounts taskCurr before old new e → RenameOutcome before e
  | stranded {file dir : Inode} {name : CStr} {tree linked : Tree} {e : Int} :
      Links opens mounts taskCurr before old new file dir name tree linked →
      (before.setTree dir.priv linked).parent mounts taskCurr old = some (.error e) →
      RenameOutcome (before.setTree dir.priv linked) e
  | kept {file dir from_ : Inode} {name last : CStr} {tree linked : Tree} :
      Links opens mounts taskCurr before old new file dir name tree linked →
      (before.setTree dir.priv linked).parent mounts taskCurr old = some (.ok (from_, last)) →
      from_.ops.unlink = none → RenameOutcome (before.setTree dir.priv linked) 0
  | moved {file dir from_ : Inode} {name last : CStr} {tree linked source unlinked : Tree} {r : Int} :
      Links opens mounts taskCurr before old new file dir name tree linked →
      (before.setTree dir.priv linked).parent mounts taskCurr old = some (.ok (from_, last)) →
      from_.ops.unlink = some ext2Fn →
      (before.setTree dir.priv linked).trees from_.priv = some source →
      source.unlink from_.inode last = some (unlinked, r) →
      RenameOutcome ((before.setTree dir.priv linked).setTree from_.priv unlinked) 0

end Outcome

section Outcome

variable {opens : Opens} {kernel : Kernel (Option Disks)} {taskCurr : Option Task}
  {before after : Disks} {old new path : CStr}

theorem readRules : DirRules (drivers opens)
    (fun dev => dev = some disks ∨ dev = none) (fun _ => True) (fun _ => False) where
  lookup op dir name holds := @drivers_lookup_holds _ _
    (fun dev => dev = some disks ∨ dev = none) holds (.inr rfl) op dir name
  found _ _ _ _ _ := trivial
  readlink op inode n holds := @drivers_readlink_holds _ _
    (fun dev => dev = some disks ∨ dev = none) holds (.inr rfl) op inode n
  openFile _ _ _ holds := holds
  mknod _ _ _ _ _ _ _ allowed := allowed.elim
  mkdir _ _ _ _ _ _ allowed := allowed.elim
  unlink _ _ _ allowed := allowed.elim
  symlink _ _ _ allowed := allowed.elim
  link _ _ _ _ allowed := allowed.elim

theorem inParent_kernel {machine : DirMachine σ} {kernel : Kernel σ}
    {act : σ → Inode → CStr → Option (σ × Int)} {done : Kernel σ × Int}
    (ran : inParent machine kernel taskCurr path act = some done) :
    done.1 = { kernel with dev := done.1.dev } := by
  simp only [inParent] at ran
  split at ran
  · cases ran
  · cases ran
    rfl
  · obtain ⟨_, _, isDone⟩ := map_eq_some_iff.mp ran
    subst isDone
    rfl

variable {act : Option Disks → Inode → CStr → Option (Option Disks × Int)}
  {done : Kernel (Option Disks) × Int}

/-- Acting on the directory of a path with the drivers. -/
theorem inParent_iff (isDev : kernel.dev = some before)
    (lostAct : ∀ dir name done, act none dir name = some done → done.1 = none) :
    inParent (drivers opens) kernel taskCurr path act = some ({ kernel with dev := some after }, r) ↔
      before.parent kernel.mounts taskCurr path = some (.error r) ∧ after = before ∨
      ∃ dir name, before.parent kernel.mounts taskCurr path = some (.ok (dir, name)) ∧
        act (some before) dir name = some (some after, r) := by
  have agrees := @getParentDir_agrees kernel.mounts opens before taskCurr path
  simp only [inParent, isDev]
  cases found : before.parent kernel.mounts taskCurr path with
  | none =>
    rw [found] at agrees
    simp only [reduceCtorEq, false_and, exists_false, or_false, iff_false]
    intro ran
    split at ran
    · cases ran
    · rename_i finds
      simp only [some.injEq, Prod.mk.injEq, Kernel.mk.injEq] at ran
      rw [ran.1.1] at finds
      exact agrees _ _ finds
    · rename_i disk dir name finds
      obtain ⟨done, acted, isDone⟩ := map_eq_some_iff.mp ran
      simp only [Prod.mk.injEq, Kernel.mk.injEq] at isDone
      cases disk with
      | none =>
        rw [lostAct _ _ _ acted] at isDone
        cases isDone.1.1
      | some _ => exact agrees _ _ finds
  | some result =>
    rw [found] at agrees
    have finds := agrees
    rw [finds]
    cases result with
    | error e =>
      simp only [some.injEq, Prod.mk.injEq, Kernel.mk.injEq, and_true, Except.error.injEq,
        reduceCtorEq, false_and, exists_false, or_false]
      constructor
      · rintro ⟨same, isError⟩
        exact ⟨isError, same.symm⟩
      · rintro ⟨isError, same⟩
        exact ⟨same.symm, isError⟩
    | ok place =>
      obtain ⟨dir, name⟩ := place
      simp only [some.injEq, reduceCtorEq, false_and, false_or, Except.ok.injEq, Prod.mk.injEq]
      constructor
      · intro ran
        obtain ⟨done, acted, isDone⟩ := map_eq_some_iff.mp ran
        simp only [Prod.mk.injEq, Kernel.mk.injEq, and_true] at isDone
        refine ⟨dir, name, ⟨rfl, rfl⟩, ?_⟩
        rw [acted, ← isDone.1, ← isDone.2]
      · rintro ⟨_, _, ⟨rfl, rfl⟩, acted⟩
        rw [acted]
        rfl

theorem inParent_lost (isDev : kernel.dev = none)
    (lostAct : ∀ dir name done, act none dir name = some done → done.1 = none)
    (ran : inParent (drivers opens) kernel taskCurr path act = some done) : done.1.dev = none := by
  refine (inParent_leaves lostRules isDev (fun _ _ => trivial) ?_ done ran).holds
  intro _ dir name _ _ lost _ acted
  subst lost
  exact lostAct _ _ _ acted

theorem link_lost (dir : Inode) (name : CStr) (done : Option Disks × Int)
    (acted : (match file.ops.link with
      | some link => some ((drivers opens).link link none file name dir)
      | none => some (none, -enoent)) = some done) : done.1 = none := by
  split at acted
  · cases acted
    simp [drivers, ext2Op]
  · cases acted
    rfl

theorem vfsLink_kernel
    (ran : vfsLink (drivers opens) kernel taskCurr old new = some done) :
    done.1 = { kernel with dev := done.1.dev } := by
  simp only [vfsLink] at ran
  split at ran
  · cases ran
  · cases ran
    rfl
  · have same := inParent_kernel ran
    exact same

theorem vfsLink_iff (isDev : kernel.dev = some before) :
    vfsLink (drivers opens) kernel taskCurr old new = some ({ kernel with dev := some after }, r) ↔
      LinkOutcome opens kernel.mounts taskCurr before old new after r := by
  have walks : Walks (fun dev => dev = some before ∨ dev = none) (fun _ => True)
      (vfsResolve (drivers opens).toMachine kernel.mounts taskCurr true (some before) old) :=
    doVfsResolve_walks readRules (fun _ _ => trivial) 8 (.inl rfl)
  constructor
  · intro ran
    simp only [vfsLink, isDev] at ran
    rcases resolved : vfsResolve (drivers opens).toMachine kernel.mounts taskCurr true (some before)
      old with _ | ⟨disk, e | file⟩
    · simp [resolved] at ran
    · rw [resolved] at walks
      simp only [resolved] at ran
      cases ran
      have same := some.inj (walks.1.resolve_right (by simp))
      subst same
      exact .refused (.unresolved resolved)
    · rw [resolved] at walks
      simp only [resolved] at ran
      rcases walks.1 with isBefore | lost
      · subst isBefore
        rcases (inParent_iff rfl link_lost).mp ran with ⟨noParent, same⟩ | ⟨dir, name, parent, acted⟩
        · subst same
          exact .refused (.noParent resolved noParent)
        · cases isLink : file.ops.link with
          | none =>
            simp only [isLink] at acted
            cases acted
            exact .refused (.noLink resolved parent isLink)
          | some op =>
            simp only [isLink, some.injEq] at acted
            obtain ⟨_, _, _, isDisks, isOp, isTree, changed, isAfter⟩ := ext2Op_some acted
            obtain ⟨_, linked, isPair⟩ := map_eq_some_iff.mp changed
            cases isDisks
            cases isPair
            subst isOp isAfter
            exact .links ⟨resolved, parent, isLink, isTree, linked⟩
      · subst lost
        cases inParent_lost rfl link_lost ran
  · intro outcome
    cases outcome with
    | refused refused =>
      cases refused with
      | unresolved resolves => simp only [vfsLink, isDev, resolves]
      | noParent resolves parent =>
        simp only [vfsLink, isDev, resolves]
        exact (inParent_iff rfl link_lost).mpr (.inl ⟨parent, rfl⟩)
      | noLink resolves parent isLink =>
        simp only [vfsLink, isDev, resolves]
        refine (inParent_iff rfl link_lost).mpr (.inr ⟨_, _, parent, ?_⟩)
        rw [isLink]
    | links links =>
      simp only [vfsLink, isDev, links.resolves]
      refine (inParent_iff rfl link_lost).mpr (.inr ⟨_, _, links.parent, ?_⟩)
      simp [links.isLink, drivers, ext2Op, links.isTree, links.linked]

theorem parent_error {mounts : List Mount}
    (failed : disks.parent mounts taskCurr path = some (.error r)) : r < 0 :=
  getParentDir_negative
    ((@getParentDir_agrees mounts noDevices disks taskCurr path).iff.mpr ⟨rfl, failed⟩)

theorem Refused.negative {mounts : List Mount}
    (refused : Refused opens mounts taskCurr before old new r) : r < 0 := by
  cases refused with
  | unresolved resolves => exact doVfsResolve_negative 8 resolves
  | noParent _ parent => exact parent_error parent
  | noLink _ _ _ => decide

theorem unlink_lost (dir : Inode) (name : CStr) (done : Option Disks × Int)
    (acted : some (vfsDoUnlink (drivers opens) none dir name, (0 : Int)) = some done) :
    done.1 = none := by
  cases acted
  simp only [vfsDoUnlink]
  split
  · simp [drivers, ext2Op]
  · rfl

theorem vfsRename_iff (isDev : kernel.dev = some before) :
    (∃ done, vfsRename (drivers opens) kernel taskCurr old new = some done ∧
      done.1.dev = some after ∧ done.2 = r) ↔
      RenameOutcome opens kernel.mounts taskCurr before old new after r := by
  constructor
  · rintro ⟨done, ran, isAfter, isResult⟩
    obtain ⟨linked, isLinked, rest⟩ := bind_eq_some_iff.mp ran
    have sameKernel := vfsLink_kernel isLinked
    obtain ⟨next, e⟩ := linked
    cases linkedDev : next.dev with
    | none =>
      split at rest
      · cases rest
        rw [linkedDev] at isAfter
        cases isAfter
      · rw [inParent_lost linkedDev unlink_lost rest] at isAfter
        cases isAfter
    | some _ =>
      rw [linkedDev] at sameKernel
      subst sameKernel
      have outcome := (vfsLink_iff isDev).mp isLinked
      cases outcome with
      | refused refused =>
        rw [if_pos refused.negative] at rest
        cases rest
        cases isAfter
        subst isResult
        exact .refused refused
      | links links =>
        have sameDone := inParent_kernel rest
        obtain ⟨_, e⟩ := done
        rw [isAfter] at sameDone
        subst sameDone isResult
        rcases (inParent_iff rfl unlink_lost).mp rest with
          ⟨noParent, same⟩ | ⟨from_, last, parent, acted⟩
        · subst same
          exact .stranded links noParent
        · simp only [some.injEq, Prod.mk.injEq] at acted
          obtain ⟨unlinked, isZero⟩ := acted
          subst isZero
          cases isOp : from_.ops.unlink with
          | none =>
            simp only [vfsDoUnlink, isOp, some.injEq] at unlinked
            subst unlinked
            exact .kept links parent isOp
          | some op =>
            simp only [vfsDoUnlink, isOp] at unlinked
            obtain ⟨_, _, _, isDisks, isFn, isTree, changed, isAfter⟩ :=
              ext2Op_some (Prod.ext unlinked rfl)
            cases isDisks
            subst isFn isAfter
            exact .moved links parent isOp isTree changed
  · intro outcome
    cases outcome with
    | refused refused =>
      simp [vfsRename, (vfsLink_iff isDev).mpr (.refused refused), refused.negative]
    | stranded links parent =>
      refine ⟨({ kernel with dev := some _ }, r), ?_, rfl, rfl⟩
      simp only [vfsRename, (vfsLink_iff isDev).mpr (.links links)]
      exact (inParent_iff rfl unlink_lost).mpr (.inl ⟨parent, rfl⟩)
    | kept links parent isOp =>
      refine ⟨({ kernel with dev := some _ }, 0), ?_, rfl, rfl⟩
      simp only [vfsRename, (vfsLink_iff isDev).mpr (.links links)]
      refine (inParent_iff rfl unlink_lost).mpr (.inr ⟨_, _, parent, ?_⟩)
      simp [vfsDoUnlink, isOp]
    | moved links parent isOp isTree unlinked =>
      refine ⟨({ kernel with dev := some _ }, 0), ?_, rfl, rfl⟩
      simp only [vfsRename, (vfsLink_iff isDev).mpr (.links links)]
      refine (inParent_iff rfl unlink_lost).mpr (.inr ⟨_, _, parent, ?_⟩)
      simp [vfsDoUnlink, isOp, drivers, ext2Op, isTree, unlinked]

end Outcome

/-! ## Entries after a call -/

/-- The entry that `ext2_link` makes for a file. -/
def linkEntry (file : Inode) (name : CStr) : Ext2.Dirent :=
  Tree.entryOf file.inode (Tree.direntType file.mode) name

section Entries

variable {dir : Inode} {name : CStr} {tree after : Tree} {entry : Entry} {dirent : Ext2.Dirent}
  {node : Ext2.Node} {other : List UInt8}

theorem holding_eq {other : Disks} (same : other.numbersAt entry = disks.numbersAt entry) :
    other.holding entry = disks.holding entry := by
  rw [Disks.holding, Disks.holding, same]

theorem holding_some {found : List Nat} (isFound : disks.numbersAt entry = some found) :
    disks.holding entry = found.filter (· ≠ 0) := by
  rw [Disks.holding, isFound, getD_some]

theorem numbers_withEntry_of_ne (ne : other ≠ dirent.name) :
    numbers (node.withEntry dirent) other = numbers node.links other := by
  rw [Ext2.Node.withEntry]
  split
  · conv_rhs => rw [← node.ahead_append dirent]
    rw [numbers_append, numbers_append, numbers_cons, if_neg (Ne.symm ne)]
  · rfl

theorem numbers_withEntry_self (reaches : node.Reaches dirent) :
    ∃ front behind, numbers node.links dirent.name = front ++ behind ∧
      numbers (node.withEntry dirent) dirent.name = front ++ dirent.inode :: behind := by
  refine ⟨numbers (node.ahead dirent) dirent.name,
    numbers (node.links.drop (node.ahead dirent).length) dirent.name, ?_, ?_⟩
  · rw [← numbers_append, node.ahead_append]
  · rw [Ext2.Node.withEntry, if_pos reaches, numbers_append, numbers_cons, if_pos rfl]

theorem mem_numbers_withEntry {n : Nat} (mem : n ∈ numbers node.links other) :
    n ∈ numbers (node.withEntry dirent) other := by
  by_cases same : other = dirent.name
  · subst same
    by_cases reaches : node.Reaches dirent
    · obtain ⟨_, _, isBefore, isAfter⟩ := numbers_withEntry_self reaches
      rw [isBefore, mem_append] at mem
      simp only [isAfter, mem_append, mem_cons]
      rcases mem with ahead | later
      · exact .inl ahead
      · exact .inr (.inr later)
    · rw [Ext2.Node.withEntry, if_neg reaches]
      exact mem
  · rw [numbers_withEntry_of_ne same]
    exact mem

theorem head_numbers_withEntry (node : Ext2.Node) (dirent : Ext2.Dirent) :
    (numbers (node.withEntry dirent) dirent.name).head? = (numbers node.links dirent.name).head? ∨
      node.Reaches dirent ∧ (numbers (node.withEntry dirent) dirent.name).head? = some dirent.inode := by
  by_cases reaches : node.Reaches dirent
  · obtain ⟨front, _, isBefore, isAfter⟩ := numbers_withEntry_self reaches
    rw [isBefore, isAfter]
    cases front with
    | nil => exact .inr ⟨reaches, rfl⟩
    | cons n front => exact .inl rfl
  · left
    rw [Ext2.Node.withEntry, if_neg reaches]

theorem unused_of_live_withEntry (reaches : node.Reaches dirent)
    (same : (numbers (node.withEntry dirent) dirent.name).filter (· ≠ 0) =
      (numbers node.links dirent.name).filter (· ≠ 0)) : dirent.inode = 0 := by
  obtain ⟨_, _, isBefore, isAfter⟩ := numbers_withEntry_self reaches
  have lengths := congrArg length same
  by_contra used
  simp [isBefore, isAfter, used] at lengths

theorem mem_withEntry {entry : List UInt8 × Nat} (mem : entry ∈ node.withEntry dirent) :
    entry ∈ node.links ∨ entry = dirent.link := by
  rw [Ext2.Node.withEntry] at mem
  split at mem
  · rw [← node.ahead_append dirent]
    simp only [mem_append, mem_cons] at mem ⊢
    tauto
  · exact .inl mem

/-- What `ext2_link` does to the entries. -/
structure LinkEffect (disks : Disks) (dir file : Inode) (name : CStr) (node : Ext2.Node) (linked : Disks) :
    Prop where
  similar : Similar disks linked
  elsewhere : ∀ entry : Entry, ¬ (entry.1 = dir.priv ∧ entry.2.1 = dir.inode) →
    linked.numbersAt entry = disks.numbersAt entry
  before : ∀ other, disks.numbersAt (entryAt dir other) = some (numbers node.links other)
  here : ∀ other, linked.numbersAt (entryAt dir other) =
    some (numbers (node.withEntry (linkEntry file name)) other)

theorem link_effect (isTree : disks.trees dir.priv = some tree)
    (linked : tree.link file.inode file.mode name dir.inode = some after) :
    ∃ node, tree.node dir.inode = some node ∧
      LinkEffect disks dir file name node (disks.setTree dir.priv after) := by
  obtain ⟨node, isNode, relinks⟩ := Tree.appendDirent_relinks (Tree.link_appends linked)
  obtain ⟨_, _, isOld, isLinks, isNumbers⟩ := relinks_here isTree relinks
  cases isNode.symm.trans isOld
  subst isLinks
  exact ⟨node, isNode, relinks_similar isTree relinks, fun _ => relinks_others isTree relinks,
    fun other => (isNumbers other).1, fun other => (isNumbers other).2⟩

theorem LinkEffect.others {linked : Disks} (effect : LinkEffect disks dir file name node linked)
    (ne : entry ≠ entryAt dir (Tree.storedName name)) :
    linked.numbersAt entry = disks.numbersAt entry := by
  by_cases here : entry.1 = dir.priv ∧ entry.2.1 = dir.inode
  · obtain ⟨_, _, other⟩ := entry
    obtain ⟨sameVol, sameNum⟩ := here
    subst sameVol sameNum
    have notName : other ≠ (linkEntry file name).name := fun same => ne (by rw [same]; rfl)
    have isHere := effect.here other
    rw [numbers_withEntry_of_ne notName, ← effect.before other] at isHere
    exact isHere
  · exact effect.elsewhere entry here

/-- What `ext2_unlink` does to the entries. -/
structure UnlinkEffect (disks : Disks) (dir : Inode) (name : CStr) (unlinked : Disks) : Prop where
  similar : Similar disks unlinked
  others : ∀ entry : Entry, entry ≠ entryAt dir name → entry.2.2 ≠ [] →
    unlinked.numbersAt entry = disks.numbersAt entry
  holding : ∀ entry, entry ≠ entryAt dir name → unlinked.holding entry = disks.holding entry
  here : ∃ found, disks.numbersAt (entryAt dir name) = some found ∧
    unlinked.numbersAt (entryAt dir name) = some found.tail

theorem unlink_effect (notEmpty : name ≠ []) (isTree : disks.trees dir.priv = some tree)
    (unlinked : tree.unlink dir.inode name = some (after, r)) :
    UnlinkEffect disks dir name (disks.setTree dir.priv after) := by
  have relinks := Tree.unlink_relinks unlinked
  have elsewhere : ∀ entry : Entry, ¬ (entry.1 = dir.priv ∧ entry.2.1 = dir.inode) →
      (disks.setTree dir.priv after).numbersAt entry = disks.numbersAt entry :=
    fun entry => relinks_others isTree relinks
  obtain ⟨node, links, _, changed, isNumbers⟩ := relinks_here isTree relinks
  have cleared : ∀ other, other ≠ name → numbers links other = numbers node.links other ∨
      other = [] ∧ (numbers links other).filter (· ≠ 0) = (numbers node.links other).filter (· ≠ 0) := by
    intro other ne
    rcases changed with ⟨front, inode, behind, isLinks, isAfter, _⟩ | ⟨same, _⟩
    · rw [isLinks, isAfter, numbers_append, numbers_append, numbers_cons, numbers_cons,
        if_neg (Ne.symm ne)]
      by_cases empty : other = []
      · simp [empty]
      · left
        rw [if_neg (Ne.symm empty)]
    · left
      rw [same]
  refine ⟨relinks_similar isTree relinks, ?_, ?_, ?_⟩
  · intro entry ne notEmptyEntry
    by_cases here : entry.1 = dir.priv ∧ entry.2.1 = dir.inode
    · obtain ⟨vol, num, other⟩ := entry
      obtain ⟨sameVol, sameNum⟩ := here
      subst sameVol sameNum
      have notName : other ≠ name := fun same => ne (by rw [entryAt, same])
      rw [(isNumbers other).1, (isNumbers other).2]
      rcases cleared other notName with same | ⟨empty, _⟩
      · rw [same]
      · exact absurd empty notEmptyEntry
    · exact elsewhere entry here
  · intro entry ne
    by_cases here : entry.1 = dir.priv ∧ entry.2.1 = dir.inode
    · obtain ⟨vol, num, other⟩ := entry
      obtain ⟨sameVol, sameNum⟩ := here
      subst sameVol sameNum
      have notName : other ≠ name := fun same => ne (by rw [entryAt, same])
      rw [holding_some (isNumbers other).1, holding_some (isNumbers other).2]
      rcases cleared other notName with same | ⟨_, same⟩
      · rw [same]
      · exact same
    · exact holding_eq (elsewhere entry here)
  · refine ⟨numbers node.links name, (isNumbers name).1, (isNumbers name).2.trans ?_⟩
    rcases changed with ⟨front, inode, behind, isLinks, isAfter, noneBefore⟩ | ⟨same, absent⟩
    · rw [isLinks, isAfter, numbers_append, numbers_append, numbers_absent noneBefore, numbers_cons,
        numbers_cons, if_pos rfl, if_neg (Ne.symm notEmpty)]
      rfl
    · rw [same, numbers_absent absent]
      rfl

end Entries

end Micro.Fs
