import Micro.Fs.MovedNames

/-!
# When a rename moves one name

The condition of the last module is both enough and needed: from it the link and the removal
are followed through both paths, and from what a rename has moved the condition is read off.
-/

namespace Micro.Fs

open Kern Ext2 List Option

variable {mounts : List Mount} {before after linkedDisks : Disks} {old new name last : CStr}
  {from_ inode child : Inode} {tree linked : Tree} {node : Ext2.Node} {num : Nat}
  {step : Inode × CStr}

/-! ## A name is moved -/

section Moves

variable {opens : Opens} {taskCurr : Option Task} {file dir : Inode}

variable (roots : ∀ mount ∈ mounts, IsRoot mount.file) (stored : Stored before)
  (finds : Finds opens mounts taskCurr before old new file dir from_ inode name last tree linked node)

section

include roots finds

theorem Finds.ops : from_.ops = ext2Iops := by
  obtain ⟨_, _, leads, walked⟩ := parent_ok.mp finds.source
  exact (walk_served (leads.served roots) walked).ops_of_unlink (walk_isDir walked).2 finds.isUnlink

theorem Finds.outcome (sameVol : from_.priv = dir.priv)
    (again : (before.setTree dir.priv linked).parent mounts taskCurr old = some (.ok (from_, last))) :
    ∃ after, RenameOutcome opens mounts taskCurr before old new after 0 ∧
      UnlinkEffect (before.setTree dir.priv linked) from_ last after := by
  obtain ⟨effect, _⟩ := finds.effect roots finds.isNode
  have isTree : (before.setTree dir.priv linked).trees from_.priv = some linked := by
    simp [Disks.setTree, sameVol]
  obtain ⟨n, isFirst, _⟩ := (look_ext2_ok (by rw [finds.ops roots]; rfl)).mp finds.looked
  obtain ⟨_, isFound, _⟩ := map_eq_some_iff.mp isFirst
  obtain ⟨source, isSource, _⟩ := map_eq_some_iff.mp isFound
  have isInode := effect.similar.inodes from_.priv from_.inode
  have isSource : before.nodeAt from_.priv from_.inode = some source := isSource
  rw [Disks.inodeAt, Disks.inodeAt, isSource] at isInode
  obtain ⟨_, isSource', _⟩ := map_eq_some_iff.mp isInode
  rw [Disks.nodeAt, isTree, bind_some] at isSource'
  obtain ⟨_, _, leads, _⟩ := parent_ok.mp finds.source
  have notEmpty : last ≠ [] := leads.last_plain
  obtain ⟨⟨_, r⟩, isUnlinked⟩ : ∃ done, linked.unlink from_.inode last = some done := by
    rw [Tree.unlink, isSource']
    exact ⟨_, rfl⟩
  exact ⟨_, .moved finds.toLinks again finds.isUnlink isTree isUnlinked,
    unlink_effect notEmpty isTree isUnlinked⟩

theorem Finds.number :
    before.firstAt (entryAt from_ last) = some (some inode.inode) ∧
      before.inodeAt from_.priv inode.inode = some inode := by
  obtain ⟨n, isFirst, isInode⟩ := (look_ext2_ok (by rw [finds.ops roots]; rfl)).mp finds.looked
  have isNumber := (inodeAt_some isInode).2.1
  subst isNumber
  exact ⟨isFirst, isInode⟩

end

section

variable (effect : LinkEffect before dir file name node linkedDisks)
include effect

/-- Lookups that succeed find the same once the new entry is the one that is found. -/
theorem LinkEffect.look_kept (similar : Similar before after)
    (only : FindsOnly (numbers (node.withEntry (linkEntry file name)) name) num)
    (isThere : after.numbersAt (entryAt dir name) =
      some (numbers (node.withEntry (linkEntry file name)) name))
    (looked : before.look step.1 step.2 = some (.ok child))
    (others : entryAt step.1 step.2 ≠ entryAt dir name →
      after.numbersAt (entryAt step.1 step.2) = before.numbersAt (entryAt step.1 step.2)) :
    after.look step.1 step.2 = before.look step.1 step.2 := by
  by_cases here : entryAt step.1 step.2 = entryAt dir name
  · rw [← here] at isThere
    apply similar.look_found looked isThere only
    intro n isFirst
    rw [here, (effect.first name).1] at isFirst
    exact mem_numbers_withEntry (mem_of_head? (some.inj isFirst))
  · exact similar.look_of_numbers (others here)

theorem LinkEffect.others_named (isName : Tree.storedName name = name) (entry : Entry)
    (elsewhere : entry ≠ entryAt dir name) :
    linkedDisks.numbersAt entry = before.numbersAt entry := by
  apply effect.others
  rw [isName]
  exact elsewhere

variable (removed : UnlinkEffect linkedDisks from_ last after)
include removed

theorem LinkEffect.there_apart (ne : entryAt from_ last ≠ entryAt dir name) (notEmpty : name ≠ []) :
    after.numbersAt (entryAt dir name) =
      some (numbers (node.withEntry (linkEntry file name)) name) := by
  rw [removed.others _ (Ne.symm ne) notEmpty, effect.here]

theorem LinkEffect.there_same (equal : entryAt from_ last = entryAt dir name) :
    after.numbersAt (entryAt dir name) =
      some (numbers (node.withEntry (linkEntry file name)) name).tail := by
  obtain ⟨_, isFound, isTail⟩ := removed.here
  rw [equal, effect.here] at isFound
  cases isFound
  rw [← equal]
  exact isTail

end

include roots stored finds

theorem Finds.moves (sameVol : from_.priv = dir.priv) (ne : entryAt from_ last ≠ entryAt dir name)
    (only : FindsOnly (numbers (node.withEntry (linkEntry file name)) name) inode.inode)
    (alone : before.numbersAt (entryAt from_ last) = some [inode.inode])
    (apart : ∀ step ∈ before.way mounts none new, entryAt step.1 step.2 ≠ entryAt from_ last) :
    ∃ after, RenameOutcome opens mounts taskCurr before old new after 0 ∧
      Moved opens mounts before after old new := by
  obtain ⟨effect, isOps⟩ := finds.effect roots finds.isNode
  have isName := stored.storedName finds.isTree finds.isNode only.number.1
  obtain ⟨_, isInode⟩ := finds.number roots
  obtain ⟨root, init, leads, walked⟩ := parent_ok.mp finds.source
  obtain ⟨_, _, leads', walked'⟩ := parent_ok.mp finds.parent
  have linkOthers := effect.others_named isName
  have again : (before.setTree dir.priv linked).parent mounts taskCurr old = some (.ok (from_, last)) := by
    rw [parent_same, finds.source]
    intro step mem
    rw [leads.way] at mem
    obtain ⟨child, looked, _⟩ := passed_found walked step mem
    exact effect.look_kept effect.similar only (effect.here name) looked (linkOthers _)
  obtain ⟨after, outcome, removed⟩ := finds.outcome roots sameVol again
  have similar := effect.similar.trans removed.similar
  have isThere := effect.there_apart removed ne leads'.last_plain
  have isGone : after.numbersAt (entryAt from_ last) = some [] := by
    obtain ⟨found, isFound, isTail⟩ := removed.here
    rw [linkOthers _ ne, alone] at isFound
    cases isFound
    exact isTail
  -- a lookup that succeeded finds the same now, unless it was the one of the entry of `old`
  have keeps : ∀ {step : Inode × CStr} {child : Inode}, before.look step.1 step.2 = some (.ok child) →
      step.2 ≠ [] → entryAt step.1 step.2 ≠ entryAt from_ last →
      after.look step.1 step.2 = before.look step.1 step.2 := by
    intro step child looked plain elsewhere
    apply effect.look_kept similar only isThere looked
    intro notNew
    rw [removed.others _ elsewhere plain, linkOthers _ notNew]
  have missing : ∀ {step : Inode × CStr}, step.1.ops.lookup = some ext2Fn →
      entryAt step.1 step.2 = entryAt from_ last → after.look step.1 step.2 = some (.error (-enoent)) := by
    intro step isOp here
    apply look_ext2_error isOp
    rw [here, Disks.firstAt, isGone]
    rfl
  refine ⟨after, outcome, from_, dir, inode, last, name, ?_⟩
  refine
    { source := names_iff.mpr (parent_unchecked finds.source)
      target := names_iff.mpr (parent_unchecked finds.parent)
      named := (leads.resolves_at (walk_unchecked walked)).mpr finds.looked
      found := leads'.resolves_iff.mpr (.inl ⟨dir, ?_, ?_⟩)
      gone := .inr ⟨-enoent, ?_⟩
      holding := ?_
      devices := similar.devices
      images := similar.images }
  · rw [walk_same, walk_unchecked walked']
    intro step mem
    obtain ⟨child, looked, _⟩ := passed_found (walk_unchecked walked') step mem
    exact keeps looked (leads'.passed_plain mem) (apart step (by rwa [leads'.way]))
  · refine (look_ext2_ok (by rw [isOps]; rfl)).mpr ⟨inode.inode, ?_, ?_⟩
    · rw [Disks.firstAt, isThere, map_some, only.1]
    · rw [similar.inodes, ← sameVol]
      exact isInode
  · have changed : ∀ step ∈ before.passed none root init,
        after.look step.1 step.2 = before.look step.1 step.2 ∨
          after.look step.1 step.2 = some (.error (-enoent)) := by
      intro step mem
      obtain ⟨child, looked, _⟩ := passed_found (walk_unchecked walked) step mem
      by_cases here : entryAt step.1 step.2 = entryAt from_ last
      · exact (similar.look_or _ _).imp_right fun isOp => missing isOp here
      · exact .inl (keeps looked (leads.passed_plain mem) here)
    apply leads.resolves_iff.mpr
    rcases @walk_changed before after none (· = some (.error (-enoent))) (by simp) init root changed with
      ⟨_, sameWalk⟩ | missed
    · refine Or.inl ⟨from_, ?_, ?_⟩
      · rw [sameWalk, walk_unchecked walked]
      · exact @missing (from_, last) (by rw [finds.ops roots]; rfl) rfl
    · exact .inr ⟨-enoent, missed, rfl⟩
  · intro entry
    split
    · rename_i isNew
      rw [isNew, holding_some isThere, only.2]
    · rename_i notNew
      split
      · rename_i isOld
        rw [isOld, holding_some isGone]
        rfl
      · rename_i notOld
        rw [removed.holding entry notOld, holding_eq (linkOthers entry notNew)]

theorem Finds.same (equal : entryAt from_ last = entryAt dir name)
    (only : FindsOnly (numbers (node.withEntry (linkEntry file name)) name).tail inode.inode) :
    ∃ after, RenameOutcome opens mounts taskCurr before old new after 0 ∧
      Moved opens mounts before after old new := by
  obtain ⟨effect, isOps⟩ := finds.effect roots finds.isNode
  have isName := stored.storedName finds.isTree finds.isNode (mem_of_mem_tail only.number.1)
  have sameVol : from_.priv = dir.priv := congrArg Prod.fst equal
  obtain ⟨isFirst, isInode⟩ := finds.number roots
  rw [equal] at isFirst
  rw [sameVol] at isInode
  obtain ⟨_, _, leads, walked⟩ := parent_ok.mp finds.source
  obtain ⟨_, _, leads', walked'⟩ := parent_ok.mp finds.parent
  have linkOthers := effect.others_named isName
  have again : (before.setTree dir.priv linked).parent mounts taskCurr old = some (.ok (from_, last)) := by
    rw [parent_same, finds.source]
    intro step mem
    rw [leads.way] at mem
    obtain ⟨child, looked, isDir⟩ := passed_found walked step mem
    by_cases here : entryAt step.1 step.2 = entryAt dir name
    · apply effect.similar.look
      intro isOp
      -- the path leads through the entry, so that it is the one of a directory and not of a link
      have isDirectory : sIsdir inode.mode = true := by
        obtain ⟨n, isFirst', isChild⟩ := (look_ext2_ok isOp).mp looked
        have isVol : step.1.priv = dir.priv := congrArg Prod.fst here
        rw [here, isFirst, some.injEq, some.injEq] at isFirst'
        rw [isVol, ← isFirst', isInode, some.injEq] at isChild
        rw [isChild]
        exact isDir
      have isHead := (effect.first name).1
      rw [isFirst, some.injEq] at isHead
      have isNumber := finds.toLinks.number stored finds.isNode leads (walk_unchecked walked)
        finds.looked isDirectory isHead.symm
      rw [here, isFirst, (effect.first name).2]
      rcases head_linkEntry isName with sameHead | isNew
      · rw [sameHead, isHead]
      · rw [isNew, isNumber]
    · exact effect.similar.look_of_numbers (linkOthers _ here)
  obtain ⟨after, outcome, removed⟩ := finds.outcome roots sameVol again
  have similar := effect.similar.trans removed.similar
  have isThere := effect.there_same removed equal
  refine ⟨after, outcome, from_, dir, inode, last, name, ?_⟩
  refine
    { source := names_iff.mpr (parent_unchecked finds.source)
      target := names_iff.mpr (parent_unchecked finds.parent)
      named := (leads.resolves_at (walk_unchecked walked)).mpr finds.looked
      found := leads'.resolves_iff.mpr (.inl ⟨dir, ?_, ?_⟩)
      gone := .inl equal
      holding := ?_
      devices := similar.devices
      images := similar.images }
  · rw [walk_same, walk_unchecked walked']
    intro step mem
    obtain ⟨child, looked, _⟩ := passed_found (walk_unchecked walked') step mem
    by_cases here : entryAt step.1 step.2 = entryAt dir name
    · apply similar.look_found looked (by rw [here]; exact isThere) only
      intro n isFirst'
      rw [here, isFirst, some.injEq, some.injEq] at isFirst'
      rw [← isFirst']
      exact only.number.1
    · apply similar.look_of_numbers
      have plain := leads'.passed_plain mem
      rw [removed.others _ (by rwa [equal]) plain, linkOthers _ here]
  · refine (look_ext2_ok (by rw [isOps]; rfl)).mpr ⟨inode.inode, ?_, ?_⟩
    · rw [Disks.firstAt, isThere, map_some, only.1]
    · rw [similar.inodes]
      exact isInode
  · intro entry
    rw [equal]
    split
    · rename_i isNew
      rw [isNew, holding_some isThere, only.2]
    · rename_i notNew
      rw [removed.holding entry (by rwa [equal]), holding_eq (linkOthers entry notNew)]

end Moves

/-! ## Only then -/

section Moved

variable {opens : Opens} {taskCurr : Option Task} {path : CStr} {file dir root : Inode}
  {init : List CStr} {found : Inode} {there : List Nat}

/-- A directory that is still found is the one that was found before, if lookups may only have
gone astray. -/
theorem source_same (walked : before.walk none root init = some (.ok found))
    (changed : ∀ step ∈ before.passed none root init, SameOrAstray before after step)
    (again : after.walk taskCurr root init = some (.ok from_)) :
    before.walk taskCurr root init = some (.ok from_) ∧ found = from_ := by
  rcases @walk_changed before after none (· = none) (by simp) init root changed with
    ⟨same, _⟩ | astray
  · have sameWalk := @walk_same root init before after taskCurr fun step mem =>
      same step (passed_unchecked mem)
    rw [again] at sameWalk
    refine ⟨sameWalk.symm, ?_⟩
    simpa [walked] using walk_unchecked sameWalk.symm
  · rw [walk_unchecked again] at astray
    cases astray

/-- The new path is found in its directory of before, if lookups have at most failed. -/
theorem arrives (leads : Leads mounts new root init name)
    (walked : before.walk none root init = some (.ok dir))
    (changed : ∀ step ∈ before.passed none root init,
      after.look step.1 step.2 = before.look step.1 step.2 ∨
        ∀ child, after.look step.1 step.2 ≠ some (.ok child))
    (found : Resolves opens mounts after new (.ok inode)) :
    after.look dir name = some (.ok inode) ∧
      ∀ step ∈ before.passed none root init, after.look step.1 step.2 = before.look step.1 step.2 := by
  rcases leads.resolves_iff.mp found with ⟨dir', walked', looked⟩ | ⟨e, _, isError⟩
  · rcases @walk_changed before after none (fun result => ∀ child, result ≠ some (.ok child))
      (fun child notOk => notOk child rfl) init root changed with ⟨same, sameWalk⟩ | notOk
    · rw [walked', walked] at sameWalk
      cases sameWalk
      exact ⟨looked, same⟩
    · exact absurd walked' (notOk dir')
  · cases isError

section

variable (effect : LinkEffect before dir file name node linkedDisks)
include effect

/-- Lookups that succeed find the same or go astray once the new entry is the only one in use. -/
theorem LinkEffect.look_only (similar : Similar before after)
    (only : (numbers (node.withEntry (linkEntry file name)) name).filter (· ≠ 0) = [num])
    (isThere : after.numbersAt (entryAt dir name) =
      some (numbers (node.withEntry (linkEntry file name)) name))
    (looked : before.look step.1 step.2 = some (.ok child))
    (others : entryAt step.1 step.2 ≠ entryAt dir name → SameOrAstray before after step) :
    SameOrAstray before after step := by
  by_cases here : entryAt step.1 step.2 = entryAt dir name
  · rw [← here] at isThere
    refine (similar.look_only looked isThere only ?_).imp_right And.right
    intro n isFirst
    rw [here, (effect.first name).1] at isFirst
    exact mem_numbers_withEntry (mem_of_head? (some.inj isFirst))
  · exact others here

theorem LinkEffect.passed_only (isName : Tree.storedName name = name)
    (only : (numbers (node.withEntry (linkEntry file name)) name).filter (· ≠ 0) = [num])
    (walked : before.walk none root init = some (.ok found)) :
    ∀ step ∈ before.passed none root init, SameOrAstray before linkedDisks step := by
  intro step mem
  obtain ⟨_, looked, _⟩ := passed_found walked step mem
  apply effect.look_only effect.similar only (effect.here name) looked
  intro elsewhere
  exact .inl (effect.similar.look_of_numbers (effect.others_named isName _ elsewhere))

end

theorem numbersAt_number {entry : Entry} {found : List Nat} (isFound : before.numbersAt entry = some found) :
    entry.2.1 ≠ 0 := by
  obtain ⟨_, isNode, _⟩ := map_eq_some_iff.mp isFound
  obtain ⟨_, _, isNode⟩ := bind_eq_some_iff.mp isNode
  intro zero
  simp [Ext2.Tree.node, zero] at isNode

theorem kept_not_moved (roots : ∀ mount ∈ mounts, IsRoot mount.file) (stored : Stored before)
    (links : Links opens mounts taskCurr before old new file dir name tree linked)
    (again : (before.setTree dir.priv linked).parent mounts taskCurr old = some (.ok (from_, last)))
    (noUnlink : from_.ops.unlink = none) :
    ¬ Moved opens mounts before (before.setTree dir.priv linked) old new := by
  rintro ⟨found, _, _, _, _, moves⟩
  obtain ⟨_, isNode, effect⟩ := link_effect links.isTree links.linked
  have target := names_iff.mp moves.target
  rw [parent_unchecked links.parent] at target
  cases target
  obtain ⟨root, init, leads, walkedAgain⟩ := parent_ok.mp again
  obtain ⟨walked, _⟩ := leads.parent_ok (names_iff.mp moves.source)
  have only := moves.holding (entryAt dir name)
  rw [if_pos rfl, holding_some (effect.here name)] at only
  have isName := stored.storedName links.isTree isNode (live_mem only).1
  obtain ⟨_, isFrom⟩ := source_same walked (effect.passed_only isName only walked) walkedAgain
  subst isFrom
  have isDir := (walk_isDir walked).2
  obtain ⟨isZero, noLookup⟩ := (walk_served (leads.served roots) walked).bare_of_unlink isDir noUnlink
  rcases moves.gone with equal | ⟨e, gone⟩
  · have isNumber : found.inode = dir.inode := congrArg (fun entry => entry.2.1) equal
    exact numbersAt_number (effect.before name) (isNumber.symm.trans isZero)
  · have looked := (leads.resolves_at walked).mp moves.named
    have missing := (leads.resolves_at (walk_unchecked walkedAgain)).mp gone
    rw [effect.similar.look fun is => absurd is noLookup, looked] at missing
    cases missing

theorem mem_tail_of_head? {n : Nat} (mem : n ∈ there) (notHead : there.head? ≠ some n) :
    n ∈ there.tail := by
  cases there with
  | nil => cases mem
  | cons _ _ =>
    rcases mem_cons.mp mem with isHead | later
    · exact absurd (by rw [isHead]; rfl) notHead
    · exact later

variable (roots : ∀ mount ∈ mounts, IsRoot mount.file)
include roots

variable (stored : Stored before)
include stored

variable (links : Links opens mounts taskCurr before old new file dir name tree linked)
include links

section

variable (isNode : tree.node dir.inode = some node)
  (again : (before.setTree dir.priv linked).parent mounts taskCurr old = some (.ok (from_, last)))
  (isUnlink : from_.ops.unlink = some ext2Fn)
  (removed : UnlinkEffect (before.setTree dir.priv linked) from_ last after)
  (moves : MovesTo opens mounts before after old new found dir inode last name)
include isNode again isUnlink removed moves

theorem moved_same (equal : entryAt from_ last = entryAt dir name) :
    MayRename opens mounts taskCurr before old new := by
  obtain ⟨effect, isOps⟩ := links.effect roots isNode
  have similar := effect.similar.trans removed.similar
  obtain ⟨root, init, leads, walkedAgain⟩ := parent_ok.mp again
  obtain ⟨walked, _⟩ := leads.parent_ok (names_iff.mp moves.source)
  obtain ⟨_, _, leads', walked'⟩ := parent_ok.mp (parent_unchecked links.parent)
  have isThere := effect.there_same removed equal
  have only := moves.holding (entryAt dir name)
  rw [if_pos rfl, holding_some isThere] at only
  have isName := stored.storedName links.isTree isNode (mem_of_mem_tail (live_mem only).1)
  have linkOthers := effect.others_named isName
  have reached : (∀ n, before.firstAt (entryAt dir name) = some (some n) →
        n ∈ (numbers (node.withEntry (linkEntry file name)) name).tail) →
      after.look dir name = some (.ok inode) := by
    intro stays
    refine (arrives leads' walked' ?_ moves.found).1
    intro step mem
    obtain ⟨child, looked, _⟩ := passed_found walked' step mem
    by_cases here : entryAt step.1 step.2 = entryAt dir name
    · rcases similar.look_only looked (by rw [here]; exact isThere) only (by rw [here]; exact stays) with
        same | ⟨_, astray⟩
      · exact .inl same
      · exact .inr (by simp [astray])
    · left
      apply similar.look_of_numbers
      have plain := leads'.passed_plain mem
      rw [removed.others _ (by rwa [equal]) plain, linkOthers _ here]
  have changed : ∀ step ∈ before.passed none root init,
      SameOrAstray before (before.setTree dir.priv linked) step := by
    intro step mem
    obtain ⟨child, looked, isDir⟩ := passed_found walked step mem
    by_cases here : entryAt step.1 step.2 = entryAt dir name
    · rcases effect.similar.look_or step.1 step.2 with same | isOp
      · exact .inl same
      · obtain ⟨n, isFirst, isChild⟩ := (look_ext2_ok isOp).mp looked
        rw [here, (effect.first name).1, some.injEq] at isFirst
        have isVol : step.1.priv = dir.priv := congrArg Prod.fst here
        rw [isVol] at isChild
        by_cases isHead : (numbers (node.withEntry (linkEntry file name)) name).head? = some n
        · left
          apply effect.similar.look
          intro _
          rw [here, (effect.first name).1, (effect.first name).2, isFirst, isHead]
        · have isNew := (head_linkEntry isName).resolve_left fun same => isHead (same.trans isFirst)
          by_cases isZero : file.inode % 2 ^ 32 = 0
          · right
            apply look_ext2_zero isOp
            rw [here, (effect.first name).2, isNew, isZero]
          · -- what the link was made of is then the directory itself
            have inTail := mem_tail_of_head? (mem_numbers_withEntry (mem_of_head? isFirst)) isHead
            have arrived := reached fun m isFirst' => by
              rw [(effect.first name).1, isFirst, some.injEq, some.injEq] at isFirst'
              rw [← isFirst']
              exact inTail
            obtain ⟨m, _, isInode⟩ := (look_ext2_ok (by rw [isOps]; rfl)).mp arrived
            have isNumber := (inodeAt_some isInode).2.1
            have sameNumber := mem_live only inTail (inodeAt_some isChild).1
            rw [similar.inodes, ← isNumber, ← sameNumber, isChild, some.injEq] at isInode
            rw [isInode] at isDir
            rw [sameNumber] at isFirst isHead
            have isLinked := links.number stored isNode leads walked
              ((leads.resolves_at walked).mp moves.named) isDir isFirst
            rw [isLinked] at isNew
            exact absurd isNew isHead
    · exact .inl (effect.similar.look_of_numbers (linkOthers _ here))
  obtain ⟨source, isFrom⟩ := source_same walked changed walkedAgain
  subst isFrom
  have finds : Finds opens mounts taskCurr before old new file dir found inode name last tree linked node :=
    ⟨links, isNode, parent_ok.mpr ⟨root, init, leads, source⟩, isUnlink,
      (leads.resolves_at walked).mp moves.named⟩
  obtain ⟨isFirst, _⟩ := finds.number roots
  have arrived := reached fun n isFirst' => by
    rw [← equal, isFirst, some.injEq, some.injEq] at isFirst'
    rw [← isFirst']
    exact (live_mem only).1
  obtain ⟨n, isHead, isInode⟩ := (look_ext2_ok (by rw [isOps]; rfl)).mp arrived
  rw [Disks.firstAt, isThere, map_some, some.injEq] at isHead
  rw [← (inodeAt_some isInode).2.1] at isHead
  exact .same finds equal ⟨isHead, only⟩

theorem moved_elsewhere (ne : entryAt from_ last ≠ entryAt dir name) :
    MayRename opens mounts taskCurr before old new := by
  obtain ⟨effect, isOps⟩ := links.effect roots isNode
  have similar := effect.similar.trans removed.similar
  obtain ⟨root, init, leads, walkedAgain⟩ := parent_ok.mp again
  obtain ⟨walked, _⟩ := leads.parent_ok (names_iff.mp moves.source)
  obtain ⟨_, _, leads', walked'⟩ := parent_ok.mp (parent_unchecked links.parent)
  have isThere := effect.there_apart removed ne leads'.last_plain
  have only := moves.holding (entryAt dir name)
  rw [if_pos rfl, holding_some isThere] at only
  have isName := stored.storedName links.isTree isNode (live_mem only).1
  have linkOthers := effect.others_named isName
  obtain ⟨source, isFrom⟩ := source_same walked (effect.passed_only isName only walked) walkedAgain
  subst isFrom
  have finds : Finds opens mounts taskCurr before old new file dir found inode name last tree linked node :=
    ⟨links, isNode, parent_ok.mpr ⟨root, init, leads, source⟩, isUnlink,
      (leads.resolves_at walked).mp moves.named⟩
  obtain ⟨isFirst, isInode⟩ := finds.number roots
  have fromOp : found.ops.lookup = some ext2Fn := by
    rw [finds.ops roots]
    rfl
  obtain ⟨there, isOld, isRest⟩ := removed.here
  rw [linkOthers _ ne] at isOld
  have noneLeft := moves.holding (entryAt found last)
  rw [if_neg ne, holding_some isRest] at noneLeft
  have isHead : there.head? = some inode.inode := by
    rw [Disks.firstAt, isOld, map_some, some.injEq] at isFirst
    exact isFirst
  -- an entry that is not in use would be found next, and the drivers would go astray
  have alone : there.tail = [] := by
    by_contra more
    obtain ⟨rest, _, isTail⟩ := exists_cons_of_ne_nil more
    have isZero : rest = 0 := by
      by_contra used
      simp [isTail, used] at noneLeft
    have astray : ∀ step : Inode × CStr, step.1.ops.lookup = some ext2Fn →
        entryAt step.1 step.2 = entryAt found last → after.look step.1 step.2 = none := by
      intro step isOp here
      apply look_ext2_zero isOp
      rw [here, Disks.firstAt, isRest, isTail, isZero]
      rfl
    have changedAfter : ∀ step ∈ before.passed none root init, SameOrAstray before after step := by
      intro step mem
      obtain ⟨child, looked, _⟩ := passed_found walked step mem
      apply effect.look_only similar only isThere looked
      intro elsewhere
      by_cases here : entryAt step.1 step.2 = entryAt found last
      · exact (similar.look_or _ _).imp_right fun isOp => astray step isOp here
      · left
        apply similar.look_of_numbers
        have plain := leads.passed_plain mem
        rw [removed.others _ here plain, linkOthers _ elsewhere]
    obtain ⟨e, gone⟩ := moves.gone.resolve_left ne
    rcases @walk_changed before after none (· = none) (by simp) init root changedAfter with
      ⟨_, sameWalk⟩ | lost
    · have missing := (leads.resolves_at (sameWalk.trans walked)).mp gone
      rw [astray (found, last) fromOp rfl] at missing
      cases missing
    · simp [leads.resolves_iff, lost] at gone
  have isThereOld : there = [inode.inode] := by
    rw [← cons_head?_tail (mem_def.mpr isHead), alone]
  have missing : ∀ step : Inode × CStr, step.1.ops.lookup = some ext2Fn →
      entryAt step.1 step.2 = entryAt found last → after.look step.1 step.2 = some (.error (-enoent)) := by
    intro step isOp here
    apply look_ext2_error isOp
    rw [here, Disks.firstAt, isRest, alone]
    rfl
  obtain ⟨arrived, sameLooks⟩ := arrives leads' walked' (fun step mem => by
    obtain ⟨child, looked, _⟩ := passed_found walked' step mem
    by_cases here : entryAt step.1 step.2 = entryAt found last
    · exact (similar.look_or _ _).imp_right fun isOp => by simp [missing step isOp here]
    · have plain := leads'.passed_plain mem
      rcases effect.look_only similar only isThere looked fun elsewhere =>
          Or.inl (similar.look_of_numbers
            ((removed.others _ here plain).trans (linkOthers _ elsewhere))) with same | astray
      · exact .inl same
      · exact .inr (by simp [astray])) moves.found
  obtain ⟨n, isNewHead, isNewInode⟩ := (look_ext2_ok (by rw [isOps]; rfl)).mp arrived
  rw [Disks.firstAt, isThere, map_some, some.injEq] at isNewHead
  rw [← (inodeAt_some isNewInode).2.1] at isNewHead
  refine .moves finds ?_ ne ⟨isNewHead, only⟩ (by rw [isOld, isThereOld]) ?_
  · rw [← (inodeAt_some isInode).2.2, (inodeAt_some isNewInode).2.2]
  · intro step mem here
    obtain ⟨served, isDir, _⟩ := way_served roots mem
    have isNumber : step.1.inode = found.inode := congrArg (fun entry => entry.2.1) here
    have isStepOps : step.1.ops = ext2Iops := by
      apply served.ops isDir
      rw [isNumber]
      exact numbersAt_number isOld
    rw [leads'.way] at mem
    obtain ⟨child, looked, _⟩ := passed_found walked' step mem
    have isMissing := missing step (by rw [isStepOps]; rfl) here
    rw [sameLooks step mem, looked] at isMissing
    cases isMissing

end

theorem moved_mayRename {source unlinked : Tree} {r : Int}
    (again : (before.setTree dir.priv linked).parent mounts taskCurr old = some (.ok (from_, last)))
    (isUnlink : from_.ops.unlink = some ext2Fn)
    (isTree : (before.setTree dir.priv linked).trees from_.priv = some source)
    (isUnlinked : source.unlink from_.inode last = some (unlinked, r))
    (moved : Moved opens mounts before ((before.setTree dir.priv linked).setTree from_.priv unlinked)
      old new) : MayRename opens mounts taskCurr before old new := by
  obtain ⟨_, _, _, last', _, moves⟩ := moved
  obtain ⟨_, isNode, _⟩ := link_effect links.isTree links.linked
  obtain ⟨_, _, leads, _⟩ := parent_ok.mp again
  have notEmpty := leads.last_plain
  have removed := unlink_effect notEmpty isTree isUnlinked
  have target := names_iff.mp moves.target
  rw [parent_unchecked links.parent] at target
  cases target
  obtain ⟨_, isLast⟩ := leads.parent_ok (names_iff.mp moves.source)
  subst isLast
  by_cases equal : entryAt from_ last' = entryAt dir name
  · exact moved_same roots stored links isNode again isUnlink removed moves equal
  · exact moved_elsewhere roots stored links isNode again isUnlink removed moves equal

end Moved

/-! ## When exactly one name is moved -/

section Main

variable {opens : Opens} {kernel : Kernel (Option Disks)}
  {taskCurr : Option Task}

theorem renamesOne_iff (isDev : kernel.dev = some before) :
    RenamesOne opens kernel taskCurr old new ↔
      ∃ after r, RenameOutcome opens kernel.mounts taskCurr before old new after r ∧
        (r = 0 → Moved opens kernel.mounts before after old new) ∧ (r ≠ 0 → SameEntries before after) := by
  constructor
  · rintro ⟨_, done, after, isBefore, ran, isAfter, moved, same⟩
    rw [isDev] at isBefore
    cases isBefore
    exact ⟨after, done.2, (vfsRename_iff isDev).mp ⟨done, ran, isAfter, rfl⟩, moved, same⟩
  · rintro ⟨after, r, outcome, moved, same⟩
    obtain ⟨done, ran, isAfter, isResult⟩ := (vfsRename_iff isDev).mpr outcome
    subst isResult
    exact ⟨before, done, after, isDev, ran, isAfter, moved, same⟩

end Main

theorem twoFiles_stored : Stored twoFilesDisks := by
  intro _ _ isTree
  simp only [twoFilesDisks] at isTree
  split at isTree
  · cases isTree
    decide +kernel
  · cases isTree

theorem twoFiles_roots : ∀ mount ∈ twoFilesKernel.mounts, IsRoot mount.file := by
  intro mount mem
  cases mem_singleton.mp mem
  exact .ext2 16 _

end Micro.Fs
