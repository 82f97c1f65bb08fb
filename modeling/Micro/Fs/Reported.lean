import Micro.Fat.Unlink
import Micro.Fs.UniqueNames
import Micro.Fs.Volumes

/-!
# What the calls report

`vfs_mkdir`, `vfs_mknod`, `vfs_unlink` and `vfs_rmdir` return zero once the directory has been
found: they neither look at the result of the driver nor mind that it has no such operation.
So what they report is true only where the operation is there and does what it is for.
-/

namespace Micro.Fs

open Kern Option

variable {vol mode uid gid rdev : Nat} {α : Type} {answer : Option (Except Int α)}
  {tree : Ext2.Tree}

/-! ## The entries of a directory -/

namespace Volumes

variable (volumes : Volumes)

/-- The name is in the directory. -/
def Found (dir : Inode) (name : CStr) : Prop :=
  ∃ op inode, dir.ops.lookup = some op ∧ volumes.lookup op dir name = some (.ok inode)

/-- The name is not in the directory. -/
def Missing (dir : Inode) (name : CStr) : Prop :=
  ∃ op e, dir.ops.lookup = some op ∧ volumes.lookup op dir name = some (.error e)

/-- The names in the directory are the same, for the same inodes. -/
def SameEntries (after : Volumes) (dir : Inode) : Prop :=
  ∀ op name, dir.ops.lookup = some op → after.lookup op dir name = volumes.lookup op dir name

end Volumes

/-! ## The calls -/

inductive NameCall where
  | mkdir (path : CStr) (mode uid gid : Nat)
  | mknod (path : CStr) (mode dev uid gid : Nat)
  | unlink (path : CStr)
  | rmdir (path : CStr)

namespace NameCall

def path : NameCall → CStr
  | mkdir path _ _ _ | mknod path _ _ _ _ | unlink path | rmdir path => path

section Calls

variable (opens : Opens)
  (kernel : Kernel (Option Volumes)) (taskCurr : Option Task)

/-- The call, with the drivers of all file systems. -/
def run : NameCall → Option (Kernel (Option Volumes) × Int)
  | mkdir path mode uid gid => vfsMkdir (allDrivers opens) kernel taskCurr path mode uid gid
  | mknod path mode dev uid gid =>
      vfsMknod (allDrivers opens).toMachine kernel taskCurr path mode dev uid gid
  | unlink path => vfsUnlink (allDrivers opens) kernel taskCurr path
  | rmdir path => vfsRmdir (allDrivers opens) kernel taskCurr path

/-- What `get_parent_dir` returns. -/
def parent (path : CStr) : Option (Option Volumes × Except Int (Inode × CStr)) :=
  getParentDir (allDrivers opens).toMachine kernel.mounts taskCurr kernel.dev path

/-- The name has been made, or it was there and has been removed. -/
def Done (before after : Volumes) (dir : Inode) (name : CStr) : NameCall → Prop
  | mkdir _ _ _ _ | mknod _ _ _ _ _ => after.Found dir name
  | unlink _ | rmdir _ => before.Found dir name ∧ after.Missing dir name

/-- What a call of a path returns is true: the drivers have not gone astray; with zero, it has
done what it is for with the last component of the path in the parent directory; and with a
negative value, no directory has changed. -/
def Real (before : Volumes) (path : CStr)
    (done : (after : Volumes) → (dir : Inode) → (name : CStr) → Prop) (dev : Option Volumes)
    (r : Int) : Prop :=
  ∃ after, dev = some after ∧
    (r = 0 → ∃ disk dir, parent opens kernel taskCurr path = some (disk, .ok (dir, lastName path)) ∧
      done after dir (lastName path)) ∧
    (r < 0 → ∀ dir, before.SameEntries after dir)

/-- If the call returns, what it returns is true. -/
def ReportsTruth (before : Volumes) (call : NameCall) : Prop :=
  ∀ next r, call.run opens kernel taskCurr = some (next, r) →
    Real opens kernel taskCurr before call.path (fun after dir name => call.Done before after dir name)
      next.dev r

end Calls

end NameCall

/-! ## What it takes -/

section Ability

variable (volumes : Volumes) (dir : Inode) (name : CStr)

/-- A directory of a formatted FAT volume, in these clusters. -/
structure Volumes.FatDir (fat : Fat.Volume) (clusters : Nat) (chain : List Nat) : Prop where
  mounted : volumes.fats dir.priv = some fat
  formatted : Fat.Formatted fat clusters
  isChain : Fat.Chain fat clusters dir.inode chain
  nodup : chain.Nodup

/-- There is no operation and the name is there already, or the driver's operation makes it: on
FAT there has to be room. -/
def Volumes.MakesDir (mode uid gid : Nat) : Prop :=
  match dir.ops.mkdir with
  | none => volumes.Found dir name
  | some op =>
      if op = ext2Fn then
        ∃ tree, volumes.trees dir.priv = some tree ∧
          (tree.mkdir dir.inode name mode uid gid).isSome ∧
          tree.Enters dir.inode name (mode &&& 0xfff ||| 0x4000) uid gid
      else
        ∃ fat clusters chain, volumes.FatDir dir fat clusters chain ∧ 0 ∉ name ∧
          Fat.HasRoom fat clusters name ((Fat.sectors fat chain).flatMap Fat.slots)

/-- The same for `mknod`, which FAT does not have. -/
def Volumes.MakesNode (mode uid gid : Nat) : Prop :=
  match dir.ops.mknod with
  | none => volumes.Found dir name
  | some _ =>
      ∃ tree, volumes.trees dir.priv = some tree ∧
        (tree.mknod dir.inode name mode uid gid).isSome ∧
        tree.Enters dir.inode name mode uid gid

/-- There is an operation, and it removes the only entry with the name. -/
def Volumes.Removes : Prop :=
  match dir.ops.unlink with
  | none => False
  | some op =>
      if op = ext2Fn then
        ∃ tree, volumes.trees dir.priv = some tree ∧ tree.HoldsOnce dir.inode name
      else
        ∃ fat clusters chain, volumes.FatDir dir fat clusters chain ∧
          Fat.HoldsOnce name ((Fat.sectors fat chain).flatMap Fat.slots)

/-- The driver of the directory is able to do what the call is for. -/
def NameCall.Ability : NameCall → Prop
  | .mkdir _ mode uid gid => volumes.MakesDir dir name mode uid gid
  | .mknod _ mode _ uid gid => volumes.MakesNode dir name mode uid gid
  | .unlink _ | .rmdir _ => volumes.Removes dir name

end Ability

/-- A walk does not go astray, and what it finds is as it has to be. -/
def WalkAllows {α : Type} (allows : α → Prop) : Option (Option Volumes × Except Int α) → Prop
  | none => True
  | some (none, _) => False
  | some (some _, .error _) => True
  | some (some _, .ok found) => allows found

theorem WalkAllows.imp {weak strong : α → Prop} (imp : ∀ found, weak found → strong found)
    {walk : Option (Option Volumes × Except Int α)} (allowed : WalkAllows weak walk) :
    WalkAllows strong walk := by
  rcases walk with _ | ⟨_ | _, _ | found⟩
  · trivial
  · cases allowed
  · cases allowed
  · trivial
  · exact imp found allowed

section Condition

variable (opens : Opens) (kernel : Kernel (Option Volumes)) (taskCurr : Option Task)

/-- The name is the whole last component, and the call can be done; or `vfs_unlink` finds that the
path is that of no file. -/
def NameCall.Allows (able : Prop) (name : CStr) : NameCall → Prop
  | .unlink path =>
      WalkAllows (fun file => sIsdir file.mode = true ∨ name = lastName path ∧ able)
        (vfsResolve (allDrivers opens).toMachine kernel.mounts taskCurr true kernel.dev path)
  | call => name = lastName call.path ∧ able

/-- The same in the directory and of the name that `get_parent_dir` finds. -/
def NameCall.AbleIf (able : Inode → CStr → Prop) (call : NameCall) : Prop :=
  WalkAllows (fun found => call.Allows opens kernel taskCurr (able found.1 found.2) found.2)
    (NameCall.parent opens kernel taskCurr call.path)

def NameCall.Able (volumes : Volumes) (call : NameCall) : Prop :=
  call.AbleIf opens kernel taskCurr fun dir name => call.Ability volumes dir name

/-- `get_parent_dir` finds a directory of a FAT volume. -/
def NameCall.OnFat (call : NameCall) : Prop :=
  ∃ disk dir name, NameCall.parent opens kernel taskCurr call.path = some (disk, .ok (dir, name)) ∧
    dir.ops = fatIops

end Condition

/-! ## The drivers -/

section Drivers

variable {volumes after : Volumes} {dir : Inode} {name : CStr}
  {ext2 : Ext2.Tree → Option (Ext2.Tree × Int)} {fat : Fat.Volume → Option (Fat.Volume × Int)}
  {op : FnPtr}

theorem volumeOp_ext2 :
    (volumeOp ext2Fn (some volumes) vol ext2 fat).1 = some after ↔
      ∃ tree done, volumes.trees vol = some tree ∧ ext2 tree = some done ∧
        volumes.setTree vol done.1 = after := by
  simp only [volumeOp, bind_some]
  cases isTree : volumes.trees vol with
  | none => simp
  | some tree =>
    cases isDone : ext2 tree with
    | none => simp [isDone]
    | some done =>
      rcases done with ⟨_, r⟩
      simp [isDone]

theorem volumeOp_fat :
    (volumeOp fatFn (some volumes) vol ext2 fat).1 = some after ↔
      ∃ found done, volumes.fats vol = some found ∧ fat found = some done ∧
        volumes.setFat vol done.1 = after := by
  have differs : fatFn ≠ ext2Fn := by decide
  simp only [volumeOp, bind_some, if_neg differs]
  cases isFat : volumes.fats vol with
  | none => simp
  | some found =>
    cases isDone : fat found with
    | none => simp [isDone]
    | some done =>
      rcases done with ⟨_, r⟩
      simp [isDone]

theorem answer_iff {f : α → Inode} (isOp : dir.ops.lookup = some op)
    (looked : volumes.lookup op dir name = answer.map fun result => result.map f) :
    (volumes.Found dir name ↔ ∃ found, answer = some (.ok found)) ∧
      (volumes.Missing dir name ↔ ∃ e, answer = some (.error e)) := by
  simp only [Volumes.Found, Volumes.Missing, isOp, some.injEq, exists_and_left, exists_eq_left',
    looked]
  rcases answer with _ | _ | _ <;> simp [Except.map]

theorem answer_ext2 (isOps : dir.ops = ext2Iops) (isTree : volumes.trees dir.priv = some tree) :
    (volumes.Found dir name ↔ ∃ found, tree.lookup dir.inode name = some (.ok found)) ∧
      (volumes.Missing dir name ↔ ∃ e, tree.lookup dir.inode name = some (.error e)) := by
  refine @answer_iff _ _ _ _ _ ext2Fn (fun found => inode2file dir.priv found.1 found.2) ?_ ?_
  · rw [isOps]
    rfl
  · simp [Volumes.lookup, Disks.lookup, Disks.ext2Lookup, isTree, ext2Fn, fatFn, ptsfsFn]

theorem answer_fat {fat : Fat.Volume} (isOps : dir.ops = fatIops)
    (isFat : volumes.fats dir.priv = some fat) :
    (volumes.Found dir name ↔ ∃ found, Fat.fatLookup fat dir.inode name = some (.ok found)) ∧
      (volumes.Missing dir name ↔ ∃ e, Fat.fatLookup fat dir.inode name = some (.error e)) := by
  refine @answer_iff _ _ _ _ _ fatFn (fatInode dir.priv) ?_ ?_
  · rw [isOps]
    rfl
  · simp [Volumes.lookup, Volumes.fatLookup, isFat]

end Drivers

variable {opens : Opens} {kernel : Kernel (Option Volumes)} {taskCurr : Option Task}
  {volumes : Volumes} {dir : Inode} {name : CStr}

section Operations

theorem trees_setTree : (volumes.setTree vol tree).trees vol = some tree := by
  simp [Volumes.setTree, Disks.setTree]

theorem fats_setFat {fat : Fat.Volume} : (volumes.setFat vol fat).fats vol = some fat := by
  simp [Volumes.setFat]

theorem ext2_makes_iff (isOps : dir.ops = ext2Iops) {change : Ext2.Tree → Option Ext2.Tree}
    {enters : Ext2.Tree → Prop} {fat : Fat.Volume → Option (Fat.Volume × Int)}
    (entered : ∀ {tree made}, change tree = some made →
      ((∃ found, made.lookup dir.inode name = some (.ok found)) ↔ enters tree)) :
    (∃ after, (volumeOp ext2Fn (some volumes) dir.priv (fun tree => (change tree).map (·, 0)) fat).1 =
        some after ∧ after.Found dir name) ↔
      ∃ tree, volumes.trees dir.priv = some tree ∧ (change tree).isSome ∧ enters tree := by
  simp only [volumeOp_ext2]
  constructor
  · rintro ⟨after, ⟨tree, _, isTree, isDone, isAfter⟩, isFound⟩
    rcases map_eq_some_iff.mp isDone with ⟨made, isMade, same⟩
    subst same isAfter
    exact ⟨tree, isTree, by simp [isMade], (entered isMade).mp
      ((answer_ext2 isOps trees_setTree).1.mp isFound)⟩
  · rintro ⟨tree, isTree, returns, enters⟩
    rcases isSome_iff_exists.mp returns with ⟨made, isMade⟩
    exact ⟨_, ⟨tree, (made, 0), isTree, by simp [isMade], rfl⟩,
      (answer_ext2 isOps trees_setTree).1.mpr ((entered isMade).mpr enters)⟩

/-- What `vfs_mkdir` leaves once it has found the directory. -/
def mkdirLeaves (opens : Opens) (dev : Option Volumes)
    (dir : Inode) (name : CStr) (mode uid gid : Nat) : Option Volumes :=
  match dir.ops.mkdir with
  | some mkdir => ((allDrivers opens).mkdir mkdir dev dir name mode uid gid).1
  | none => dev

def mknodLeaves (opens : Opens) (dev : Option Volumes)
    (dir : Inode) (name : CStr) (mode rdev uid gid : Nat) : Option Volumes :=
  match dir.ops.mknod with
  | some mknod => ((allDrivers opens).mknod mknod dev dir name mode rdev uid gid).1
  | none => dev

theorem vfsMkdir_leaves_eq {path : CStr} :
    vfsMkdir (allDrivers opens) kernel taskCurr path mode uid gid =
      inParent (allDrivers opens) kernel taskCurr path fun disk dir name =>
        some (mkdirLeaves opens disk dir name mode uid gid, 0) := by
  simp only [vfsMkdir]
  congr
  funext disk dir name
  simp only [mkdirLeaves]
  cases dir.ops.mkdir <;> rfl

theorem vfsMknod_leaves_eq {path : CStr} :
    vfsMknod (allDrivers opens).toMachine kernel taskCurr path mode rdev uid gid =
      inParent (allDrivers opens) kernel taskCurr path fun disk dir name =>
        some (mknodLeaves opens disk dir name mode rdev uid gid, 0) := by
  simp only [vfsMknod, inParent]
  rcases getParentDir (allDrivers opens).toMachine kernel.mounts taskCurr kernel.dev path with
    _ | ⟨disk, e | ⟨dir, name⟩⟩
  · rfl
  · rfl
  · simp only [mknodLeaves]
    cases dir.ops.mknod <;> rfl

theorem vfsDoUnlink_lost : vfsDoUnlink (allDrivers opens) none dir name = none := by
  simp only [vfsDoUnlink]
  cases dir.ops.unlink <;> rfl

/-- What a call leaves once it has found the directory. -/
def NameCall.leaves (opens : Opens) (volumes : Volumes) (dir : Inode) (name : CStr) :
    NameCall → Option Volumes
  | .mkdir _ mode uid gid => mkdirLeaves opens (some volumes) dir name mode uid gid
  | .mknod _ mode rdev uid gid => mknodLeaves opens (some volumes) dir name mode rdev uid gid
  | .unlink _ | .rmdir _ => vfsDoUnlink (allDrivers opens) (some volumes) dir name

/-- It has done what it is for. -/
def NameCall.Does (opens : Opens) (volumes : Volumes) (dir : Inode) (name : CStr)
    (call : NameCall) : Prop :=
  ∃ after, call.leaves opens volumes dir name = some after ∧ call.Done volumes after dir name

theorem ext2_removes_iff (isOps : dir.ops = ext2Iops) (named : name ≠ []) :
    (∃ after, vfsDoUnlink (allDrivers opens) (some volumes) dir name = some after ∧
      volumes.Found dir name ∧ after.Missing dir name) ↔ volumes.Removes dir name := by
  have isOp : dir.ops.unlink = some ext2Fn := by rw [isOps]; rfl
  simp only [vfsDoUnlink, Volumes.Removes, isOp, allDrivers, volumeOp_ext2]
  constructor
  · rintro ⟨after, ⟨tree, done, isTree, isDone, isAfter⟩, isFound, isMissing⟩
    subst isAfter
    rcases (answer_ext2 isOps trees_setTree).2.mp isMissing with ⟨e, isError⟩
    exact ⟨tree, isTree, (Ext2.Tree.unlink_removes_iff named).mp
      ⟨(answer_ext2 isOps isTree).1.mp isFound, done, e, isDone, isError⟩⟩
  · rintro ⟨tree, isTree, once⟩
    rcases (Ext2.Tree.unlink_removes_iff named).mpr once with ⟨isFound, done, e, isDone, isError⟩
    exact ⟨_, ⟨tree, done, isTree, isDone, rfl⟩, (answer_ext2 isOps isTree).1.mpr isFound,
      (answer_ext2 isOps trees_setTree).2.mpr ⟨e, isError⟩⟩

variable {call : NameCall}

/-- On a FAT volume that is formatted, the call does what it is for. -/
theorem does_fat (isOps : dir.ops = fatIops) (able : call.Ability volumes dir name) :
    call.Does opens volumes dir name := by
  have isMkdir : dir.ops.mkdir = some fatFn := by rw [isOps]; rfl
  have noMknod : dir.ops.mknod = none := by rw [isOps]; rfl
  have isUnlink : dir.ops.unlink = some fatFn := by rw [isOps]; rfl
  have differs : fatFn ≠ ext2Fn := by decide
  cases call with
  | mkdir path mode uid gid =>
    simp only [NameCall.Ability, Volumes.MakesDir, isMkdir, if_neg differs] at able
    rcases able with ⟨fat, clusters, chain, fatDir, string, hasRoom⟩
    rcases hasRoom.enters fatDir.formatted fatDir.isChain fatDir.nodup string with
      ⟨disk, isMade, _, found, looked, _⟩
    generalize Fat.fatTableWrite _ _ _ = made at isMade looked
    simp only [NameCall.Does, NameCall.leaves, mkdirLeaves, isMkdir, allDrivers, volumeOp_fat]
    exact ⟨_, ⟨fat, (made, 0), fatDir.mounted, by simp [isMade], rfl⟩,
      (answer_fat isOps fats_setFat).1.mpr ⟨found, looked⟩⟩
  | mknod => simpa [NameCall.Ability, Volumes.MakesNode, NameCall.Does, NameCall.leaves,
      mknodLeaves, NameCall.Done, noMknod] using able
  | unlink | rmdir =>
    simp only [NameCall.Ability, Volumes.Removes, isUnlink, if_neg differs] at able
    rcases able with ⟨fat, clusters, chain, fatDir, once⟩
    rcases (Fat.fatUnlink_removes_iff fatDir.formatted fatDir.isChain fatDir.nodup).mpr once with
      ⟨found, done, e, looked, isDone, isError⟩
    simp only [NameCall.Does, NameCall.leaves, vfsDoUnlink, isUnlink, allDrivers, volumeOp_fat]
    exact ⟨_, ⟨fat, done, fatDir.mounted, isDone, rfl⟩,
      (answer_fat isOps fatDir.mounted).1.mpr ⟨found, looked⟩,
      (answer_fat isOps fats_setFat).2.mpr ⟨e, isError⟩⟩

/-- Elsewhere, it does so exactly when the driver is able to. -/
theorem does_iff (handled : Handled dir) (isDir : sIsdir dir.mode = true) (named : name ≠ [])
    (notFat : dir.ops ≠ fatIops) :
    call.Does opens volumes dir name ↔ call.Ability volumes dir name := by
  cases handled with
  | ext2 isOps =>
    cases call with
    | mkdir =>
      have isOp : dir.ops.mkdir = some ext2Fn := by rw [isOps]; rfl
      simp only [NameCall.Does, NameCall.leaves, mkdirLeaves, NameCall.Ability, Volumes.MakesDir, isOp]
      exact ext2_makes_iff isOps Ext2.Tree.mkdir_found_iff
    | mknod =>
      have isOp : dir.ops.mknod = some ext2Fn := by rw [isOps]; rfl
      simp only [NameCall.Does, NameCall.leaves, mknodLeaves, NameCall.Ability, Volumes.MakesNode, isOp]
      exact ext2_makes_iff isOps Ext2.Tree.mkentry_found_iff
    | unlink | rmdir => exact ext2_removes_iff isOps named
  | fat isOps => exact absurd isOps notFat
  | bare noMkdir noMknod noUnlink =>
    cases call with
    | mkdir => simp [NameCall.Does, NameCall.leaves, mkdirLeaves, NameCall.Done, NameCall.Ability,
        Volumes.MakesDir, noMkdir]
    | mknod => simp [NameCall.Does, NameCall.leaves, mknodLeaves, NameCall.Done, NameCall.Ability,
        Volumes.MakesNode, noMknod]
    | unlink | rmdir =>
      simp only [NameCall.Does, NameCall.leaves, vfsDoUnlink, NameCall.Ability, Volumes.Removes,
        noUnlink, iff_false]
      rintro ⟨after, same, ⟨_, _, isOp, looked⟩, _, e, isOp', missed⟩
      cases same
      cases isOp.symm.trans isOp'
      cases looked.symm.trans missed
  | file notDir =>
    rw [notDir] at isDir
    cases isDir

end Operations

/-! ## The reports -/

section Reports

open NameCall

variable {path : CStr} {done : Volumes → Inode → CStr → Prop} {r : Int}

theorem forall_returned_iff {State : Type} {state : State} {holds : State → Int → Prop} :
    (∀ next value, some (state, r) = some (next, value) → holds next value) ↔ holds state r := by
  simp

theorem not_real_lost : ¬ Real opens kernel taskCurr volumes path done none r := by
  rintro ⟨_, isAfter, _⟩
  cases isAfter

theorem real_failed (negative : r < 0) :
    Real opens kernel taskCurr volumes path done (some volumes) r := by
  refine ⟨volumes, rfl, ?_, fun _ _ _ _ _ => rfl⟩
  omega

theorem real_error_iff {disk : Option Volumes} {allows : α → Prop}
    (leaves : disk = some volumes ∨ disk = none) (negative : r < 0) :
    Real opens kernel taskCurr volumes path done disk r ↔
      WalkAllows allows (some (disk, .error r)) := by
  rcases leaves with isDisk | isDisk
  · subst isDisk
    simp only [WalkAllows, iff_true]
    exact real_failed negative
  · subst isDisk
    simp only [WalkAllows, iff_false]
    exact not_real_lost

section

variable (found : parent opens kernel taskCurr path = some (some volumes, .ok (dir, name)))
include found

theorem real_zero_iff {dev : Option Volumes} :
    Real opens kernel taskCurr volumes path done dev 0 ↔
      name = lastName path ∧ ∃ after, dev = some after ∧ done after dir name := by
  constructor
  · rintro ⟨after, isAfter, succeeds, _⟩
    rcases succeeds rfl with ⟨_, _, isOther, isDone⟩
    cases found.symm.trans isOther
    exact ⟨rfl, after, isAfter, isDone⟩
  · rintro ⟨isLast, after, isAfter, isDone⟩
    subst isLast
    exact ⟨after, isAfter, fun _ => ⟨_, dir, found, isDone⟩, fun _ => by omega⟩

theorem zero_reports_iff {leaves : Option Volumes} :
    (∀ dev r, some (leaves, 0) = some (dev, r) →
      Real opens kernel taskCurr volumes path done dev r) ↔
      name = lastName path ∧ ∃ after, leaves = some after ∧ done after dir name := by
  rw [forall_returned_iff, real_zero_iff found]

end

section Known

variable (isDev : kernel.dev = some volumes) (roots : ∀ mount ∈ kernel.mounts, MountRoot mount.file)
include isDev roots

theorem inParent_reports_iff {act : Option Volumes → Inode → CStr → Option (Option Volumes × Int)}
    {able : Inode × CStr → Prop}
    (acts : ∀ dir name, parent opens kernel taskCurr path = some (some volumes, .ok (dir, name)) →
      ((∀ dev r, act (some volumes) dir name = some (dev, r) →
        Real opens kernel taskCurr volumes path done dev r) ↔ able (dir, name))) :
    (∀ next r, inParent (allDrivers opens) kernel taskCurr path act = some (next, r) →
      Real opens kernel taskCurr volumes path done next.dev r) ↔
      WalkAllows able (parent opens kernel taskCurr path) := by
  simp only [inParent]
  rw [← parent]
  cases found : parent opens kernel taskCurr path with
  | none => simp [WalkAllows]
  | some result =>
    rcases result with ⟨_, e | ⟨dir, name⟩⟩
    · have leaves := (getParentDir_walks allDrivers_rules (fun _ _ => trivial) (.inl isDev) found).1
      rw [← real_error_iff leaves (getParentDir_negative found)]
      exact forall_returned_iff
    · have known := found
      rw [parent, isDev] at known
      rcases getParentDir_handled roots known with ⟨isDisk, -⟩
      subst isDisk
      simp only [WalkAllows, ← acts dir name found, map_eq_some_iff]
      constructor
      · intro reports dev r acted
        exact reports { kernel with dev := dev } r ⟨(dev, r), acted, rfl⟩
      · rintro reports next r ⟨⟨dev, r'⟩, acted, isResult⟩
        cases isResult
        exact reports dev r' acted

/-- `vfs_unlink` resolves the path before it removes the name. -/
theorem unlink_reports_iff : (unlink path).ReportsTruth opens kernel taskCurr volumes ↔
    (unlink path).AbleIf opens kernel taskCurr ((unlink path).Does opens volumes) := by
  apply inParent_reports_iff isDev roots
  intro _ name found
  rw [Allows, isDev]
  have walks : Walks (fun dev => dev = some volumes ∨ dev = none) (fun _ => True)
      (vfsResolve (allDrivers opens).toMachine kernel.mounts taskCurr true (some volumes) path) :=
    doVfsResolve_walks allDrivers_rules (fun _ _ => trivial) 8 (.inl rfl)
  cases resolved : vfsResolve (allDrivers opens).toMachine kernel.mounts taskCurr true
    (some volumes) path with
  | none => simp [WalkAllows]
  | some result =>
    rw [resolved] at walks
    rcases result with ⟨_, e | file⟩
    · rw [← real_error_iff walks.1 (doVfsResolve_negative 8 resolved)]
      exact forall_returned_iff
    · rcases walks.1 with isDisk | isDisk
      · subst isDisk
        by_cases directory : sIsdir file.mode = true
        · simp only [WalkAllows, directory, true_or, iff_true, if_true, forall_returned_iff]
          exact real_failed (by decide)
        · simp only [WalkAllows, directory, Bool.false_eq_true, false_or]
          exact zero_reports_iff found
      · subst isDisk
        simp only [WalkAllows, iff_false, vfsDoUnlink_lost]
        split
        · exact fun reports => not_real_lost (reports none _ rfl)
        · exact fun reports => not_real_lost (reports none 0 rfl)

theorem reports_iff_does (call : NameCall) : call.ReportsTruth opens kernel taskCurr volumes ↔
    call.AbleIf opens kernel taskCurr fun dir name => call.Does opens volumes dir name := by
  cases call with
  | mkdir =>
    rw [ReportsTruth, run, vfsMkdir_leaves_eq]
    exact inParent_reports_iff isDev roots fun _ _ found => zero_reports_iff found
  | mknod =>
    rw [ReportsTruth, run, vfsMknod_leaves_eq]
    exact inParent_reports_iff isDev roots fun _ _ found => zero_reports_iff found
  | unlink => exact unlink_reports_iff isDev roots
  | rmdir => exact inParent_reports_iff isDev roots fun _ _ found => zero_reports_iff found

/-- What makes a call possible in the directory it finds. -/
theorem ableIf_imp {weak strong : Inode → CStr → Prop} {call : NameCall}
    (imp : ∀ dir name, parent opens kernel taskCurr call.path = some (some volumes, .ok (dir, name)) →
      Handled dir → sIsdir dir.mode = true → name ≠ [] → weak dir name → strong dir name)
    (able : call.AbleIf opens kernel taskCurr weak) : call.AbleIf opens kernel taskCurr strong := by
  unfold AbleIf at able ⊢
  cases found : parent opens kernel taskCurr call.path with
  | none => trivial
  | some result =>
    rw [found] at able
    rcases result with ⟨_ | _, e | ⟨dir, name⟩⟩
    · cases able
    · cases able
    · trivial
    · have known := found
      rw [parent, isDev] at known
      rcases getParentDir_handled roots known with ⟨isDisk, handled, isDir, named⟩
      cases isDisk
      have here := imp dir name found handled isDir named
      cases call with
      | mkdir | mknod | rmdir => exact ⟨able.1, here able.2⟩
      | unlink => exact WalkAllows.imp (fun _ => Or.imp_right (And.imp_right here)) able

end Known

end Reports

/-- A volume with the files `a` and `b`, a FAT volume with the file `FOO.TXT`, and no devices. -/
def twoFilesVolumes : Volumes where
  toDisks := twoFilesDisks
  fats := fun vol => if vol = 8 then some (Fat.oneDirectory [Fat.fooEntry]) else none
  slaves := []

/-- They are mounted at `/` and `/mnt`, and devfs at `/dev`. -/
def threeMounts : Kernel (Option Volumes) :=
  Proc.oneTaskOn (some twoFilesVolumes) [⟨[47], inode2file 16 2 ⟨true, 0x41ed, 0, 0, [], []⟩⟩,
    ⟨[47, 109, 110, 116], fatRoot 8 2⟩, ⟨[47, 100, 101, 118], devfsRoot⟩]

theorem threeMounts_roots : ∀ mount ∈ threeMounts.mounts, MountRoot mount.file := by
  intro mount mem
  simp only [threeMounts, Proc.oneTaskOn, List.mem_cons, List.not_mem_nil, or_false] at mem
  rcases mem with isMount | isMount | isMount
  · rw [isMount]
    exact .ext2 16 _
  · rw [isMount]
    exact .fat 8 2
  · rw [isMount]
    exact .devfs

end Micro.Fs
