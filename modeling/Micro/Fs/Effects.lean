import Micro.Fs.Directories
import Micro.Fs.Mounts

/-!
# What calls on directories keep

A call finds its way with the lookups of drivers, and changes directories by handing them to
an operation of a driver.  What is kept by lookups, and by the operations where they are
called, is kept by the calls.
-/

namespace Micro.Fs

open Kern List Option

variable {path old new target link : CStr} {self : ThreadId} {call : DirCall} {Known : Inode → Prop}
  {σ : Type} {disk : σ}

/-! ## The operations a call makes -/

/-- What an operation does: it adds a name to a directory, removes one, or sets the target of a
link. -/
inductive ActKind where
  | make
  | remove
  | retarget
  deriving DecidableEq

/-- An operation with the state in which it is called, the inode it is given, and the name or
the target. -/
structure Act (σ : Type) where
  kind : ActKind
  dev : σ
  dir : Inode
  name : CStr

variable {Allowed : Act σ → Prop} {machine : DirMachine σ} {kernel : Kernel σ}
  {taskCurr : Option Task}

section Acts

variable (machine kernel taskCurr)

/-- An operation on the directory of a path. -/
def parentAct (kind : ActKind) (path : CStr) : List (Act σ) :=
  match getParentDir machine.toMachine kernel.mounts taskCurr kernel.dev path with
  | some (disk, .ok (dir, name)) => [⟨kind, disk, dir, name⟩]
  | _ => []

/-- The operation of `vfs_unlink`, after the file has been resolved. -/
def unlinkActs (path : CStr) : List (Act σ) :=
  (parentAct machine kernel taskCurr .remove path).flatMap fun act =>
    match vfsResolve machine.toMachine kernel.mounts taskCurr true act.dev path with
    | some (disk, .ok _) => [{ act with dev := disk }]
    | _ => []

/-- The operation of `vfs_link`. -/
def linkActs (old new : CStr) : List (Act σ) :=
  match vfsResolve machine.toMachine kernel.mounts taskCurr true kernel.dev old with
  | some (disk, .ok _) => parentAct machine { kernel with dev := disk } taskCurr .make new
  | _ => []

/-- The operation at the end of `vfs_symlink`. -/
def targetActs (target link : CStr) : List (Act σ) :=
  match vfsResolve machine.toMachine kernel.mounts taskCurr false kernel.dev link with
  | some (disk, .ok file) => [⟨.retarget, disk, file, target⟩]
  | _ => []

end Acts

/-- The operations on directories that a call makes, in the states it makes them in. -/
def acts (machine : DirMachine σ) (kernel : Kernel σ) (self : ThreadId) : DirCall → List (Act σ) :=
  let task := current kernel self
  let canon := fun path => vfsMkcanon path task.workd
  fun
  | .mkdir _ path _ =>
      if canon path = [] then [] else parentAct machine kernel (some task) .make (canon path)
  | .mknod _ path _ _ => parentAct machine kernel (some task) .make path
  | .open _ path flags _ =>
      match vfsOpen machine.toMachine kernel (some task) (canon path) flags with
      | some first =>
          if first.ret = -enoent ∧ flags &&& 0o100 ≠ 0 then
            parentAct machine first.kernel (some task) .make (canon path)
          else []
      | none => []
  | .unlink _ path => unlinkActs machine kernel (some task) (canon path)
  | .rmdir _ path => parentAct machine kernel (some task) .remove (canon path)
  | .link _ old _ new => linkActs machine kernel (some task) (canon old) (canon new)
  | .symlink _ target _ link =>
      match vfsAccess machine kernel (some task) (canon link) 0 with
      | some (kernel, e) =>
          if e = 0 then []
          else
            parentAct machine kernel (some task) .make (canon link) ++
              match vfsMknod machine.toMachine kernel (some task) (canon link) 0xa1ff 0
                task.euid task.egid with
              | some (kernel, _) => targetActs machine kernel (some task) target (canon link)
              | none => []
      | none => []
  | .rename _ old _ new =>
      linkActs machine kernel (some task) (canon old) (canon new) ++
        match vfsLink machine kernel (some task) (canon old) (canon new) with
        | some (kernel, _) => parentAct machine kernel (some task) .remove (canon old)
        | none => []

section Handed

variable {act : Act σ}

theorem parentAct_dir {kind : ActKind} (mem : act ∈ parentAct machine kernel taskCurr kind path) :
    act.dir ∈ parentOf machine kernel taskCurr path := by
  simp only [parentAct, parentOf] at mem ⊢
  generalize getParentDir machine.toMachine kernel.mounts taskCurr kernel.dev path = found at mem ⊢
  rcases found with _ | ⟨_, e | _⟩
  · cases mem
  · cases mem
  · rw [mem_singleton] at mem
    simp [mem]

theorem unlinkActs_dir (mem : act ∈ unlinkActs machine kernel taskCurr path) :
    act.dir ∈ parentOf machine kernel taskCurr path := by
  obtain ⟨found, isFound, isAct⟩ := mem_flatMap.mp mem
  split at isAct
  · rw [mem_singleton] at isAct
    rw [isAct]
    exact @parentAct_dir _ _ _ _ _ found _ isFound
  · cases isAct

theorem linkActs_dir (mem : act ∈ linkActs machine kernel taskCurr old new) :
    act.dir ∈ linkParent machine kernel taskCurr old new := by
  simp only [linkActs, linkParent] at mem ⊢
  generalize vfsResolve machine.toMachine kernel.mounts taskCurr true kernel.dev old = found at mem ⊢
  rcases found with _ | ⟨_, e | file⟩
  · cases mem
  · cases mem
  · exact parentAct_dir mem

theorem targetActs_dir (mem : act ∈ targetActs machine kernel taskCurr target link) :
    act.dir ∈ madeLink machine kernel taskCurr link := by
  simp only [targetActs, madeLink] at mem ⊢
  generalize vfsResolve machine.toMachine kernel.mounts taskCurr false kernel.dev link = found at mem ⊢
  rcases found with _ | ⟨_, e | file⟩
  · cases mem
  · cases mem
  · rw [mem_singleton] at mem
    simp [mem]

/-- The inodes given to operations are among those handed over. -/
theorem acts_dir (mem : act ∈ acts machine kernel self call) :
    act.dir ∈ handed machine kernel self call := by
  cases call with
  | mkdir ptr path mode =>
    simp only [acts, handed] at mem ⊢
    split_ifs at mem ⊢
    · cases mem
    · exact parentAct_dir mem
  | mknod ptr path mode _ => exact parentAct_dir mem
  | «open» ptr path flags mode =>
    simp only [acts, handed] at mem ⊢
    generalize vfsOpen machine.toMachine kernel _ _ flags = opened at mem ⊢
    rcases opened with _ | first
    · cases mem
    · dsimp only at mem ⊢
      split_ifs at mem ⊢
      · exact parentAct_dir mem
      · cases mem
  | unlink ptr path => exact unlinkActs_dir mem
  | rmdir ptr path => exact parentAct_dir mem
  | link oldPtr old newPtr new => exact linkActs_dir mem
  | symlink _ _ _ link =>
    simp only [acts, handed] at mem ⊢
    generalize vfsAccess machine kernel _ _ 0 = access at mem ⊢
    rcases access with _ | ⟨accessed, e⟩
    · cases mem
    · dsimp only at mem ⊢
      split_ifs at mem ⊢
      · cases mem
      · rw [mem_append] at mem ⊢
        refine mem.imp parentAct_dir fun retargets => ?_
        generalize vfsMknod machine.toMachine _ _ _ _ _ _ _ = made at retargets ⊢
        cases made with
        | none => cases retargets
        | some _ => exact targetActs_dir retargets
  | rename oldPtr old newPtr new =>
    simp only [acts, handed, mem_append] at mem ⊢
    refine mem.imp linkActs_dir fun removes => ?_
    generalize vfsLink machine kernel _ _ _ = linked at removes ⊢
    cases linked with
    | none => cases removes
    | some _ => exact parentAct_dir removes

end Handed

/-! ## Walks -/

/-- `Holds` is kept by lookups, and by the operations of drivers where they are `Allowed`.
Lookups give inodes that are `Known`. -/
structure DirRules (machine : DirMachine σ) (Holds : σ → Prop) (Known : Inode → Prop)
    (Allowed : Act σ → Prop) : Prop where
  lookup : ∀ {dev} op dir name, Holds dev → Holds (machine.lookup op dev dir name).1
  found : ∀ {dev} op dir name, Holds dev → 0 ≤ (machine.lookup op dev dir name).2.1 →
    Known (machine.lookup op dev dir name).2.2
  readlink : ∀ {dev} op inode n, Holds dev → Holds (machine.readlink op dev inode n).1
  openFile : ∀ {dev} op inode file, Holds dev → Holds (machine.openFile op dev inode file).1
  mknod : ∀ {dev dir name} op mode rdev uid gid, Holds dev → Known dir →
    Allowed ⟨.make, dev, dir, name⟩ → Holds (machine.mknod op dev dir name mode rdev uid gid).1
  mkdir : ∀ {dev dir name} op mode uid gid, Holds dev → Known dir →
    Allowed ⟨.make, dev, dir, name⟩ → Holds (machine.mkdir op dev dir name mode uid gid).1
  unlink : ∀ {dev dir name} op, Holds dev → Known dir →
    Allowed ⟨.remove, dev, dir, name⟩ → Holds (machine.unlink op dev dir name).1
  symlink : ∀ {dev file target} op, Holds dev → Known file →
    Allowed ⟨.retarget, dev, file, target⟩ → Holds (machine.symlink op dev file target).1
  link : ∀ {dev dir name} op file, Holds dev → Known dir →
    Allowed ⟨.make, dev, dir, name⟩ → Holds (machine.link op dev file name dir).1

variable {Holds : σ → Prop} (rules : DirRules machine Holds Known Allowed)

section Walks

variable {mounts : List Mount} {dev : σ}

/-- What a walk does: it keeps `Holds`, and ends at an inode that is known. -/
def Walks (Holds : σ → Prop) (Known : Inode → Prop) : Option (σ × Except Int Inode) → Prop
  | none => True
  | some (dev, result) => Holds dev ∧ ∀ inode, result = .ok inode → Known inode

theorem Walks.fails {e : Int} (holds : Holds dev) : Walks Holds Known (some (dev, .error e)) :=
  ⟨holds, fun _ isOk => by cases isOk⟩

theorem Walks.ends {inode : Inode} (holds : Holds dev) (known : Known inode) :
    Walks Holds Known (some (dev, .ok inode)) := by
  refine ⟨holds, fun _ isOk => ?_⟩
  cases isOk
  exact known

include rules

theorem callLookup_walks (holds : Holds dev) (file : Inode) (token : CStr) :
    Walks Holds Known (callLookup machine.toMachine dev file token) := by
  simp only [callLookup]
  cases file.ops.lookup with
  | none => trivial
  | some op =>
    simp only [map_some]
    split_ifs with failed
    · exact .fails (rules.lookup op file token holds)
    · exact .ends (rules.lookup op file token holds)
        (rules.found op file token holds (Int.not_lt.mp failed))

theorem enter_walks {next : σ → Inode → Option (σ × Except Int Inode)} (holds : Holds dev)
    (file : Inode) (token : CStr)
    (walksNext : ∀ {dev child}, Holds dev → Known child → Walks Holds Known (next dev child)) :
    Walks Holds Known
      (if ¬ sIsdir file.mode then some (dev, .error (-enotdir))
      else if vfsCheckperm taskCurr file 4 = -1 then some (dev, .error (-eacces))
      else
        match callLookup machine.toMachine dev file token with
        | some (dev, .ok child) => next dev child
        | some (dev, .error e) => some (dev, .error e)
        | none => none) := by
  split
  · exact .fails holds
  · split
    · exact .fails holds
    · have looked := callLookup_walks rules holds file token
      generalize callLookup machine.toMachine dev file token = found at looked ⊢
      match found, looked with
      | none, _ => trivial
      | some (_, .error _), looked => exact .fails looked.1
      | some (_, .ok _), looked => exact walksNext looked.1 (looked.2 _ rfl)

theorem parentWalk_walks (tokens : List CStr) : ∀ {dev : σ} {file : Inode}, Holds dev → Known file →
    Walks Holds Known (parentWalk machine.toMachine taskCurr dev file tokens) := by
  induction tokens with
  | nil =>
    intro dev file holds known
    simp only [parentWalk]
    split
    · exact .ends holds known
    · exact .fails holds
  | cons token tokens ih => exact fun holds _ => enter_walks rules holds _ token ih

theorem resolveWalk_walks {follow : σ → CStr → Option (σ × Except Int Inode)} {symlinks : Bool}
    (follows : ∀ {dev link}, Holds dev → Walks Holds Known (follow dev link))
    (tokens : List CStr) : ∀ {dev : σ} {file : Inode}, Holds dev → Known file →
    Walks Holds Known (resolveWalk machine.toMachine taskCurr symlinks follow dev file tokens) := by
  induction tokens with
  | nil => exact .ends
  | cons token tokens ih =>
    refine fun holds _ => enter_walks rules holds _ token fun {dev child} holds known => ?_
    by_cases isLink : (sIslnk child.mode && symlinks) = true
    · have read : Holds (vfsReadlink machine.toMachine dev child 60).1 := by
        simp only [vfsReadlink]
        cases child.ops.readlink with
        | none => exact holds
        | some op => exact rules.readlink op child 60 holds
      simp only [isLink]
      cases linkTarget (vfsReadlink machine.toMachine dev child 60).2.1
        (vfsReadlink machine.toMachine dev child 60).2.2 with
      | none => trivial
      | some link => exact follows read
    · simp only [isLink]
      exact ih holds known

variable (mounted : ∀ mount ∈ mounts, Known mount.file)
include mounted

theorem doVfsResolve_walks (depth : Nat) {symlinks : Bool} (holds : Holds dev) :
    Walks Holds Known (doVfsResolve machine.toMachine mounts taskCurr depth symlinks dev path) := by
  induction depth generalizing symlinks dev path with
  | zero => exact .fails holds
  | succ depth ih =>
    simp only [doVfsResolve]
    cases answer : vfsGetmnt mounts path with
    | error e => exact .fails holds
    | ok _ =>
      obtain ⟨mount, mem, isRoot⟩ := vfsGetmnt_mem answer
      exact resolveWalk_walks rules ih _ holds (isRoot ▸ mounted mount mem)

/-- `get_parent_dir` keeps `Holds` and finds a known directory. -/
theorem getParentDir_walks {result : Except Int (Inode × CStr)} (holds : Holds dev)
    (finds : getParentDir machine.toMachine mounts taskCurr dev path = some (disk, result)) :
    Holds disk ∧ ∀ parent name, result = .ok (parent, name) → Known parent := by
  simp only [getParentDir] at finds
  cases answer : vfsGetmnt mounts path with
  | error e =>
    simp only [answer] at finds
    cases finds
    exact ⟨holds, fun _ _ isOk => by cases isOk⟩
  | ok found =>
    obtain ⟨root, relat⟩ := found
    obtain ⟨mount, mem, isRoot⟩ := vfsGetmnt_mem answer
    have walks : Walks Holds Known
        (parentWalk machine.toMachine taskCurr dev root (pathTokens relat).dropLast) :=
      parentWalk_walks rules _ holds (isRoot ▸ mounted mount mem)
    simp only [answer] at finds
    cases isLast : (pathTokens relat).getLast? with
    | none =>
      simp only [isLast] at finds
      cases finds
      exact ⟨holds, fun _ _ isOk => by cases isOk⟩
    | some _ =>
      simp only [isLast] at finds
      generalize parentWalk machine.toMachine taskCurr dev root (pathTokens relat).dropLast =
        walked at walks finds
      match walked, walks, finds with
      | some (_, .error _), walks, finds =>
        cases finds
        exact ⟨walks.1, fun _ _ isOk => by cases isOk⟩
      | some (_, .ok found), walks, finds =>
        cases finds
        refine ⟨walks.1, fun parent name isOk => ?_⟩
        cases isOk
        exact walks.2 _ rfl

end Walks

/-! ## Calls -/

/-- The credentials `vfs_checkperm` reads. -/
def credentials (task : Task) : Nat × Nat × List Nat := (task.euid, task.egid, task.groups)

/-- A step that keeps `Holds`, the mounts, the threads and the credentials. -/
structure Leaves (Holds : σ → Prop) (before after : Kernel σ) : Prop where
  holds : Holds after.dev
  mounts : after.mounts = before.mounts
  thread : after.thread = before.thread
  creds : ∀ task, credentials (after.task task) = credentials (before.task task)

/-- A call that keeps `Holds` if it returns. -/
def ReturnsLeaving (Holds : σ → Prop) (before : Kernel σ) (result : Option (Kernel σ × Int)) : Prop :=
  ∀ done, result = some done → Leaves Holds before done.1

section Calls

theorem Leaves.trans {first second third : Kernel σ} (before : Leaves Holds first second)
    (after : Leaves Holds second third) : Leaves Holds first third where
  holds := after.holds
  mounts := after.mounts.trans before.mounts
  thread := after.thread.trans before.thread
  creds task := (after.creds task).trans (before.creds task)

theorem Leaves.refl (holds : Holds kernel.dev) : Leaves Holds kernel kernel :=
  ⟨holds, rfl, rfl, fun _ => rfl⟩

theorem Leaves.setDev (holds : Holds disk) : Leaves Holds kernel { kernel with dev := disk } :=
  ⟨holds, rfl, rfl, fun _ => rfl⟩

/-! Rules for the results of calls -/

section

variable {next : Kernel σ} (leaves : Leaves Holds kernel next)
include leaves

theorem Leaves.ret {r : Int} : ReturnsLeaving Holds kernel (some (next, r)) := by
  rintro _ ⟨⟩
  exact leaves

theorem Leaves.andThen {result : Option (Kernel σ × Int)}
    (rest : ReturnsLeaving Holds next result) :
    ReturnsLeaving Holds kernel result :=
  fun done ran => leaves.trans (rest done ran)

end

theorem ReturnsLeaving.bind {α : Type} {first : Option α} {rest : α → Option (Kernel σ × Int)}
    (leaves : ∀ made, first = some made → ReturnsLeaving Holds kernel (rest made)) :
    ReturnsLeaving Holds kernel (first.bind rest) := by
  intro done ran
  obtain ⟨made, isMade, ran⟩ := bind_eq_some_iff.mp ran
  exact leaves made isMade done ran

variable (holds : Holds kernel.dev) (mounted : ∀ mount ∈ kernel.mounts, Known mount.file)
  {flags gid mode slot uid : Nat} {result : VfsOpen σ}

include rules holds mounted

theorem vfsOpen_leaves (opens : vfsOpen machine.toMachine kernel taskCurr path flags = some result) :
    Leaves Holds kernel result.kernel := by
  have walks : Walks Holds Known (vfsResolve machine.toMachine kernel.mounts taskCurr
      (flags &&& 0o400000 == 0) kernel.dev path) := doVfsResolve_walks rules mounted 8 holds
  simp only [vfsOpen] at opens
  generalize vfsResolve machine.toMachine kernel.mounts taskCurr (flags &&& 0o400000 == 0)
    kernel.dev path = resolved at walks opens
  match resolved, walks, opens with
  | some (_, .error _), walks, opens =>
    cases opens
    exact ⟨walks.1, rfl, rfl, fun _ => rfl⟩
  | some (dev, .ok inode), walks, opens =>
    dsimp only at opens
    split at opens
    · cases opens
      exact ⟨rules.openFile _ inode _ walks.1, rfl, rfl, fun _ => rfl⟩
    · cases opens
      exact ⟨walks.1, rfl, rfl, fun _ => rfl⟩

theorem vfsAccess_leaves :
    ReturnsLeaving Holds kernel (vfsAccess machine kernel taskCurr path mode) := by
  refine .bind fun _ opens => ?_
  have leaves := vfsOpen_leaves rules holds mounted opens
  split
  · exact leaves.ret
  · exact .bind fun _ _ => leaves.ret

theorem inParent_leaves {act : σ → Inode → CStr → Option (σ × Int)}
    (acts : ∀ {disk parent name done},
      getParentDir machine.toMachine kernel.mounts taskCurr kernel.dev path =
        some (disk, .ok (parent, name)) →
      Holds disk → Known parent → act disk parent name = some done → Holds done.1) :
    ReturnsLeaving Holds kernel (inParent machine kernel taskCurr path act) := by
  intro done ran
  simp only [inParent] at ran
  cases finds : getParentDir machine.toMachine kernel.mounts taskCurr kernel.dev path with
  | none => simp [finds] at ran
  | some found =>
    obtain ⟨disk, result⟩ := found
    obtain ⟨holdsDisk, known⟩ := getParentDir_walks rules mounted holds finds
    simp only [finds] at ran
    cases result with
    | error e =>
      cases ran
      exact .setDev holdsDisk
    | ok parent =>
      obtain ⟨parent, name⟩ := parent
      obtain ⟨_, acted, isDone⟩ := map_eq_some_iff.mp ran
      subst isDone
      exact .setDev (acts finds holdsDisk (known parent name rfl) acted)

theorem vfsMkdir_leaves
    (allowed : ∀ act ∈ parentAct machine kernel taskCurr .make path, Allowed act) :
    ReturnsLeaving Holds kernel (vfsMkdir machine kernel taskCurr path mode uid gid) := by
  apply inParent_leaves rules holds mounted
  intro _ _ _ _ finds holdsDisk known acted
  split at acted
  · cases acted
    exact rules.mkdir _ mode uid gid holdsDisk known (allowed _ (by simp [parentAct, finds]))
  · cases acted
    exact holdsDisk

omit holds mounted in
theorem vfsDoUnlink_leaves {parent : Inode} {name : CStr} (holdsDisk : Holds disk)
    (known : Known parent) (allowed : Allowed ⟨.remove, disk, parent, name⟩) :
    Holds (vfsDoUnlink machine disk parent name) := by
  simp only [vfsDoUnlink]
  cases parent.ops.unlink with
  | none => exact holdsDisk
  | some op => exact rules.unlink op holdsDisk known allowed

theorem vfsUnlink_leaves (allowed : ∀ act ∈ unlinkActs machine kernel taskCurr path, Allowed act) :
    ReturnsLeaving Holds kernel (vfsUnlink machine kernel taskCurr path) := by
  apply inParent_leaves rules holds mounted
  intro disk _ _ _ finds holdsDisk known acted
  have walks : Walks Holds Known
      (vfsResolve machine.toMachine kernel.mounts taskCurr true disk path) :=
    doVfsResolve_walks rules mounted 8 holdsDisk
  simp only [unlinkActs, parentAct, finds, flatMap_cons] at allowed
  generalize vfsResolve machine.toMachine kernel.mounts taskCurr true disk path = resolved
    at walks acted allowed
  match resolved, walks, acted, allowed with
  | some (_, .error _), walks, acted, _ =>
    cases acted
    exact walks.1
  | some (disk, .ok file), walks, acted, allowed =>
    dsimp only at acted
    split at acted
    · cases acted
      exact walks.1
    · cases acted
      exact vfsDoUnlink_leaves rules walks.1 known (allowed _ (by simp))

theorem vfsRmdir_leaves
    (allowed : ∀ act ∈ parentAct machine kernel taskCurr .remove path, Allowed act) :
    ReturnsLeaving Holds kernel (vfsRmdir machine kernel taskCurr path) := by
  apply inParent_leaves rules holds mounted
  intro _ _ _ _ finds holdsDisk known acted
  cases acted
  exact vfsDoUnlink_leaves rules holdsDisk known (allowed _ (by simp [parentAct, finds]))

theorem vfsMknod_leaves {rdev : Nat}
    (allowed : ∀ act ∈ parentAct machine kernel taskCurr .make path, Allowed act) :
    ReturnsLeaving Holds kernel
      (vfsMknod machine.toMachine kernel taskCurr path mode rdev uid gid) := by
  have isInParent : vfsMknod machine.toMachine kernel taskCurr path mode rdev uid gid =
      inParent machine kernel taskCurr path fun disk parent name =>
        some (parent.ops.mknod.elim disk fun op =>
          (machine.mknod op disk parent name mode rdev uid gid).1, 0) := by
    simp only [vfsMknod, inParent]
    rcases getParentDir machine.toMachine kernel.mounts taskCurr kernel.dev path with
      _ | ⟨_, _ | ⟨parent, _⟩⟩
    · rfl
    · rfl
    · dsimp only
      cases parent.ops.mknod <;> rfl
  rw [isInParent]
  apply inParent_leaves rules holds mounted
  intro disk parent name _ finds holdsDisk known acted
  cases acted
  cases parent.ops.mknod with
  | none => exact holdsDisk
  | some _ =>
    exact rules.mknod _ mode rdev uid gid holdsDisk known (allowed _ (by simp [parentAct, finds]))

theorem setTarget_leaves
    (allowed : ∀ act ∈ targetActs machine kernel taskCurr target link, Allowed act) :
    ReturnsLeaving Holds kernel (setTarget machine kernel taskCurr target link) := by
  have walks : Walks Holds Known
      (vfsResolve machine.toMachine kernel.mounts taskCurr false kernel.dev link) :=
    doVfsResolve_walks rules mounted 8 holds
  simp only [setTarget]
  simp only [targetActs] at allowed
  generalize vfsResolve machine.toMachine kernel.mounts taskCurr false kernel.dev link = resolved
    at walks allowed ⊢
  match resolved, walks, allowed with
  | none, _, _ => nofun
  | some (_, .error _), walks, _ => exact (Leaves.setDev walks.1).ret
  | some (disk, .ok file), walks, allowed =>
    dsimp only
    split
    · exact (Leaves.setDev (rules.symlink _ walks.1 (walks.2 file rfl) (allowed _ (by simp)))).ret
    · exact (Leaves.setDev walks.1).ret

theorem vfsSymlink_leaves
    (allowed : ∀ found, vfsAccess machine kernel taskCurr link 0 = some found → found.2 ≠ 0 →
      (∀ act ∈ parentAct machine found.1 taskCurr .make link, Allowed act) ∧
      ∀ made, vfsMknod machine.toMachine found.1 taskCurr link 0xa1ff 0 uid gid = some made →
        ∀ act ∈ targetActs machine made.1 taskCurr target link, Allowed act) :
    ReturnsLeaving Holds kernel (vfsSymlink machine kernel taskCurr target link uid gid) := by
  refine .bind fun found accessed => ?_
  have leaves := vfsAccess_leaves rules holds mounted found accessed
  split
  · exact leaves.ret
  · obtain ⟨allowedParent, allowedFile⟩ := allowed found accessed ‹_›
    refine .bind fun made makes => ?_
    have leavesMade := vfsMknod_leaves rules leaves.holds (leaves.mounts ▸ mounted)
      allowedParent made makes
    have mountedMade : ∀ mount ∈ made.1.mounts, Known mount.file := by
      rw [leavesMade.mounts, leaves.mounts]
      exact mounted
    exact (leaves.trans leavesMade).andThen
      (setTarget_leaves rules leavesMade.holds mountedMade (allowedFile made makes))

section

variable (allowed : ∀ act ∈ linkActs machine kernel taskCurr old new, Allowed act)
include allowed

theorem vfsLink_leaves : ReturnsLeaving Holds kernel (vfsLink machine kernel taskCurr old new) := by
  have walks : Walks Holds Known
      (vfsResolve machine.toMachine kernel.mounts taskCurr true kernel.dev old) :=
    doVfsResolve_walks rules mounted 8 holds
  simp only [vfsLink]
  simp only [linkActs] at allowed
  generalize vfsResolve machine.toMachine kernel.mounts taskCurr true kernel.dev old = resolved
    at walks allowed ⊢
  match resolved, walks, allowed with
  | none, _, _ => nofun
  | some (_, .error _), walks, _ => exact (Leaves.setDev walks.1).ret
  | some (disk, .ok file), walks, allowed =>
    refine (Leaves.setDev walks.1).andThen (inParent_leaves rules ?_ ?_ ?_)
    · exact walks.1
    · exact mounted
    · intro disk _ _ _ finds holdsDisk known acted
      split at acted
      · cases acted
        exact rules.link _ file holdsDisk known (allowed _ (by simp [parentAct, finds]))
      · cases acted
        exact holdsDisk

theorem vfsRename_leaves
    (allowedOld : ∀ linked, vfsLink machine kernel taskCurr old new = some linked →
      ∀ act ∈ parentAct machine linked.1 taskCurr .remove old, Allowed act) :
    ReturnsLeaving Holds kernel (vfsRename machine kernel taskCurr old new) := by
  refine .bind fun linked links => ?_
  have leaves := vfsLink_leaves rules holds mounted allowed linked links
  split
  · exact leaves.ret
  · exact leaves.andThen (vfsRmdir_leaves rules leaves.holds (leaves.mounts ▸ mounted)
      (allowedOld linked links))

end

omit rules holds mounted in
theorem vfsOpen_current (opens : vfsOpen machine.toMachine kernel taskCurr path flags = some result)
    (self : ThreadId) : current result.kernel self = current kernel self := by
  simp only [vfsOpen] at opens
  split at opens
  · cases opens
  · cases opens
    rfl
  · split at opens
    · cases opens
      rfl
    · cases opens
      rfl

omit rules holds mounted in
theorem grantFile_leaves {file : File} (holds : Holds kernel.dev) :
    Leaves Holds kernel (grantFile kernel self slot file flags).1 := by
  simp only [grantFile]
  split
  · exact .refl holds
  · split
    · exact .refl holds
    · refine ⟨holds, rfl, rfl, fun task => ?_⟩
      simp only
      apply (Kernel.setTask_read _ credentials _ _ _ task).trans rfl
      exact fun _ => rfl

theorem createFile_leaves {stale : Option File}
    (allowed : ∀ act ∈ parentAct machine kernel (some (current kernel self)) .make path,
      Allowed act) :
    ReturnsLeaving Holds kernel
      (createFile machine.toMachine kernel self slot stale path flags mode) := by
  refine .bind fun ⟨_, e⟩ makes => ?_
  have leaves := vfsMknod_leaves rules holds mounted allowed _ makes
  dsimp only at leaves ⊢
  split
  · exact leaves.ret
  · refine .bind fun _ opens => .bind fun _ _ => ?_
    have leavesAgain := vfsOpen_leaves rules leaves.holds (leaves.mounts ▸ mounted) opens
    exact ((leaves.trans leavesAgain).trans (grantFile_leaves leavesAgain.holds)).ret

theorem sysOpen_leaves {ptr : Nat}
    (allowed : ∀ first, vfsOpen machine.toMachine kernel (some (current kernel self))
        (vfsMkcanon path (current kernel self).workd) flags = some first →
      first.ret = -enoent ∧ flags &&& 0o100 ≠ 0 →
      ∀ act ∈ parentAct machine first.kernel (some (current kernel self)) .make
        (vfsMkcanon path (current kernel self).workd), Allowed act) :
    ReturnsLeaving Holds kernel (sysOpen machine.toMachine kernel self ptr path flags mode) := by
  have unchanged : Leaves Holds kernel kernel := .refl holds
  simp only [sysOpen]
  split
  · exact unchanged.ret
  · split
    · exact unchanged.ret
    · simp only [doSysOpen]
      split
      · exact unchanged.ret
      · refine .bind fun first opens => ?_
        have leaves := vfsOpen_leaves rules holds mounted opens
        split
        · rename_i missing
          split
          · exact leaves.ret
          · rename_i creates
            have allowedFirst := allowed first opens ⟨missing, creates⟩
            rw [← vfsOpen_current opens self] at allowedFirst ⊢
            exact leaves.andThen (createFile_leaves rules leaves.holds (leaves.mounts ▸ mounted)
              allowedFirst)
        · split
          · exact leaves.ret
          · split
            · exact leaves.ret
            · exact .bind fun _ _ => (leaves.trans (grantFile_leaves leaves.holds)).ret

theorem dirBody_leaves (allowed : ∀ act ∈ acts machine kernel self call, Allowed act) :
    ReturnsLeaving Holds kernel (dirBody machine kernel self call) := by
  cases call with
  | mkdir ptr path mode =>
    simp only [acts] at allowed
    simp only [dirBody]
    split_ifs at allowed ⊢
    · exact (Leaves.refl holds).ret
    · exact vfsMkdir_leaves rules holds mounted allowed
  | mknod ptr path mode _ => exact vfsMknod_leaves rules holds mounted allowed
  | «open» ptr path flags mode =>
    apply sysOpen_leaves rules holds mounted
    intro _ opens creates act mem
    apply allowed
    simp only [acts, opens, if_pos creates]
    exact mem
  | unlink ptr path => exact vfsUnlink_leaves rules holds mounted allowed
  | rmdir ptr path => exact vfsRmdir_leaves rules holds mounted allowed
  | link oldPtr old newPtr new => exact vfsLink_leaves rules holds mounted allowed
  | symlink _ _ _ link =>
    apply vfsSymlink_leaves rules holds mounted
    intro found accessed missing
    simp only [acts, accessed, if_neg missing, forall_mem_append] at allowed
    refine ⟨allowed.1, fun _ makes act mem => allowed.2 act ?_⟩
    simp only [makes]
    exact mem
  | rename oldPtr old newPtr new =>
    simp only [acts, forall_mem_append] at allowed
    apply vfsRename_leaves rules holds mounted allowed.1
    intro _ links act mem
    apply allowed.2
    simp only [links]
    exact mem

theorem dirCall_leaves (allowed : call.pointers.all (ptrValid kernel self) = true →
      ∀ act ∈ acts machine kernel self call, Allowed act) :
    ReturnsLeaving Holds kernel (dirCall machine kernel self call) := by
  simp only [dirCall]
  split_ifs with valid
  · exact dirBody_leaves rules holds mounted (allowed valid)
  · exact (Leaves.refl holds).ret

end Calls

end Micro.Fs
