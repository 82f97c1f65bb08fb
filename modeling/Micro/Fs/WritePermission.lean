import Micro.Fs.Effects
import Micro.Lib.Run
import Micro.Proc.Task

/-!
# Permission to write directories

What is observed of the file systems is the set of entries of each directory, and the
attributes that `vfs_checkperm` reads.  A directory that a task may not write keeps its
entries as long as the task's calls hand over only directories that it may write.
-/

namespace Micro.Fs

open Kern Lib Proc Option

variable {Dir : Type} {dir : Inode} {σ : Type} {machine : DirMachine σ}

/-! ## What is observed of directories -/

/-- The directories of the file systems, the attributes `vfs_checkperm` reads, and their
entries. -/
structure DirView (σ Dir : Type) where
  ident : Inode → Dir
  present : σ → Dir → Prop
  /-- `mode`, `uid` and `gid`. -/
  owner : σ → Dir → Nat × Nat × Nat
  entries : σ → Dir → Set (CStr × Nat)

namespace DirView

variable (view : DirView σ Dir)

/-- A step that leaves a directory as it is. -/
def Keeps (dir : Dir) (before after : σ) : Prop :=
  view.present before dir → view.present after dir ∧ view.owner after dir = view.owner before dir ∧
    view.entries after dir = view.entries before dir

/-- An inode in memory has the attributes of the directory it stands for. -/
def Current (dev : σ) (inode : Inode) : Prop :=
  view.present dev (view.ident inode) →
    view.owner dev (view.ident inode) = (inode.mode, inode.uid, inode.gid)

/-- A directory exists, with the attributes of an inode in memory and given entries. -/
structure Shows (dir : Inode) (entries : Set (CStr × Nat)) (dev : σ) : Prop where
  present : view.present dev (view.ident dir)
  owner : view.owner dev (view.ident dir) = (dir.mode, dir.uid, dir.gid)
  entries : view.entries dev (view.ident dir) = entries

variable {view} in
theorem Shows.keeps {entries : Set (CStr × Nat)} {before after : σ}
    (shows : view.Shows dir entries before) (keeps : view.Keeps (view.ident dir) before after) :
    view.Shows dir entries after := by
  obtain ⟨present, owner, same⟩ := keeps shows.present
  exact ⟨present, owner.trans shows.owner, same.trans shows.entries⟩

end DirView

/-- What is asked of the drivers: an operation on a directory changes the entries of that
directory only, the others change none, and a lookup gives a directory its attributes. -/
structure DirLaws {Dir : Type} (machine : DirMachine σ) (view : DirView σ Dir) : Prop where
  lookup : ∀ op dev dir name other, view.Keeps other dev (machine.lookup op dev dir name).1
  found : ∀ op dev dir name, 0 ≤ (machine.lookup op dev dir name).2.1 →
    view.Current (machine.lookup op dev dir name).1 (machine.lookup op dev dir name).2.2
  readlink : ∀ op dev inode n other, view.Keeps other dev (machine.readlink op dev inode n).1
  openFile : ∀ op dev inode file other, view.Keeps other dev (machine.openFile op dev inode file).1
  mknod : ∀ op dev dir name mode rdev uid gid other, other ≠ view.ident dir →
    view.Keeps other dev (machine.mknod op dev dir name mode rdev uid gid).1
  mkdir : ∀ op dev dir name mode uid gid other, other ≠ view.ident dir →
    view.Keeps other dev (machine.mkdir op dev dir name mode uid gid).1
  unlink : ∀ op dev dir name other, other ≠ view.ident dir →
    view.Keeps other dev (machine.unlink op dev dir name).1
  symlink : ∀ op dev file target other, other ≠ view.ident file →
    view.Keeps other dev (machine.symlink op dev file target).1
  link : ∀ op dev file name dir other, other ≠ view.ident dir →
    view.Keeps other dev (machine.link op dev file name dir).1

/-! ## Attributes of inodes in memory -/

section Attributes

variable {view : DirView σ Dir} {entries : Set (CStr × Nat)} {taskCurr : Option Task}
  {inode : Inode}

/-- An inode in memory that stands for the directory has its attributes. -/
def SameAttributes (view : DirView σ Dir) (dir inode : Inode) : Prop :=
  view.ident inode = view.ident dir →
    inode.mode = dir.mode ∧ inode.uid = dir.uid ∧ inode.gid = dir.gid

theorem SameAttributes.of_current {dev : σ} (shows : view.Shows dir entries dev)
    (current : view.Current dev inode) : SameAttributes view dir inode := by
  intro same
  have owner := current (same ▸ shows.present)
  rw [same, shows.owner] at owner
  simp only [Prod.mk.injEq] at owner
  exact ⟨owner.1.symm, owner.2.1.symm, owner.2.2.symm⟩

theorem SameAttributes.apart (same : SameAttributes view dir inode)
    (denied : vfsCheckperm taskCurr dir 2 = -1) (allowed : vfsCheckperm taskCurr inode 2 ≠ -1) :
    view.ident dir ≠ view.ident inode := by
  intro equal
  obtain ⟨mode, uid, gid⟩ := same equal.symm
  apply allowed
  rw [← denied]
  simp only [vfsCheckperm, mode, uid, gid]

/-- Operations on directories that the task may write leave the directory alone, if it may not
write that. -/
theorem DirLaws.rules (laws : DirLaws machine view) (denied : vfsCheckperm taskCurr dir 2 = -1) :
    DirRules machine (view.Shows dir entries) (SameAttributes view dir)
      (fun act => vfsCheckperm taskCurr act.dir 2 ≠ -1) where
  lookup op file name shows := shows.keeps (laws.lookup op _ file name _)
  found op file name shows succeeds :=
    .of_current (shows.keeps (laws.lookup op _ file name _)) (laws.found op _ file name succeeds)
  readlink op inode n shows := shows.keeps (laws.readlink op _ inode n _)
  openFile op inode file shows := shows.keeps (laws.openFile op _ inode file _)
  mknod op mode rdev uid gid shows same allowed :=
    shows.keeps (laws.mknod op _ _ _ mode rdev uid gid _ (same.apart denied allowed))
  mkdir op mode uid gid shows same allowed :=
    shows.keeps (laws.mkdir op _ _ _ mode uid gid _ (same.apart denied allowed))
  unlink op shows same allowed := shows.keeps (laws.unlink op _ _ _ _ (same.apart denied allowed))
  symlink op shows same allowed := shows.keeps (laws.symlink op _ _ _ _ (same.apart denied allowed))
  link op file shows same allowed :=
    shows.keeps (laws.link op _ file _ _ _ (same.apart denied allowed))

end Attributes

theorem vfsCheckperm_credentials {task other : Task} (same : credentials task = credentials other)
    (file : Inode) (mask : Nat) :
    vfsCheckperm (some task) file mask = vfsCheckperm (some other) file mask := by
  cases task
  simp only [credentials, Prod.mk.injEq] at same
  obtain ⟨euid, egid, groups⟩ := same
  subst euid egid groups
  rfl

/-! ## Runs -/

variable {entries : Set (CStr × Nat)} {self : ThreadId} {view : DirView σ Dir}

/-- The directory is there with its entries, inodes of mounts agree with it, and the task
may not write it. -/
structure Protected {Dir : Type} (view : DirView σ Dir) (thread : ThreadId) (dir : Inode)
    (entries : Set (CStr × Nat)) (kernel : Kernel σ) : Prop where
  shows : view.Shows dir entries kernel.dev
  mounted : ∀ mount ∈ kernel.mounts, SameAttributes view dir mount.file
  denied : vfsCheckperm (some (current kernel thread)) dir 2 = -1

theorem Protected.leaves {kernel next : Kernel σ} (holds : Protected view self dir entries kernel)
    (leaves : Leaves (view.Shows dir entries) kernel next) :
    Protected view self dir entries next where
  shows := leaves.holds
  mounted := by
    rw [leaves.mounts]
    exact holds.mounted
  denied := by
    rw [← holds.denied]
    apply vfsCheckperm_credentials
    simp only [current, currentId, leaves.thread]
    exact leaves.creds _

/-- Step lemma: a call that hands over directories the task may write leaves the
directory alone. -/
theorem dirStep_protected (laws : DirLaws machine view) (kernel : Kernel σ) (call : DirCall)
    (next : Kernel σ) (holds : Protected view self dir entries kernel)
    (stepped : Restricted (fun kernel call next => dirStep machine self kernel call = some next)
      (fun kernel call => writesAllowed machine self kernel call = true) kernel call next) :
    Protected view self dir entries next := by
  obtain ⟨returns, writes⟩ := stepped
  obtain ⟨done, ran, isNext⟩ := map_eq_some_iff.mp returns
  subst isNext
  apply holds.leaves
  apply dirCall_leaves (laws.rules holds.denied) holds.shows holds.mounted _ done ran
  intro valid act mem
  have allowed : ∀ parent ∈ handed machine kernel self call,
      vfsCheckperm (some (current kernel self)) parent 2 ≠ -1 := by
    simpa [writesAllowed, valid] using writes
  exact allowed act.dir (acts_dir mem)

/-- The entries of each directory, by inode number. -/
abbrev Dirs := Nat → List (CStr × Nat)

/-- The root, which belongs to the superuser, and the directory of a user, which has inode 1.
Other inodes are files. -/
def homeInode (n : Nat) : Inode :=
  { inode := n, mode := if n < 2 then 0x41ed else 0x81a4, uid := if n = 1 then 1000 else 0
    ops := { lookup := some 0, mknod := some 0, mkdir := some 0, unlink := some 0, link := some 0 } }

def homeMachine : DirMachine Dirs where
  __ := Machine.idle _
  lookup := fun _ dev dir name =>
    (dev, match (dev dir.inode).lookup name with
      | some n => (0, homeInode n)
      | none => (-enoent, {}))
  mknod := fun _ dev dir name _ _ _ _ =>
    (Function.update dev dir.inode ((name, 2) :: dev dir.inode), 0)
  readlink := fun _ dev _ _ => (dev, -einval, [])
  mkdir := fun _ dev dir name _ _ _ =>
    (Function.update dev dir.inode ((name, 2) :: dev dir.inode), 0)
  unlink := fun _ dev dir name =>
    (Function.update dev dir.inode ((dev dir.inode).filter (·.1 ≠ name)), 0)
  symlink := fun _ dev _ _ => (dev, 0)
  link := fun _ dev file name dir =>
    (Function.update dev dir.inode ((name, file.inode) :: dev dir.inode), 0)

def homeView : DirView Dirs Nat where
  ident := Inode.inode
  present := fun _ dir => dir < 2
  owner := fun _ dir => ((homeInode dir).mode, (homeInode dir).uid, (homeInode dir).gid)
  entries := fun dev dir => { entry | entry ∈ dev dir }

theorem homeView_update {dev : Dirs} {changed other : Nat} (ne : other ≠ changed)
    (entries : List (CStr × Nat)) : homeView.Keeps other dev (Function.update dev changed entries) := by
  intro present
  refine ⟨present, rfl, ?_⟩
  simp [homeView, Function.update_of_ne ne]

theorem homeLaws : DirLaws homeMachine homeView where
  lookup _ _ _ _ _ present := ⟨present, rfl, rfl⟩
  found op dev dir name succeeds := by
    simp only [homeMachine] at succeeds ⊢
    cases isEntry : (dev dir.inode).lookup name with
    | none =>
      simp only [isEntry] at succeeds
      exact absurd succeeds (by decide)
    | some n => exact fun _ => rfl
  readlink _ _ _ _ _ present := ⟨present, rfl, rfl⟩
  openFile _ _ _ _ _ present := ⟨present, rfl, rfl⟩
  mknod _ _ _ _ _ _ _ _ _ different := homeView_update different _
  mkdir _ _ _ _ _ _ _ _ different := homeView_update different _
  unlink _ _ _ _ _ different := homeView_update different _
  symlink _ _ _ _ _ _ present := ⟨present, rfl, rfl⟩
  link _ _ _ _ _ _ different := homeView_update different _

/-- One task of user 1000, and `/home`. -/
def homeKernel : Kernel Dirs :=
  oneTaskOn (fun n => if n = 0 then [([104, 111, 109, 101], 1)] else []) [⟨[47], homeInode 0⟩]

end Micro.Fs
