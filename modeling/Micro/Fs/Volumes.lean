import Micro.Fat.Model
import Micro.Fs.Disks
import Micro.Fs.ParentLookup

/-!
# The drivers of all file systems

The drivers of ext2, devfs and the initial ramdisk together with those of FAT and of the
pseudoterminals.  Each has some of the operations on directories: ext2 has all of them, FAT
no `mknod`, and the others only `lookup`.
-/

namespace Micro.Fs

open Kern Option

def fatFn : FnPtr := 4
def ptsfsFn : FnPtr := 5

/-- The operations `fat_lookup` and `fat_mount` set. -/
def fatIops : InodeOps :=
  { lookup := some fatFn, getdents := some fatFn, mkdir := some fatFn, unlink := some fatFn }

/-- The inode `fat_lookup` makes, for the volume at an address. -/
def fatInode (vol : Nat) (found : Fat.Found) : Inode :=
  { mode := if found.isDir then 0x4000 else 0x8000, inode := found.inode, size := found.size
    priv := vol, ops := fatIops, fops := { read := some fatFn, write := some fatFn } }

def fatRoot (vol cluster : Nat) : Inode :=
  { mode := 0x416d, inode := cluster, priv := vol, ops := fatIops }

def ptsfsRoot : Inode :=
  { mode := 0x41ed, ops := { lookup := some ptsfsFn, getdents := some ptsfsFn } }

/-- A slave that `pts_open` has put in the list. -/
structure Slave where
  name : CStr
  priv : Nat
  uid : Nat

def Slave.inode (slave : Slave) : Inode :=
  { mode := 0x2190, priv := slave.priv, uid := slave.uid
    fops := { read := some ptsfsFn, write := some ptsfsFn, ioctl := some ptsfsFn } }

/-- The state of all drivers, with the FAT volumes by address. -/
structure Volumes extends Disks where
  fats : Nat → Option Fat.Volume
  slaves : List Slave

namespace Volumes

variable (volumes : Volumes)

def setTree (vol : Nat) (tree : Ext2.Tree) : Volumes :=
  { volumes with toDisks := volumes.toDisks.setTree vol tree }

def setFat (vol : Nat) (fat : Fat.Volume) : Volumes :=
  { volumes with fats := Function.update volumes.fats vol (some fat) }

def fatLookup (dir : Inode) (name : CStr) : Option (Except Int Inode) :=
  (volumes.fats dir.priv).bind fun vol =>
    (Fat.fatLookup vol dir.inode name).map fun result => result.map (fatInode dir.priv)

def ptsfsLookup (name : CStr) : Except Int Inode :=
  match volumes.slaves.find? fun slave => slave.name = name with
  | some slave => .ok slave.inode
  | none => .error (-enoent)

/-- A call of a `lookup` pointer. -/
def lookup (op : FnPtr) (dir : Inode) (name : CStr) : Option (Except Int Inode) :=
  if op = fatFn then volumes.fatLookup dir name
  else if op = ptsfsFn then some (volumes.ptsfsLookup name)
  else volumes.toDisks.lookup op dir name

end Volumes

/-- A call of a pointer that changes a volume: of ext2, or of FAT. -/
def volumeOp (op : FnPtr) (dev : Option Volumes) (vol : Nat)
    (ext2 : Ext2.Tree → Option (Ext2.Tree × Int)) (fat : Fat.Volume → Option (Fat.Volume × Int)) :
    Option Volumes × Int :=
  match dev.bind fun volumes =>
      if op = ext2Fn then
        (volumes.trees vol).bind fun tree =>
          (ext2 tree).map fun done => (volumes.setTree vol done.1, done.2)
      else if op = fatFn then
        (volumes.fats vol).bind fun found =>
          (fat found).map fun done => (volumes.setFat vol done.1, done.2)
      else none with
  | some (volumes, r) => (some volumes, r)
  | none => (none, 0)

def allDrivers (opens : Opens) :
    DirMachine (Option Volumes) where
  __ := Machine.idle _
  lookup := fun op dev dir name =>
    match dev.bind fun volumes => volumes.lookup op dir name with
    | some (.ok inode) => (dev, 0, inode)
    | some (.error e) => (dev, e, {})
    | none => (none, 0, {})
  mknod := fun op dev dir name mode _ uid gid =>
    volumeOp op dev dir.priv (fun tree => (tree.mknod dir.inode name mode uid gid).map (·, 0))
      fun _ => none
  readlink := fun op dev inode n =>
    match dev.bind fun volumes =>
        if op = ext2Fn then
          (volumes.trees inode.priv).bind fun tree => tree.readlink inode.inode inode.mode n
        else none with
    | some (.ok bytes) => (dev, bytes.length, bytes)
    | some (.error e) => (dev, e, [])
    | none => (none, 0, [])
  openFile := fun op dev inode file => (dev, opens op inode file)
  mkdir := fun op dev dir name mode uid gid =>
    volumeOp op dev dir.priv (fun tree => (tree.mkdir dir.inode name mode uid gid).map (·, 0))
      fun vol => (Fat.fatMkdir vol dir.inode name).map (·, 0)
  unlink := fun op dev dir name =>
    volumeOp op dev dir.priv (fun tree => tree.unlink dir.inode name)
      fun vol => Fat.fatUnlink vol dir.inode name
  symlink := fun op dev file target =>
    volumeOp op dev file.priv (fun tree => (tree.symlink file.inode target).map (·, 0))
      fun _ => none
  link := fun op dev file name dir =>
    volumeOp op dev dir.priv
      (fun tree => (tree.link file.inode file.mode name dir.inode).map (·, 0)) fun _ => none

/-! ## Inodes of the file systems -/

inductive MountRoot : Inode → Prop where
  | ext2 (vol : Nat) (node : Ext2.Node) : MountRoot (inode2file vol 2 node)
  | fat (vol cluster : Nat) : MountRoot (fatRoot vol cluster)
  | devfs : MountRoot devfsRoot
  | ptsfs : MountRoot ptsfsRoot
  | initramfs (image : Nat) : MountRoot (initramfsRoot image)

/-- The operations an inode has: those of ext2, those of FAT, or none that changes a directory.
What `initramfs_lookup` leaves in a file is not known. -/
inductive Handled (inode : Inode) : Prop where
  | ext2 (isOps : inode.ops = ext2Iops)
  | fat (isOps : inode.ops = fatIops)
  | bare (noMkdir : inode.ops.mkdir = none) (noMknod : inode.ops.mknod = none)
      (noUnlink : inode.ops.unlink = none)
  | file (notDir : sIsdir inode.mode = false)

theorem MountRoot.handled {root : Inode} (isRoot : MountRoot root) : Handled root := by
  cases isRoot with
  | ext2 vol _ => exact .ext2 rfl
  | fat vol _ => exact .fat rfl
  | devfs | ptsfs | initramfs => exact .bare rfl rfl rfl

section Lookups

variable {volumes : Volumes} {op : FnPtr} {dir : Inode} {name : CStr}

/-- What a lookup returns: an inode with known operations, or that there is no such name. -/
theorem Volumes.lookup_result {result : Except Int Inode}
    (looked : volumes.lookup op dir name = some result) :
    (∃ inode, result = .ok inode ∧ Handled inode) ∨ result = .error (-enoent) := by
  simp only [Volumes.lookup] at looked
  split at looked
  · rcases bind_eq_some_iff.mp looked with ⟨vol, _, mapped⟩
    rcases map_eq_some_iff.mp mapped with ⟨_, answered, isResult⟩
    rcases bind_eq_some_iff.mp answered with ⟨_, _, found⟩
    rcases map_eq_some_iff.mp found with ⟨_ | _, _, isAnswer⟩
    · subst isAnswer isResult
      exact .inr rfl
    · subst isAnswer isResult
      exact .inl ⟨_, rfl, .fat rfl⟩
  split at looked
  · cases looked
    simp only [Volumes.ptsfsLookup]
    split
    · exact .inl ⟨_, rfl, .bare rfl rfl rfl⟩
    · exact .inr rfl
  cases Disks.lookup_answer looked with
  | ext2 vol _ _ => exact .inl ⟨_, rfl, .ext2 rfl⟩
  | device device => exact .inl ⟨_, rfl, .bare rfl rfl rfl⟩
  | file notDir => exact .inl ⟨_, rfl, .file notDir⟩
  | missing => exact .inr rfl

end Lookups

/-! ## Walks -/

section Parents

variable {opens : Opens} {volumes : Volumes}
  {mounts : List Mount} {taskCurr : Option Task} {disk : Option Volumes}

/-- A lookup leaves the drivers as they are, or goes astray and finds nothing to go on with. -/
theorem callLookup_handled {file child : Inode} {token : CStr}
    (looked : callLookup (allDrivers opens).toMachine (some volumes) file token =
      some (disk, .ok child)) :
    disk = some volumes ∧ Handled child ∨ disk = none ∧ child = {} := by
  rcases map_eq_some_iff.mp looked with ⟨op, _, isResult⟩
  simp only [allDrivers, bind_some] at isResult
  cases found : volumes.lookup op file token with
  | none =>
    simp only [found] at isResult
    cases isResult
    exact .inr ⟨rfl, rfl⟩
  | some _ =>
    rcases Volumes.lookup_result found with ⟨_, isOk, handled⟩ | isError
    · simp only [found, isOk] at isResult
      cases isResult
      exact .inl ⟨rfl, handled⟩
    · simp only [found, isError] at isResult
      cases isResult

/-- The loop of `get_parent_dir` comes to a directory only if no driver goes astray. -/
theorem parentWalk_handled (names : List CStr) : ∀ {file dir : Inode}, Handled file →
    parentWalk (allDrivers opens).toMachine taskCurr (some volumes) file names =
      some (disk, .ok dir) →
    disk = some volumes ∧ Handled dir ∧ sIsdir dir.mode = true := by
  induction names with
  | nil =>
    intro file dir handled walked
    simp only [parentWalk] at walked
    split at walked
    · rename_i isDir
      cases walked
      exact ⟨rfl, handled, isDir⟩
    · cases walked
  | cons _ names ih =>
    intro file dir handled walked
    simp only [parentWalk] at walked
    split at walked
    · cases walked
    split at walked
    · cases walked
    split at walked
    · rename_i looked
      rcases callLookup_handled looked with ⟨sameDisk, handled⟩ | ⟨_, isEmpty⟩
      · subst sameDisk
        exact ih handled walked
      · subst isEmpty
        cases names <;> cases walked
    · cases walked
    · cases walked

theorem getParentDir_handled (roots : ∀ mount ∈ mounts, MountRoot mount.file) {path name : CStr}
    {dir : Inode} (found : getParentDir (allDrivers opens).toMachine mounts taskCurr (some volumes)
      path = some (disk, .ok (dir, name))) :
    disk = some volumes ∧ Handled dir ∧ sIsdir dir.mode = true ∧ name ≠ [] := by
  simp only [getParentDir] at found
  split at found
  · cases found
  rename_i root relat mounted
  rcases vfsGetmnt_mem mounted with ⟨mount, mem, isRoot⟩
  split at found
  · cases found
  rename_i last isLast
  split at found
  · rename_i walked
    cases found
    have handled : Handled root := isRoot ▸ (roots mount mem).handled
    rcases parentWalk_handled _ handled walked with ⟨sameDisk, handled, isDir⟩
    exact ⟨sameDisk, handled, isDir, (strtokAll_plain (List.mem_of_getLast? isLast)).1⟩
  · cases found
  · cases found

theorem allDrivers_rules : DirRules (allDrivers opens)
    (fun dev => dev = some volumes ∨ dev = none) (fun _ => True) (fun _ => False) where
  lookup := by
    rintro dev op _ _ (isDev | isDev)
    · subst isDev
      simp only [allDrivers]
      split
      · exact .inl rfl
      · exact .inl rfl
      · exact .inr rfl
    · subst isDev
      exact .inr rfl
  found := fun _ _ _ _ _ => trivial
  readlink := by
    rintro dev op _ n (isDev | isDev)
    · subst isDev
      simp only [allDrivers]
      split
      · exact .inl rfl
      · exact .inl rfl
      · exact .inr rfl
    · subst isDev
      exact .inr rfl
  openFile := fun _ _ _ holds => holds
  mknod := fun _ _ _ _ _ _ _ allowed => allowed.elim
  mkdir := fun _ _ _ _ _ _ allowed => allowed.elim
  unlink := fun _ _ _ allowed => allowed.elim
  symlink := fun _ _ _ allowed => allowed.elim
  link := fun _ _ _ _ allowed => allowed.elim

end Parents

end Micro.Fs
