import Micro.Fs.Open

/-!
# Calls that change directories

The system calls that create, link and remove names.  Each finds the directory to change
with `get_parent_dir`, which checks that the directories on the way may be read, and hands
it to an operation of the driver.  None of them checks that the directory may be written.
-/

namespace Micro.Fs

open Kern

variable {σ : Type}

def eisdir : Int := 21

/-- A machine with the operations of drivers that change directories. -/
structure DirMachine (σ : Type) extends Machine σ where
  mkdir : FnPtr → σ → Inode → CStr → Nat → Nat → Nat → σ × Int
  unlink : FnPtr → σ → Inode → CStr → σ × Int
  symlink : FnPtr → σ → Inode → CStr → σ × Int
  /-- The inode, the name and the directory. -/
  link : FnPtr → σ → Inode → CStr → Inode → σ × Int

section Calls

variable (machine : DirMachine σ) (kernel : Kernel σ) (taskCurr : Option Task)

/-- Find the directory of a path with `get_parent_dir` and act on it. -/
def inParent (path : CStr) (act : σ → Inode → CStr → Option (σ × Int)) : Option (Kernel σ × Int) :=
  match getParentDir machine.toMachine kernel.mounts taskCurr kernel.dev path with
  | none => none
  | some (disk, .error e) => some ({ kernel with dev := disk }, e)
  | some (disk, .ok (dir, name)) =>
      (act disk dir name).map fun done => ({ kernel with dev := done.1 }, done.2)

/-- `vfs_mkdir`; the result of the driver's `mkdir` is not looked at. -/
def vfsMkdir (path : CStr) (mode uid gid : Nat) : Option (Kernel σ × Int) :=
  inParent machine kernel taskCurr path fun disk dir name =>
    match dir.ops.mkdir with
    | some mkdir => some ((machine.mkdir mkdir disk dir name mode uid gid).1, 0)
    | none => some (disk, 0)

def vfsDoUnlink (disk : σ) (dir : Inode) (name : CStr) : σ :=
  match dir.ops.unlink with
  | some unlink => (machine.unlink unlink disk dir name).1
  | none => disk

def vfsUnlink (path : CStr) : Option (Kernel σ × Int) :=
  inParent machine kernel taskCurr path fun disk dir name =>
    match vfsResolve machine.toMachine kernel.mounts taskCurr true disk path with
    | none => none
    | some (disk, .error e) => some (disk, e)
    | some (disk, .ok file) =>
        if sIsdir file.mode then some (disk, -eisdir)
        else some (vfsDoUnlink machine disk dir name, 0)

def vfsRmdir (path : CStr) : Option (Kernel σ × Int) :=
  inParent machine kernel taskCurr path fun disk dir name =>
    some (vfsDoUnlink machine disk dir name, 0)

/-- The checks of `vfs_access`: `R_OK`, `W_OK` and `X_OK` -/
def accessChecks (inode : Inode) (mode : Nat) : Int :=
  if mode &&& 4 ≠ 0 ∧ vfsCheckperm taskCurr inode 4 = -1 then -eacces
  else if mode &&& 2 ≠ 0 ∧ vfsCheckperm taskCurr inode 2 = -1 then -eacces
  else if mode &&& 1 ≠ 0 ∧ vfsCheckperm taskCurr inode 1 = -1 then -eacces
  else 0

def vfsAccess (path : CStr) (mode : Nat) : Option (Kernel σ × Int) := do
  let opened ← vfsOpen machine.toMachine kernel taskCurr path 0
  if opened.ret < 0 then some (opened.kernel, opened.ret)
  else
    let file ← opened.file
    some (opened.kernel, accessChecks taskCurr (opened.kernel.inode file.inode) mode)

def vfsLink (old new : CStr) : Option (Kernel σ × Int) :=
  match vfsResolve machine.toMachine kernel.mounts taskCurr true kernel.dev old with
  | none => none
  | some (disk, .error e) => some ({ kernel with dev := disk }, e)
  | some (disk, .ok file) =>
      inParent machine { kernel with dev := disk } taskCurr new fun disk dir name =>
        match file.ops.link with
        | some link => some (machine.link link disk file name dir)
        | none => some (disk, -enoent)

def vfsRename (old new : CStr) : Option (Kernel σ × Int) := do
  let linked ← vfsLink machine kernel taskCurr old new
  if linked.2 < 0 then some linked
  else
    inParent machine linked.1 taskCurr old fun disk dir name =>
      some (vfsDoUnlink machine disk dir name, 0)

/-- The end of `vfs_symlink`, after the node has been made. -/
def setTarget (target link : CStr) : Option (Kernel σ × Int) :=
  match vfsResolve machine.toMachine kernel.mounts taskCurr false kernel.dev link with
  | none => none
  | some (disk, .error e) => some ({ kernel with dev := disk }, e)
  | some (disk, .ok file) =>
      match file.ops.symlink with
      | some symlink =>
          let done := machine.symlink symlink disk file target
          some ({ kernel with dev := done.1 }, done.2)
      | none => some ({ kernel with dev := disk }, -enoent)

/-- `vfs_symlink`; the result of `vfs_mknod` is not looked at. -/
def vfsSymlink (target link : CStr) (uid gid : Nat) : Option (Kernel σ × Int) := do
  let found ← vfsAccess machine kernel taskCurr link 0
  if found.2 = 0 then some (found.1, -eexist)
  else
    let made ← vfsMknod machine.toMachine found.1 taskCurr link 0xa1ff 0 uid gid
    setTarget machine made.1 taskCurr target link

end Calls

/-- The system calls that change directories.  A path is given by the user's pointer and
the string stored there. -/
inductive DirCall where
  | mkdir (ptr : Nat) (path : CStr) (mode : Nat)
  | mknod (ptr : Nat) (path : CStr) (mode dev : Nat)
  | open (ptr : Nat) (path : CStr) (flags mode : Nat)
  | unlink (ptr : Nat) (path : CStr)
  | rmdir (ptr : Nat) (path : CStr)
  | link (oldPtr : Nat) (old : CStr) (newPtr : Nat) (new : CStr)
  | symlink (targetPtr : Nat) (target : CStr) (linkPtr : Nat) (link : CStr)
  | rename (oldPtr : Nat) (old : CStr) (newPtr : Nat) (new : CStr)

/-- The pointers a call checks with `PTRVALID` before anything else. -/
def DirCall.pointers : DirCall → List Nat
  | .mkdir ptr _ _ | .mknod ptr _ _ _ | .open ptr _ _ _ | .unlink ptr _ | .rmdir ptr _ => [ptr]
  | .link oldPtr _ newPtr _ | .symlink oldPtr _ newPtr _ | .rename oldPtr _ newPtr _ =>
      [oldPtr, newPtr]

/-- The system calls `sys_mkdir` to `sys_mknod`, and `sys_open`, with their pointers
checked.  `sys_mknod` does not make its path canonical. -/
def dirBody (machine : DirMachine σ) (kernel : Kernel σ) (self : ThreadId) :
    DirCall → Option (Kernel σ × Int) :=
  let task := current kernel self
  let canon := fun path => vfsMkcanon path task.workd
  fun
  | .mkdir _ path mode =>
      -- `sys_access(canon, F_OK)` is given a pointer to the kernel's stack, which its `PTRVALID`
      -- refuses (`mmu_virt2phys` is 0 outside of the user's half): it never returns 0, and
      -- there is no `-EEXIST`
      if canon path = [] then some (kernel, -enoent)
      else
        vfsMkdir machine kernel (some task) (canon path) (mode &&& (0xffffffff ^^^ task.umask))
          task.euid task.egid
  | .mknod _ path mode dev =>
      vfsMknod machine.toMachine kernel (some task) path mode dev task.euid task.egid
  | .open ptr path flags mode => sysOpen machine.toMachine kernel self ptr path flags mode
  | .unlink _ path => vfsUnlink machine kernel (some task) (canon path)
  | .rmdir _ path => vfsRmdir machine kernel (some task) (canon path)
  | .link _ old _ new => vfsLink machine kernel (some task) (canon old) (canon new)
  | .symlink _ target _ link =>
      vfsSymlink machine kernel (some task) target (canon link) task.euid task.egid
  | .rename _ old _ new => vfsRename machine kernel (some task) (canon old) (canon new)

/-- A system call of a thread. -/
def dirCall (machine : DirMachine σ) (kernel : Kernel σ) (self : ThreadId) (call : DirCall) :
    Option (Kernel σ × Int) :=
  if call.pointers.all (ptrValid kernel self) then dirBody machine kernel self call
  else some (kernel, -efault)

/-- The kernel after a call of the thread, if the call returns. -/
def dirStep (machine : DirMachine σ) (self : ThreadId) (kernel : Kernel σ) (call : DirCall) :
    Option (Kernel σ) :=
  (dirCall machine kernel self call).map Prod.fst

/-! ## The directories a call hands to a driver -/

section Handed

variable (machine : DirMachine σ) (kernel : Kernel σ) (taskCurr : Option Task)

/-- The directory `get_parent_dir` finds. -/
def parentOf (path : CStr) : List Inode :=
  match getParentDir machine.toMachine kernel.mounts taskCurr kernel.dev path with
  | some (_, .ok (dir, _)) => [dir]
  | _ => []

/-- The inode `vfs_symlink` finds to set the target of. -/
def madeLink (path : CStr) : List Inode :=
  match vfsResolve machine.toMachine kernel.mounts taskCurr false kernel.dev path with
  | some (_, .ok file) => [file]
  | _ => []

/-- The directory `vfs_link` adds a name to. -/
def linkParent (old new : CStr) : List Inode :=
  match vfsResolve machine.toMachine kernel.mounts taskCurr true kernel.dev old with
  | some (disk, .ok _) => parentOf machine { kernel with dev := disk } taskCurr new
  | _ => []

end Handed

/-- The directories in which a call makes or removes a name, as it finds them; and for
`symlink` the node it sets the target of. -/
def handed (machine : DirMachine σ) (kernel : Kernel σ) (self : ThreadId) : DirCall → List Inode :=
  let task := current kernel self
  let canon := fun path => vfsMkcanon path task.workd
  fun
  | .mkdir _ path _ =>
      if canon path = [] then [] else parentOf machine kernel (some task) (canon path)
  | .mknod _ path _ _ => parentOf machine kernel (some task) path
  | .open _ path flags _ =>
      match vfsOpen machine.toMachine kernel (some task) (canon path) flags with
      | some first =>
          if first.ret = -enoent ∧ flags &&& 0o100 ≠ 0 then
            parentOf machine first.kernel (some task) (canon path)
          else []
      | none => []
  | .unlink _ path => parentOf machine kernel (some task) (canon path)
  | .rmdir _ path => parentOf machine kernel (some task) (canon path)
  | .link _ old _ new => linkParent machine kernel (some task) (canon old) (canon new)
  | .symlink _ _ _ link =>
      match vfsAccess machine kernel (some task) (canon link) 0 with
      | some (kernel, e) =>
          if e = 0 then []
          else
            parentOf machine kernel (some task) (canon link) ++
              match vfsMknod machine.toMachine kernel (some task) (canon link) 0xa1ff 0
                task.euid task.egid with
              | some (kernel, _) => madeLink machine kernel (some task) (canon link)
              | none => []
      | none => []
  | .rename _ old _ new =>
      linkParent machine kernel (some task) (canon old) (canon new) ++
        match vfsLink machine kernel (some task) (canon old) (canon new) with
        | some (kernel, _) => parentOf machine kernel (some task) (canon old)
        | none => []

/-- The task may write the directories that the call hands over. -/
def writesAllowed (machine : DirMachine σ) (self : ThreadId) (kernel : Kernel σ)
    (call : DirCall) : Bool :=
  !call.pointers.all (ptrValid kernel self) || (handed machine kernel self call).all fun dir =>
      vfsCheckperm (some (current kernel self)) dir 2 ≠ -1

end Micro.Fs
