import Micro.Fs.Path
import Micro.Mm.Mmu

/-!
# Opening files

`sys_open` finds a free descriptor, opens or creates the file, checks the access
mode against the inode's permissions and installs a copy of the open file.  The
current task is the parent of the calling thread `self`.
-/

namespace Micro.Fs

open Kern Mm

variable {σ : Type}

/-- `O_RDONLY` or `O_RDWR` -/
def readMode (flags : Nat) : Bool := flags &&& 3 == 0 || flags &&& 3 == 2

/-- `O_WRONLY` or `O_RDWR` -/
def writeMode (flags : Nat) : Bool := flags &&& 3 == 1 || flags &&& 3 == 2

/-- The identifier of the calling thread's task. -/
def currentId (kernel : Kernel σ) (self : ThreadId) : TaskId := (kernel.thread self).parent

def current (kernel : Kernel σ) (self : ThreadId) : Task :=
  kernel.task (currentId kernel self)

/-- What `vfs_open` leaves behind.  `file` is `none` when resolving the path
failed and `*file` was not written. -/
structure VfsOpen (σ : Type) where
  kernel : Kernel σ
  ret : Int
  file : Option File

section

variable (machine : Machine σ) (kernel : Kernel σ)

def vfsOpen (taskCurr : Option Task) (path : CStr) (flags : Nat) : Option (VfsOpen σ) :=
  let id := kernel.nextInode
  let kernel := { kernel with nextInode := id + 1 }
  match vfsResolve machine kernel.mounts taskCurr (flags &&& 0o400000 == 0) kernel.dev path with
  | none => none
  | some (dev, .error e) => some ⟨{ kernel with dev }, e, none⟩
  | some (dev, .ok inode) =>
      let file : File := { inode := id, off := 0, flags, ops := inode.fops }
      match inode.fops.openFn with
      | some openFn =>
          let (dev, ret, inode, ops) := machine.openFile openFn dev inode file
          some ⟨({ kernel with dev }).setInode id inode, ret, some { file with ops }⟩
      | none => some ⟨({ kernel with dev }).setInode id inode, 0, some file⟩

def vfsClose (file : File) : Kernel σ :=
  match file.ops.release with
  | some release =>
      { kernel with dev := machine.release release kernel.dev (kernel.inode file.inode) file }
  | none => kernel

/-- `vfs_mknod`; the result of the driver's `mknod` is not looked at. -/
def vfsMknod (taskCurr : Option Task) (path : CStr) (mode dev uid gid : Nat) :
    Option (Kernel σ × Int) :=
  match getParentDir machine kernel.mounts taskCurr kernel.dev path with
  | none => none
  | some (disk, .error e) => some ({ kernel with dev := disk }, e)
  | some (disk, .ok (dir, name)) =>
      match dir.ops.mknod with
      | some mknod =>
          some ({ kernel with dev := (machine.mknod mknod disk dir name mode dev uid gid).1 }, 0)
      | none => some ({ kernel with dev := disk }, 0)

end

/-- The descriptor `do_sys_open` uses: the first free one from 3 on. -/
def openSlot (fds : Nat → Option FileId) : Option Nat :=
  (List.range 256).find? fun i => fds i = none ∧ 3 ≤ i

/-- `memdup` of an open file: a new object with the same contents.  The history
of the copy is given with it. -/
def memdupFile (kernel : Kernel σ) (file : File) (opened : Option Opened) : Kernel σ × FileId :=
  ({ kernel with
      file := Function.update kernel.file kernel.nextFile file
      opened := Function.update kernel.opened kernel.nextFile opened
      nextFile := kernel.nextFile + 1 },
    kernel.nextFile)

/-- Assign a slot of a task's descriptor table. -/
def setFd (kernel : Kernel σ) (task : TaskId) (slot : Nat) (file : Option FileId) : Kernel σ :=
  kernel.setTask task fun task => { task with fds := Function.update task.fds slot file }

/-- The end of `do_sys_open`: the permission checks for the access mode, then the
descriptor. -/
def grantFile (kernel : Kernel σ) (self : ThreadId) (slot : Nat) (file : File)
    (flags : Nat) : Kernel σ × Int :=
  let task := current kernel self
  let inode := kernel.inode file.inode
  if readMode flags ∧ vfsCheckperm (some task) inode 4 = -1 then (kernel, -eacces)
  else if writeMode flags ∧ vfsCheckperm (some task) inode 2 = -1 then (kernel, -eacces)
  else
    let opened : Opened :=
      { flags
        readPerm := vfsCheckperm (some task) inode 4 ≠ -1
        writePerm := vfsCheckperm (some task) inode 2 ≠ -1 }
    let copy := memdupFile kernel file (some opened)
    (setFd copy.1 (currentId kernel self) slot (some copy.2), slot)

/-- The branch of `do_sys_open` for a missing file.  The result of the second
`vfs_open` is ignored; `none` when it leaves `file` uninitialised. -/
def createFile (machine : Machine σ) (kernel : Kernel σ) (self : ThreadId) (slot : Nat)
    (stale : Option File) (path : CStr) (flags mode : Nat) : Option (Kernel σ × Int) := do
  let task := current kernel self
  let perms := mode &&& (0xffffffff ^^^ task.umask) ||| 0x8000
  let (kernel, e) ← vfsMknod machine kernel (some task) path perms 0 task.euid task.egid
  if e ≠ 0 then some (kernel, e)
  else
    let again ← vfsOpen machine kernel (some task) path flags
    let file ← again.file.or stale
    some (grantFile again.kernel self slot file flags)

def doSysOpen (machine : Machine σ) (kernel : Kernel σ) (self : ThreadId) (path : CStr)
    (flags mode : Nat) : Option (Kernel σ × Int) :=
  match openSlot (current kernel self).fds with
  | none => some (kernel, -emfile)
  | some slot => do
      let first ← vfsOpen machine kernel (some (current kernel self)) path flags
      if first.ret = -enoent then
        if flags &&& 0o100 = 0 then some (first.kernel, first.ret)
        else createFile machine first.kernel self slot first.file path flags mode
      else if flags &&& 0o200 ≠ 0 then some (first.kernel, -eexist)
      else if first.ret ≠ 0 then some (first.kernel, first.ret)
      else
        let file ← first.file
        some (grantFile first.kernel self slot file flags)

def ptrValid (kernel : Kernel σ) (self : ThreadId) (ptr : Nat) : Bool :=
  mmuVirt2phys (current kernel self).vmMap ptr ≠ 0

/-- `sys_open`, given the string stored at the user's pointer -/
def sysOpen (machine : Machine σ) (kernel : Kernel σ) (self : ThreadId) (ptr : Nat)
    (path : CStr) (flags mode : Nat) : Option (Kernel σ × Int) :=
  if ¬ ptrValid kernel self ptr then some (kernel, -efault)
  else if flags &&& 3 > 2 then some (kernel, -einval)
  else
    let canon := vfsMkcanon path (current kernel self).workd
    doSysOpen machine kernel self canon flags mode

end Micro.Fs
