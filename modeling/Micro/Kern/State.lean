import Micro.Kern.Types

/-!
# Kernel state and the machine below it

`Kernel` gathers the kernel's own tables.  What lies below the kernel — memory
contents, the frame allocator, block devices and the drivers behind the function
pointers — is a `Machine` over a state of its own.  Nothing is assumed about a
machine: every result quantifies over it.

Three components of `Kernel` record history and are never read by the code:
`opened` says which call of `open` an open file descends from, `transfers` lists
the calls made through `read` and `write` function pointers, and `events` what the
scheduler's step in progress has done to threads and tasks.
-/

namespace Micro.Kern

open Function

/-- Memory, allocators and drivers.  A load or store is `none` when the access
faults in kernel mode, where the fault handler panics. -/
structure Machine (σ : Type) where
  load : σ → VmMap → Nat → Option UInt8
  store : σ → VmMap → Nat → UInt8 → Option σ
  /-- Copy the contents of one physical frame to another. -/
  copyFrame : σ → Nat → Nat → σ
  mmuAllocPhys : σ → σ × Nat
  mmuFreePhys : σ → Nat → σ
  /-- Reserve one page of the kernel window. -/
  mmuKalloc : σ → σ × Nat
  kmalloc : σ → Nat → σ × Nat
  /-- The value returned and the inode left in the directory entry. -/
  lookup : FnPtr → σ → Inode → CStr → σ × Int × Inode
  mknod : FnPtr → σ → Inode → CStr → Nat → Nat → Nat → Nat → σ × Int
  /-- The count returned and the bytes placed in the buffer. -/
  readlink : FnPtr → σ → Inode → Nat → σ × Int × List UInt8
  /-- The value returned, the inode, and the operations left in the file. -/
  openFile : FnPtr → σ → Inode → File → σ × Int × Inode × FileOps
  release : FnPtr → σ → Inode → File → σ
  /-- Read into, or write from, the buffer at an address of the given map. -/
  read : FnPtr → σ → VmMap → Inode → File → Nat → Int → Nat → σ × Inode × Int
  write : FnPtr → σ → VmMap → Inode → File → Nat → Int → Nat → σ × Inode × Int

/-- A machine without memory, whose operations change nothing. -/
def Machine.idle (σ : Type) : Machine σ where
  load := fun _ _ _ => none
  store := fun _ _ _ _ => none
  copyFrame := fun dev _ _ => dev
  mmuAllocPhys := fun dev => (dev, 0)
  mmuFreePhys := fun dev _ => dev
  mmuKalloc := fun dev => (dev, 0)
  kmalloc := fun dev _ => (dev, 0)
  lookup := fun _ dev inode _ => (dev, 0, inode)
  mknod := fun _ dev _ _ _ _ _ _ => (dev, 0)
  readlink := fun _ dev _ _ => (dev, 0, [])
  openFile := fun _ dev inode file => (dev, 0, inode, file.ops)
  release := fun _ dev _ _ => dev
  read := fun _ dev _ inode _ _ _ _ => (dev, inode, 0)
  write := fun _ dev _ inode _ _ _ _ => (dev, inode, 0)

/-- How an open file came to be: the flags given to `open`, and whether
`vfs_checkperm` allowed the opening task to read and to write the inode. -/
structure Opened where
  flags : Nat
  readPerm : Bool
  writePerm : Bool
  deriving DecidableEq, Repr

/-- The direction of a transfer, from the user's point of view. -/
inductive IoKind where
  | read
  | write
  deriving DecidableEq, Repr

/-- One call of a `read` or `write` file operation. -/
structure Transfer where
  task : TaskId
  kind : IoKind
  file : FileId
  origin : Option Opened
  buf : Nat
  size : Nat
  moved : Int
  deriving DecidableEq, Repr

/-- What a step did to a thread or a task besides moving it around. -/
inductive Event where
  /-- The thread was sent into its handler for a signal. -/
  | entered (thread : ThreadId) (signo : Nat)
  /-- The default action of `SIGCONT` was taken for the thread. -/
  | continued (thread : ThreadId)
  /-- The task exited and had these children. -/
  | exited (task : TaskId) (children : List TaskId)
  /-- The task was given to `task_delete`. -/
  | reaped (task : TaskId)
  deriving DecidableEq, Repr

/-- The kernel's tables.  The `next…` fields are the first unused identifiers of
each kind of object, and `freed` lists the tasks given to `kfree`. -/
structure Kernel (σ : Type) where
  dev : σ
  mounts : List Mount
  inode : InodeId → Inode
  file : FileId → File
  task : TaskId → Task
  thread : ThreadId → Thread
  cpu : CpuId → Cpu
  tasks : List TaskId
  readyQueue : List ThreadId
  sPid : Nat
  nextInode : InodeId
  nextFile : FileId
  nextTask : TaskId
  nextThread : ThreadId
  freed : List TaskId
  opened : FileId → Option Opened
  transfers : List Transfer
  events : List Event

namespace Kernel

variable {σ : Type}

section

variable (kernel : Kernel σ)

/-- Assign fields of a task. -/
def setTask (task : TaskId) (change : Task → Task) : Kernel σ :=
  { kernel with task := Function.update kernel.task task (change (kernel.task task)) }

/-- Assign fields of a thread. -/
def setThread (thread : ThreadId) (change : Thread → Thread) : Kernel σ :=
  { kernel with thread := Function.update kernel.thread thread (change (kernel.thread thread)) }

/-- Assign fields of an open file. -/
def setFile (file : FileId) (change : File → File) : Kernel σ :=
  { kernel with file := Function.update kernel.file file (change (kernel.file file)) }

def setInode (inode : InodeId) (contents : Inode) : Kernel σ :=
  { kernel with inode := Function.update kernel.inode inode contents }

/-- Note what the step in progress has done. -/
def record (event : Event) : Kernel σ :=
  { kernel with events := kernel.events ++ [event] }

end

section Lookup

variable (kernel : Kernel σ)

@[simp] theorem setTask_task_self (task : TaskId) (change : Task → Task) :
    (kernel.setTask task change).task task = change (kernel.task task) :=
  update_self _ _ _

theorem setTask_task_of_ne {task other : TaskId} (change : Task → Task) (ne : other ≠ task) :
    (kernel.setTask task change).task other = kernel.task other :=
  update_of_ne ne _ _

theorem setTask_read {α : Type} (read : Task → α) (task : TaskId) (change : Task → Task)
    (kept : ∀ old, read (change old) = read old) (other : TaskId) :
    read ((kernel.setTask task change).task other) = read (kernel.task other) := by
  by_cases same : other = task
  · subst same
    rw [setTask_task_self, kept]
  · rw [setTask_task_of_ne _ _ same]

@[simp] theorem setThread_thread_self (thread : ThreadId) (change : Thread → Thread) :
    (kernel.setThread thread change).thread thread = change (kernel.thread thread) :=
  update_self _ _ _

theorem setThread_thread_of_ne {thread other : ThreadId} (change : Thread → Thread)
    (ne : other ≠ thread) :
    (kernel.setThread thread change).thread other = kernel.thread other :=
  update_of_ne ne _ _

@[simp] theorem setThread_task (thread : ThreadId) (change : Thread → Thread) :
    (kernel.setThread thread change).task = kernel.task := rfl

end Lookup

end Kernel

end Micro.Kern
