import Micro.Fs.Open
import Micro.Mm.VmMap

/-!
# Tasks and threads

Creating tasks and threads: from nothing for `exec` and kernel tasks, and as
copies for `fork`.
-/

namespace Micro.Proc

open Kern Mm Lib Fs

variable {σ : Type} {kernel : Kernel σ}

/-- The task `mktask` fills in, before it is linked to its parent. -/
def newTask (pid : Nat) (parent : Option TaskId) (vmMap : VmMap) : Task :=
  { pid
    pgid := 0
    sid := 0
    threads := []
    children := .create
    parent
    fds := fun _ => none
    main := none
    vmMap
    workd := [47]
    signals := fun _ => {}
    status := 0
    state := .running
    wasStop := false
    waiting := 0
    ruid := 0
    euid := 0
    rgid := 0
    egid := 0
    groups := []
    tracer := none
    umask := 0o022
    brk := 0 }

/-- A task with one more child. -/
def withChild (child : TaskId) (task : Task) : Task :=
  { task with children := task.children.enqueue child }

/-- `list_enqueue(&parent->children, child)` -/
def addChild (kernel : Kernel σ) (parent child : TaskId) : Kernel σ :=
  kernel.setTask parent (withChild child)

def mktask (kernel : Kernel σ) (parent : Option TaskId) (vmMap : VmMap) : Kernel σ × TaskId :=
  let id := kernel.nextTask
  let created := { kernel with
    task := Function.update kernel.task id (newTask kernel.sPid parent vmMap)
    sPid := kernel.sPid + 1
    nextTask := id + 1 }
  match parent with
  | some parent => (addChild created parent id, id)
  | none => (created, id)

section Mktask

variable {parent : TaskId} {map : VmMap}

@[simp] theorem mktask_snd (kernel : Kernel σ) (parent : Option TaskId) (map : VmMap) :
    (mktask kernel parent map).2 = kernel.nextTask := by
  cases parent <;> rfl

variable (different : parent ≠ kernel.nextTask)
include different

theorem mktask_child :
    (mktask kernel (some parent) map).1.task kernel.nextTask =
      newTask kernel.sPid (some parent) map :=
  (Kernel.setTask_task_of_ne _ _ (Ne.symm different)).trans (Function.update_self _ _ _)

theorem mktask_parent :
    (mktask kernel (some parent) map).1.task parent =
      withChild kernel.nextTask (kernel.task parent) :=
  (Kernel.setTask_task_self _ _ _).trans
    (congrArg (withChild kernel.nextTask) (Function.update_of_ne different _ _))

end Mktask

/-- The signal stack `init_thread_meta` adds to an address space: the machine
state, the map and the end of the new area. -/
def mapSigstack (machine : Machine σ) (dev : σ) (map : VmMap) : Option (σ × VmMap × Nat) := do
  let anon ← vmMapAnon map 0 0x1000 false
  let area ← anon.1.vmAreas.items[anon.2]?
  let mapped ← vmMapAnonAlloc machine dev anon.1 anon.2 area.base
    (subWord area.end_ area.base)
  pure (mapped.1, mapped.2, area.end_)

/-- The fields of a thread that `init_thread_meta` assigns. -/
def resetThread (parent : TaskId) (kstack sigstack : Nat) (thread : Thread) : Thread :=
  { thread with parent, state := .ready, kstack, sigqueue := [], sigmask := 0, sigstack }

def initThreadMeta (machine : Machine σ) (kernel : Kernel σ) (thread : ThreadId)
    (parent : TaskId) : Option (Kernel σ) := do
  let kstack := machine.mmuKalloc kernel.dev
  let frame := machine.mmuAllocPhys kstack.1
  let stack ← mapSigstack machine frame.1 (kernel.task parent).vmMap
  let kernel := ({ kernel with dev := stack.1 }).setTask parent fun task =>
    { task with vmMap := stack.2.1 }
  pure (kernel.setThread thread (resetThread parent (addWord kstack.2 0x1000) stack.2.2))

def allocThread (kernel : Kernel σ) (contents : Thread) : Kernel σ × ThreadId :=
  ({ kernel with
      thread := Function.update kernel.thread kernel.nextThread contents
      nextThread := kernel.nextThread + 1 },
    kernel.nextThread)

/-- `arch_init_thread` on a zeroed register file -/
def archInitThread (usr : Bool) : Regs :=
  { cs := if usr then 0x1b else 0x08
    ss := if usr then 0x23 else 0x10
    rflags := 0x202 }

def threadCreat (machine : Machine σ) (kernel : Kernel σ) (parent : TaskId) (entry : Nat)
    (usr : Bool) : Option (Kernel σ × ThreadId) := do
  let blank : Thread :=
    { state := .running, regs := archInitThread usr, parent := 0, kstack := 0,
      syscallRegs := {}, sigqueue := [], sigmask := 0, sigstack := 0 }
  let made := allocThread kernel blank
  let kernel ← initThreadMeta machine made.1 made.2 parent
  pure (kernel.setThread made.2 fun thread =>
    { thread with regs := { thread.regs with rip := entry } }, made.2)

def threadClone (machine : Machine σ) (kernel : Kernel σ) (parent : TaskId)
    (src : ThreadId) : Option (Kernel σ × ThreadId) := do
  let made := allocThread kernel (kernel.thread src)
  let kernel ← initThreadMeta machine made.1 made.2 parent
  pure (kernel, made.2)

/-- Copy one descriptor from a task to another. -/
def cloneFd (src dst : TaskId) (kernel : Kernel σ) (slot : Nat) : Kernel σ :=
  match (kernel.task src).fds slot with
  | some file =>
      let copy := memdupFile kernel (kernel.file file) (kernel.opened file)
      setFd copy.1 dst slot (some copy.2)
  | none => kernel

/-- The descriptor loop of `task_clone`. -/
@[irreducible] def cloneFds (kernel : Kernel σ) (src dst : TaskId) : Kernel σ :=
  (List.range 256).foldl (cloneFd src dst) kernel

/-- The assignments at the end of `task_clone`. -/
def inherit (src task : Task) : Task :=
  { task with
    workd := src.workd
    euid := src.euid
    egid := src.egid
    ruid := src.ruid
    rgid := src.rgid
    pgid := src.pgid
    sid := src.sid
    groups := src.groups
    signals := src.signals }

/-- `task->main = thread` together with `list_enqueue(&task->threads, task->main)` -/
def setMain (kernel : Kernel σ) (task : TaskId) (thread : ThreadId) : Kernel σ :=
  kernel.setTask task fun task =>
    { task with main := some thread, threads := task.threads ++ [thread] }

/-- The part of `task_clone` after the thread has been copied. -/
def inheritAll (kernel : Kernel σ) (src task : TaskId) (main : ThreadId) : Kernel σ :=
  let copied := cloneFds (setMain kernel task main) src task
  copied.setTask task (inherit (copied.task src))

def taskClone (machine : Machine σ) (kernel : Kernel σ) (src : TaskId)
    (calling : ThreadId) : Option (Kernel σ × TaskId) := do
  let copy := mmuCloneVmmap machine kernel.dev (kernel.task src).vmMap
  let made := mktask { kernel with dev := copy.1 } (some src) copy.2
  let threaded ← threadClone machine made.1 made.2 calling
  pure (inheritAll threaded.1 src made.2 threaded.2, made.2)

theorem taskClone_inv {machine : Machine σ} {next : Kernel σ} {src child : TaskId}
    {calling : ThreadId} (cloned : taskClone machine kernel src calling = some (next, child)) :
    ∃ copy made main,
      copy = mmuCloneVmmap machine kernel.dev (kernel.task src).vmMap ∧
      child = kernel.nextTask ∧
      threadClone machine (mktask { kernel with dev := copy.1 } (some src) copy.2).1 child
        calling = some (made, main) ∧
      next = inheritAll made src child main := by
  rcases Option.bind_eq_some_iff.mp cloned with ⟨⟨made, main⟩, threaded, rest⟩
  rcases Prod.mk.inj (Option.some.inj rest) with ⟨result, id⟩
  subst id
  exact ⟨_, made, main, rfl, rfl, threaded, result.symm⟩

def withState (state : ThreadState) (thread : Thread) : Thread := { thread with state }

/-- `thread->state = THREAD_DEAD` for every thread of a list -/
def killThreads (kernel : Kernel σ) (threads : List ThreadId) : Kernel σ :=
  threads.foldl (fun kernel thread => kernel.setThread thread (withState .dead)) kernel

def schedSpawnthread (kernel : Kernel σ) (thread : ThreadId) : Kernel σ :=
  let kernel := kernel.setThread thread (withState .ready)
  { kernel with readyQueue := kernel.readyQueue ++ [thread] }

def schedStart (kernel : Kernel σ) (task : TaskId) : Kernel σ :=
  let kernel := { kernel with tasks := kernel.tasks ++ [task] }
  (kernel.task task).threads.foldl schedSpawnthread kernel

theorem schedStart_single {task : TaskId} {thread : ThreadId}
    (threads : (kernel.task task).threads = [thread]) :
    schedStart kernel task =
      schedSpawnthread { kernel with tasks := kernel.tasks ++ [task] } thread := by
  unfold schedStart
  dsimp only
  rw [threads]
  rfl

/-- The registers with which a forked thread returns 0 to its process. -/
def withForkRegs (regs : Regs) (thread : Thread) : Thread :=
  { thread with regs := { regs with rax := 0 } }

/-- The registers `sys_fork` gives to the first thread of the child. -/
def forkRegs (kernel : Kernel σ) (child : TaskId) (regs : Regs) : Option (Kernel σ) :=
  match (kernel.task child).threads with
  | thread :: _ => some (kernel.setThread thread (withForkRegs regs))
  | [] => none

def sysFork (machine : Machine σ) (kernel : Kernel σ) (self : ThreadId) :
    Option (Kernel σ × Int) := do
  let cloned ← taskClone machine kernel (currentId kernel self) self
  let ready ← forkRegs cloned.1 cloned.2 (kernel.thread self).syscallRegs
  let started := schedStart ready cloned.2
  pure (started, (started.task cloned.2).pid)

/-! ## A small kernel, to evaluate the model on -/

/-- A kernel with one unprivileged task and one mapped user page at `0x1000`. -/
def oneTaskOn (dev : σ) (mounts : List Mount) : Kernel σ where
  dev := dev
  mounts := mounts
  inode := fun _ => {}
  file := fun _ => {}
  task := fun _ =>
    { newTask 1 none
        { pml4Phys := 0, pdptPhys := 0, physPds := fun _ => 0, pds := fun _ _ => 7
          pts := fun _ _ => some fun page => if page = 1 then 0x5007 else 0
          vmAreas := .create } with
      euid := 1000, egid := 1000 }
  thread := fun _ =>
    { state := .running, regs := {}, parent := 0, kstack := 0, syscallRegs := {},
      sigqueue := [], sigmask := 0, sigstack := 0 }
  cpu := fun _ => { current := some 0, idle := 0 }
  tasks := [0]
  readyQueue := []
  sPid := 2
  nextInode := 0
  nextFile := 0
  nextTask := 1
  nextThread := 1
  freed := []
  opened := fun _ => none
  transfers := []
  events := []

/-- One task, with one mounted directory. -/
def oneTask : Kernel Unit :=
  oneTaskOn () [⟨[47], { mode := 0x4005, ops := { lookup := some 0 } }⟩]

/-- A machine whose directories all hold one file of 4096 zero bytes, and whose transfers move
all the bytes asked for.  Nothing is mapped at the null pointer. -/
def oneFile (mode : Nat) : Machine Unit where
  __ := Machine.idle _
  load := fun _ _ addr => if addr < 0x1000 then none else some 0
  store := fun _ _ addr _ => if addr < 0x1000 then none else some ()
  mmuAllocPhys := fun _ => ((), 0x100000)
  mmuKalloc := fun _ => ((), 0xffffff8000200000)
  kmalloc := fun _ _ => ((), 0xffffff8000100000)
  lookup := fun _ _ _ _ =>
    ((), 0,
      { mode := 0x8000 ||| mode, size := 4096, fops := { read := some 1, write := some 2 } })
  read := fun _ _ _ inode _ _ _ size => ((), inode, size)
  write := fun _ _ _ inode _ _ _ size => ((), inode, size)

end Micro.Proc
