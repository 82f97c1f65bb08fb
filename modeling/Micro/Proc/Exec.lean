import Micro.Proc.Elf
import Micro.Proc.Task

/-!
# `exec`

`do_exec` opens and reads the file, then tears down the old address space and
builds the new one.  The two halves are `loadImage` and `replaceImage`; the check
that stands between them in the source lets every image through, because
`elf_valid` never returns a negative value.
-/

namespace Micro.Proc

open Kern Mm Lib Fs Option

variable {σ : Type}

/-- How the first half of `do_exec` ends. -/
inductive Image (σ : Type) where
  | refused (kernel : Kernel σ) (error : Int)
  | read (kernel : Kernel σ) (data : Nat)

/-- `vfs_read` and `vfs_close` on the open file on the kernel's stack -/
def readImage (machine : Machine σ) (kernel : Kernel σ) (map : VmMap) (file : File)
    (data size : Nat) : Kernel σ :=
  let done := match file.ops.read with
    | some read =>
        let done := machine.read read kernel.dev map (kernel.inode file.inode) file data
          file.off size
        (({ kernel with dev := done.1 }).setInode file.inode done.2.1, done.2.2)
    | none => (kernel, 0)
  vfsClose machine done.1 { file with off := wrapSigned (file.off + done.2) }

/-- `do_exec` up to `vfs_close`: the image in a kernel buffer, or the error that is
returned. -/
def loadImage (machine : Machine σ) (kernel : Kernel σ) (taskCurr : Option Task)
    (task : TaskId) (path : CStr) : Option (Image σ) := do
  let opened ← vfsOpen machine kernel taskCurr path 0
  if opened.ret < 0 then some (.refused opened.kernel opened.ret)
  else
    let elf ← opened.file
    let inode := opened.kernel.inode elf.inode
    if ¬ sIsreg inode.mode then some (.refused opened.kernel (-8))
    else
      let data := machine.kmalloc opened.kernel.dev inode.size
      some (.read (readImage machine { opened.kernel with dev := data.1 }
        (kernel.task task).vmMap elf data.2 inode.size) data.2)

/-- `thread_free` on every thread of a task, and `list_clear` -/
def freeThreads (kernel : Kernel σ) (task : TaskId) : Kernel σ :=
  (killThreads kernel (kernel.task task).threads).setTask task fun task =>
    { task with threads := [] }

/-- The registers of the new main thread before the stack is set up. -/
def entryRegs (entry : Nat) (thread : Thread) : Thread :=
  { thread with
    regs := { thread.regs with rsp := 0x8000000000, rbp := 0x8000000000, rip := entry } }

/-- `do_exec` from `mmu_destroy_vmmap` on -/
def replaceImage (machine : Machine σ) (kernel : Kernel σ) (task : TaskId) (data : Nat)
    (argv envp : List CStr) : Option (Kernel σ × Int) := do
  let created := mmuCreateVmmap machine
    (mmuDestroyVmmap machine kernel.dev (kernel.task task).vmMap)
  let anon ← vmMapAnon created.2 (0x8000000000 - 0x16000) 0x16000 false
  let area ← anon.1.vmAreas.items[anon.2]?
  let stack ← vmMapAnonAlloc machine created.1 anon.1 anon.2 (subWord area.end_ 0x1000) 0x1000
  let image ← elfLoad machine stack.1 stack.2 data
  let mapped := ({ kernel with dev := image.1.dev }).setTask task fun task =>
    { task with vmMap := image.1.map }
  let threaded ← threadCreat machine (freeThreads mapped task) task 0 true
  let entered := (setMain threaded.1 task threaded.2).setThread threaded.2 (entryRegs image.2)
  let ready := entered.setTask task fun task => { task with brk := image.1.brk }
  let user ← setupUserStack machine ready.dev (ready.task task) 0x8000000000 argv envp
  pure (({ ready with dev := user.dev }).setThread threaded.2 fun thread =>
    { thread with regs := { thread.regs with rsp := user.rsp, rdi := user.rsp } }, 0)

/-- `TRY(elf_valid(data))`: the error returned, if the value is negative. -/
def tryElfValid (valid : Bool) : Option Int :=
  let e : Int := if valid then 1 else 0
  if e < 0 then some e else none

def doExec (machine : Machine σ) (kernel : Kernel σ) (taskCurr : Option Task)
    (task : TaskId) (path : CStr) (argv envp : List CStr) : Option (Kernel σ × Int) := do
  match ← loadImage machine kernel taskCurr task path with
  | .refused kernel error => some (kernel, error)
  | .read kernel data =>
      let valid ← elfValid machine kernel.dev (kernel.task task).vmMap data
      match tryElfValid valid with
      | some e => some (kernel, e)
      | none => replaceImage machine kernel task data argv envp

/-! ## Failure -/

variable {path : CStr} {ret : Int} {kernel next : Kernel σ} {machine : Machine σ} {data : Nat}
  {taskCurr : Option Task} {task : TaskId}

/-- The file at the path was opened, is regular, and its bytes pass `elf_valid`. -/
def ValidImage (machine : Machine σ) (kernel : Kernel σ) (taskCurr : Option Task)
    (task : TaskId) (path : CStr) : Prop :=
  ∃ next data, loadImage machine kernel taskCurr task path = some (.read next data) ∧
    elfValid machine next.dev (next.task task).vmMap data = some true

/-- The process a task runs is the same: its address space, its threads, the
registers of its main thread and its break. -/
structure SameImage (task : TaskId) (before after : Kernel σ) : Prop where
  vmMap : (after.task task).vmMap = (before.task task).vmMap
  threads : (after.task task).threads = (before.task task).threads
  main : (after.task task).main = (before.task task).main
  regs : ∀ thread, (before.task task).main = some thread →
    (after.thread thread).regs = (before.thread thread).regs
  brk : (after.task task).brk = (before.task task).brk

/-- Without a valid image `do_exec` fails and leaves the process alone, and only a
valid image replaces the address space. -/
def ExecFailureAtomic (machine : Machine σ) (kernel : Kernel σ) (taskCurr : Option Task)
    (task : TaskId) (path : CStr) (argv envp : List CStr) : Prop :=
  (¬ ValidImage machine kernel taskCurr task path →
    ∃ next error, doExec machine kernel taskCurr task path argv envp = some (next, error) ∧
      error < 0 ∧ SameImage task kernel next) ∧
  ∀ next ret, doExec machine kernel taskCurr task path argv envp = some (next, ret) →
    (next.task task).vmMap ≠ (kernel.task task).vmMap →
    ValidImage machine kernel taskCurr task path

/-- Opening the path does not fault, and if it gives a regular file, the file's
bytes pass `elf_valid`. -/
def NoInvalidImage (machine : Machine σ) (kernel : Kernel σ) (taskCurr : Option Task)
    (task : TaskId) (path : CStr) : Prop :=
  match loadImage machine kernel taskCurr task path with
  | none => False
  | some (.refused _ _) => True
  | some (.read next data) => elfValid machine next.dev (next.task task).vmMap data = some true

theorem vfsOpen_tasks {flags : Nat} {opened : VfsOpen σ}
    (opens : vfsOpen machine kernel taskCurr path flags = some opened) :
    opened.kernel.task = kernel.task ∧ opened.kernel.thread = kernel.thread := by
  unfold vfsOpen at opens
  dsimp only at opens
  split at opens
  · cases opens
  · cases opens
    exact ⟨rfl, rfl⟩
  · split at opens
    · cases opens
      exact ⟨rfl, rfl⟩
    · cases opens
      exact ⟨rfl, rfl⟩

theorem loadImage_refused {error : Int}
    (refused : loadImage machine kernel taskCurr task path = some (.refused next error)) :
    error < 0 ∧ next.task = kernel.task ∧ next.thread = kernel.thread := by
  rcases bind_eq_some_iff.mp refused with ⟨_, opens, rest⟩
  split at rest
  · rename_i negative
    cases rest
    exact ⟨negative, vfsOpen_tasks opens⟩
  · rcases bind_eq_some_iff.mp rest with ⟨_, _, rest⟩
    dsimp only at rest
    split at rest
    · cases rest
      exact ⟨by decide, vfsOpen_tasks opens⟩
    · cases rest

theorem replaceImage_ret {argv envp : List CStr}
    (replaced : replaceImage machine kernel task data argv envp = some (next, ret)) : ret = 0 := by
  rcases bind_eq_some_iff.mp replaced with ⟨_, _, rest⟩
  rcases bind_eq_some_iff.mp rest with ⟨_, _, rest⟩
  rcases bind_eq_some_iff.mp rest with ⟨_, _, rest⟩
  rcases bind_eq_some_iff.mp rest with ⟨_, _, rest⟩
  rcases bind_eq_some_iff.mp rest with ⟨_, _, rest⟩
  rcases bind_eq_some_iff.mp rest with ⟨_, _, rest⟩
  exact (Prod.mk.inj (some.inj rest)).2.symm

theorem doExec_ret_of_read {image : Kernel σ} {argv envp : List CStr}
    (read : loadImage machine kernel taskCurr task path = some (.read image data))
    (ran : doExec machine kernel taskCurr task path argv envp = some (next, ret)) : ret = 0 := by
  simp only [doExec, read, bind_eq_bind, bind_some] at ran
  rcases bind_eq_some_iff.mp ran with ⟨valid, _, rest⟩
  have passes : tryElfValid valid = none := by
    cases valid <;> rfl
  rw [passes] at rest
  exact replaceImage_ret rest

/-- `exec` fails atomically exactly when no regular file that fails `elf_valid` is
opened. -/
theorem exec_failure_atomic_iff (machine : Machine σ) (kernel : Kernel σ)
    (taskCurr : Option Task) (task : TaskId) (path : CStr) (argv envp : List CStr) :
    ExecFailureAtomic machine kernel taskCurr task path argv envp ↔
      NoInvalidImage machine kernel taskCurr task path := by
  unfold NoInvalidImage
  cases loaded : loadImage machine kernel taskCurr task path with
  | none =>
    -- The fault leaves no kernel that could return an error.
    refine ⟨fun atomic => ?_, False.elim⟩
    have invalid : ¬ ValidImage machine kernel taskCurr task path := by
      rintro ⟨next, data, read, _⟩
      rw [loaded] at read
      cases read
    rcases atomic.1 invalid with ⟨next, error, returned, _, _⟩
    simp [doExec, loaded] at returned
  | some image =>
    cases image with
    | refused next error =>
      rcases loadImage_refused loaded with ⟨negative, sameTasks, sameThreads⟩
      have returned : doExec machine kernel taskCurr task path argv envp = some (next, error) := by
        simp [doExec, loaded]
      have same : SameImage task kernel next := by
        constructor <;> simp [sameTasks, sameThreads]
      refine ⟨fun _ => trivial, fun _ => ⟨fun _ => ⟨next, error, returned, negative, same⟩, ?_⟩⟩
      intro after _ returnedAfter changed
      rw [returned] at returnedAfter
      have equal : next = after := (Prod.mk.inj (some.inj returnedAfter)).1
      subst equal
      exact absurd same.vmMap changed
    | read image data =>
      constructor
      · intro atomic
        by_contra invalid
        have noImage : ¬ ValidImage machine kernel taskCurr task path := by
          rintro ⟨next, _, read, valid⟩
          rw [loaded] at read
          cases read
          exact invalid valid
        rcases atomic.1 noImage with ⟨next, error, returned, negative, _⟩
        rw [doExec_ret_of_read loaded returned] at negative
        exact absurd negative (by decide)
      · intro valid
        have image : ValidImage machine kernel taskCurr task path := ⟨image, data, loaded, valid⟩
        exact ⟨fun invalid => absurd image invalid, fun _ _ _ _ => image⟩

/-- A regular file whose bytes are all zero is not refused: the old address space
is gone by the time anything could fail. -/
theorem exec_of_zeros : ¬ ExecFailureAtomic (oneFile 0) oneTask (some (oneTask.task 0)) 0
    [47, 102] [] [] := by
  have observed : ((loadImage (oneFile 0) oneTask (some (oneTask.task 0)) 0 [47, 102]).bind fun
        | .refused _ _ => none
        | .read next data => elfValid (oneFile 0) next.dev (next.task 0).vmMap data) =
      some false := by
    decide +kernel
  rcases bind_eq_some_iff.mp observed with ⟨image, loaded, invalid⟩
  cases image with
  | refused next error => cases invalid
  | read next data =>
    intro atomic
    have noImage : ¬ ValidImage (oneFile 0) oneTask (some (oneTask.task 0)) 0 [47, 102] := by
      rintro ⟨_, _, read, valid⟩
      rw [loaded] at read
      cases read
      cases valid.symm.trans invalid
    rcases atomic.1 noImage with ⟨_, error, returned, negative, _⟩
    rw [doExec_ret_of_read loaded returned] at negative
    exact absurd negative (by decide)

end Micro.Proc
