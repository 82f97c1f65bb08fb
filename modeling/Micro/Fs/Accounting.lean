import Micro.Fs.ReadWrite
import Micro.Proc.Task

/-!
# Accounting for open files

The access mode of a descriptor is checked against the inode's permissions once,
when the file is opened.  This module follows the open file from there: through
descriptor copies and `fork`, up to the transfers made through it.
-/

namespace Micro.Fs

open Kern Proc Option Function

variable {id : FileId} {oldfd : Int} {dst : TaskId} {σ : Type} {kernel : Kernel σ}

/-- The access mode permits a transfer in the given direction. -/
def modeAllows : IoKind → Nat → Bool
  | .read, flags => readMode flags
  | .write, flags => writeMode flags

/-- `vfs_checkperm` succeeded at open for the given direction. -/
def permAllows : IoKind → Opened → Bool
  | .read, opened => opened.readPerm
  | .write, opened => opened.writePerm

/-- The file a transfer goes through was opened for its direction, with the
permission to do so. -/
def Lawful (transfer : Transfer) : Prop :=
  ∃ opened, transfer.origin = some opened ∧ modeAllows transfer.kind opened.flags ∧
    permAllows transfer.kind opened

/-! ## The bookkeeping invariant -/

/-- An open file whose recorded flags are the ones it carries, and whose access
mode was granted. -/
structure Granted (kernel : Kernel σ) (id : FileId) : Prop where
  allocated : id < kernel.nextFile
  recorded : ∃ opened, kernel.opened id = some opened ∧
    opened.flags = (kernel.file id).flags ∧
    ∀ kind, modeAllows kind opened.flags → permAllows kind opened

/-- Every descriptor refers to a granted file and every transfer so far was
lawful. -/
structure Accounted (kernel : Kernel σ) : Prop where
  granted : ∀ task slot id, (kernel.task task).fds slot = some id → Granted kernel id
  lawful : ∀ transfer ∈ kernel.transfers, Lawful transfer

/-- A step that leaves open files alone and adds no descriptor. -/
structure KeepsFiles (before after : Kernel σ) : Prop where
  file : after.file = before.file
  opened : after.opened = before.opened
  nextFile : after.nextFile = before.nextFile
  transfers : after.transfers = before.transfers
  fds : ∀ task slot id, (after.task task).fds slot = some id → (before.task task).fds slot = some id

namespace KeepsFiles

variable {before middle after : Kernel σ}

theorem dev {dev inode nextInode} : KeepsFiles kernel { kernel with dev, inode, nextInode } :=
  ⟨rfl, rfl, rfl, rfl, fun _ _ _ used => used⟩

theorem trans (first : KeepsFiles before middle) (second : KeepsFiles middle after) :
    KeepsFiles before after where
  file := second.file.trans first.file
  opened := second.opened.trans first.opened
  nextFile := second.nextFile.trans first.nextFile
  transfers := second.transfers.trans first.transfers
  fds task slot id used := first.fds task slot id (second.fds task slot id used)

theorem setTask (kernel : Kernel σ) (task : TaskId) (change : Task → Task)
    (same : ∀ contents, (change contents).fds = contents.fds) :
    KeepsFiles kernel (kernel.setTask task change) where
  file := rfl
  opened := rfl
  nextFile := rfl
  transfers := rfl
  fds other slot id used := by
    by_cases equal : other = task
    · subst other
      simpa [same] using used
    · simpa [Kernel.setTask, equal] using used

theorem setThread (kernel : Kernel σ) (thread : ThreadId) (change : Thread → Thread) :
    KeepsFiles kernel (kernel.setThread thread change) :=
  ⟨rfl, rfl, rfl, rfl, fun _ _ _ used => used⟩

theorem granted (keeps : KeepsFiles before after) (holds : Granted before id) :
    Granted after id where
  allocated := keeps.nextFile ▸ holds.allocated
  recorded := by
    rw [keeps.opened, keeps.file]
    exact holds.recorded

theorem accounted (keeps : KeepsFiles before after) (holds : Accounted before) :
    Accounted after where
  granted task slot id used :=
    keeps.granted (holds.granted task slot id (keeps.fds task slot id used))
  lawful := by
    rw [keeps.transfers]
    exact holds.lawful

end KeepsFiles

/-! ## Opening -/

variable {path : CStr} {file : File} {ret : Int} {next : Kernel σ} {machine : Machine σ}
  {flags mode slot : Nat} {taskCurr : Option Task} {task : TaskId} {self : ThreadId}

/-- Opening writes the flags it was given into the file and leaves the tables of
open files and descriptors alone. -/
theorem vfsOpen_spec {result : VfsOpen σ}
    (opens : vfsOpen machine kernel taskCurr path flags = some result) :
    KeepsFiles kernel result.kernel ∧ ∀ file, result.file = some file → file.flags = flags := by
  unfold vfsOpen at opens
  dsimp only at opens
  split at opens
  · cases opens
  · cases opens
    exact ⟨.dev, nofun⟩
  · split at opens
    · cases opens
      refine ⟨.dev, fun _ written => ?_⟩
      cases written
      rfl
    · cases opens
      refine ⟨.dev, fun _ written => ?_⟩
      cases written
      rfl

theorem vfsMknod_keeps {dev uid gid : Nat}
    (made : vfsMknod machine kernel taskCurr path mode dev uid gid = some (next, ret)) :
    KeepsFiles kernel next := by
  unfold vfsMknod at made
  split at made
  · cases made
  · cases made
    exact .dev
  · split at made
    · cases made
      exact .dev
    · cases made
      exact .dev

section

variable (holds : Accounted kernel)
include holds

theorem accounted_memdup {opened : Opened} (flags : opened.flags = file.flags)
    (grant : ∀ kind, modeAllows kind opened.flags → permAllows kind opened) :
    Accounted (setFd (memdupFile kernel file (some opened)).1 task slot
      (some (memdupFile kernel file (some opened)).2)) := by
  have fresh : Granted (memdupFile kernel file (some opened)).1 kernel.nextFile :=
    ⟨Nat.lt_succ_self _, opened, by simp [memdupFile], by simp [memdupFile, flags], grant⟩
  have old : ∀ id, Granted kernel id → Granted (memdupFile kernel file (some opened)).1 id := by
    intro id held
    have ne : id ≠ kernel.nextFile := Nat.ne_of_lt held.allocated
    refine ⟨Nat.lt_succ_of_lt held.allocated, ?_⟩
    simpa [memdupFile, ne] using held.recorded
  constructor
  · intro other otherSlot id used
    suffices Granted (memdupFile kernel file (some opened)).1 id from ⟨this.1, this.2⟩
    by_cases sameTask : other = task
    · subst other
      by_cases sameSlot : otherSlot = slot
      · subst otherSlot
        simp only [setFd, Kernel.setTask, update_self, some.injEq] at used
        subst used
        exact fresh
      · apply old
        apply holds.granted task otherSlot
        simpa [setFd, memdupFile, sameSlot] using used
    · apply old
      apply holds.granted other otherSlot
      simpa [setFd, Kernel.setTask, memdupFile, sameTask] using used
  · exact holds.lawful

theorem grantFile_accounted (carried : file.flags = flags) :
    Accounted (grantFile kernel self slot file flags).1 := by
  unfold grantFile
  dsimp only
  split
  · exact holds
  · rename_i readable
    split
    · exact holds
    · rename_i writable
      apply accounted_memdup holds carried.symm
      intro kind allowed
      cases kind with
      | read =>
        simp only [modeAllows] at allowed
        simpa [permAllows, allowed] using readable
      | write =>
        simp only [modeAllows] at allowed
        simpa [permAllows, allowed] using writable

theorem createFile_accounted {stale : Option File}
    (staleFlags : ∀ file, stale = some file → file.flags = flags)
    (created : createFile machine kernel self slot stale path flags mode = some (next, ret)) :
    Accounted next := by
  rcases bind_eq_some_iff.mp created with ⟨⟨_, e⟩, mknod, rest⟩
  have madeHolds := (vfsMknod_keeps mknod).accounted holds
  dsimp only at rest
  split at rest
  · cases rest
    exact madeHolds
  · rcases bind_eq_some_iff.mp rest with ⟨again, opens, rest⟩
    rcases bind_eq_some_iff.mp rest with ⟨file, chosen, rest⟩
    rcases vfsOpen_spec opens with ⟨keeps, againFlags⟩
    have carried : file.flags = flags := by
      rcases or_eq_some_iff.mp chosen with fromAgain | ⟨_, fromStale⟩
      · exact againFlags file fromAgain
      · exact staleFlags file fromStale
    have same : next = (grantFile again.kernel self slot file flags).1 := by
      rw [some.inj rest]
    rw [same]
    exact grantFile_accounted (keeps.accounted madeHolds) carried

theorem doSysOpen_accounted
    (opened : doSysOpen machine kernel self path flags mode = some (next, ret)) :
    Accounted next := by
  unfold doSysOpen at opened
  split at opened
  · cases opened
    exact holds
  · rename_i slot _
    rcases bind_eq_some_iff.mp opened with ⟨first, opens, rest⟩
    rcases vfsOpen_spec opens with ⟨keeps, carried⟩
    have firstHolds := keeps.accounted holds
    split at rest
    · split at rest
      · cases rest
        exact firstHolds
      · exact createFile_accounted firstHolds carried rest
    · split at rest
      · cases rest
        exact firstHolds
      · split at rest
        · cases rest
          exact firstHolds
        · rcases bind_eq_some_iff.mp rest with ⟨file, written, rest⟩
          have same : next = (grantFile first.kernel self slot file flags).1 := by
            rw [some.inj rest]
          rw [same]
          exact grantFile_accounted firstHolds (carried file written)

theorem sysOpen_accounted {ptr : Nat}
    (opened : sysOpen machine kernel self ptr path flags mode = some (next, ret)) :
    Accounted next := by
  unfold sysOpen at opened
  split at opened
  · cases opened
    exact holds
  · split at opened
    · cases opened
      exact holds
    · exact doSysOpen_accounted holds opened

end

/-! ## Copying descriptors -/

variable {parent src : TaskId} {thread : ThreadId}

section

variable (holds : Accounted kernel)
include holds

theorem fdValid_granted {fd : Int} (valid : fdValid kernel self fd = some id) :
    Granted kernel id := by
  unfold fdValid at valid
  split at valid
  · exact holds.granted _ _ _ valid
  · cases valid

theorem accounted_share (shared : Granted kernel id) :
    Accounted (setFd kernel task slot (some id)) := by
  constructor
  · intro other otherSlot otherId used
    suffices Granted kernel otherId from ⟨this.1, this.2⟩
    by_cases sameTask : other = task
    · subst other
      by_cases sameSlot : otherSlot = slot
      · subst otherSlot
        simp only [setFd, Kernel.setTask, update_self, some.injEq] at used
        exact used ▸ shared
      · apply holds.granted task otherSlot
        simpa [setFd, sameSlot] using used
    · apply holds.granted other otherSlot
      simpa [setFd, Kernel.setTask, sameTask] using used
  · exact holds.lawful

theorem sysDup_accounted : Accounted (sysDup kernel self oldfd).1 := by
  unfold sysDup
  split
  · exact holds
  · rename_i valid
    split
    · exact accounted_share holds (fdValid_granted holds valid)
    · exact holds

theorem sysDup2_accounted {newfd : Int} : Accounted (sysDup2 kernel self oldfd newfd).1 := by
  unfold sysDup2
  split
  · exact holds
  · rename_i valid
    split
    · exact accounted_share holds (fdValid_granted holds valid)
    · exact holds

end

theorem mktask_keeps (kernel : Kernel σ) (parent : Option TaskId) (map : VmMap) :
    KeepsFiles kernel (mktask kernel parent map).1 := by
  have created : KeepsFiles kernel { kernel with
      task := update kernel.task kernel.nextTask (newTask kernel.sPid parent map)
      sPid := kernel.sPid + 1
      nextTask := kernel.nextTask + 1 } := by
    refine ⟨rfl, rfl, rfl, rfl, fun task _ _ used => ?_⟩
    by_cases equal : task = kernel.nextTask
    · subst task
      simp [newTask] at used
    · simpa [equal] using used
  cases parent with
  | none => exact created
  | some parent => exact created.trans (.setTask _ _ _ fun _ => rfl)

theorem initThreadMeta_keeps (initialised : initThreadMeta machine kernel thread parent = some next) :
    KeepsFiles kernel next := by
  rcases bind_eq_some_iff.mp initialised with ⟨stack, _, rest⟩
  cases rest
  have devOnly : KeepsFiles kernel { kernel with dev := stack.1 } := .dev
  apply devOnly.trans
  apply KeepsFiles.trans _ (KeepsFiles.setThread _ _ _)
  apply KeepsFiles.setTask
  intro _
  rfl

theorem threadClone_keeps {src : ThreadId}
    (cloned : threadClone machine kernel parent src = some (next, thread)) :
    KeepsFiles kernel next := by
  rcases bind_eq_some_iff.mp cloned with ⟨_, initialised, rest⟩
  cases rest
  have allocated : KeepsFiles kernel (allocThread kernel (kernel.thread src)).1 :=
    ⟨rfl, rfl, rfl, rfl, fun _ _ _ used => used⟩
  exact allocated.trans (initThreadMeta_keeps initialised)

theorem schedStart_keeps (kernel : Kernel σ) (task : TaskId) :
    KeepsFiles kernel (schedStart kernel task) := by
  have listed : KeepsFiles kernel { kernel with tasks := kernel.tasks ++ [task] } :=
    ⟨rfl, rfl, rfl, rfl, fun _ _ _ used => used⟩
  apply List.foldlRecOn (motive := KeepsFiles kernel) _ _ listed
  exact fun _ kept _ _ => { kept with }

section

variable (holds : Accounted kernel)
include holds

theorem cloneFd_accounted : Accounted (cloneFd src dst kernel slot) := by
  unfold cloneFd
  split
  · rename_i file used
    rcases (holds.granted src slot file used).recorded with ⟨_, recorded, flags, grant⟩
    rw [recorded]
    exact accounted_memdup holds flags grant
  · exact holds

theorem cloneFds_accounted : Accounted (cloneFds kernel src dst) := by
  unfold cloneFds
  apply List.foldlRecOn (motive := Accounted) _ _ holds
  exact fun _ held _ _ => cloneFd_accounted held

theorem taskClone_accounted {child : TaskId} {calling : ThreadId}
    (cloned : taskClone machine kernel src calling = some (next, child)) : Accounted next := by
  rcases taskClone_inv cloned with ⟨copy, made, _, _, _, threaded, result⟩
  subst result
  have devOnly : KeepsFiles kernel { kernel with dev := copy.1 } := .dev
  have madeHolds : Accounted made :=
    (devOnly.trans ((mktask_keeps _ _ _).trans (threadClone_keeps threaded))).accounted holds
  apply KeepsFiles.accounted
  · apply KeepsFiles.setTask
    intro _
    rfl
  · apply cloneFds_accounted
    apply KeepsFiles.accounted _ madeHolds
    apply KeepsFiles.setTask
    intro _
    rfl

theorem sysFork_accounted (forked : sysFork machine kernel self = some (next, ret)) :
    Accounted next := by
  rcases bind_eq_some_iff.mp forked with ⟨⟨_, _⟩, cloned, rest⟩
  rcases bind_eq_some_iff.mp rest with ⟨_, regs, rest⟩
  cases rest
  apply (schedStart_keeps _ _).accounted
  unfold forkRegs at regs
  split at regs
  · cases regs
    exact (KeepsFiles.setThread _ _ _).accounted (taskClone_accounted holds cloned)
  · cases regs

end

/-! ## Transfers -/

variable {off : Int} {buf iov size : Nat}

/-- The open file was opened for the direction, with permission. -/
def Usable (kernel : Kernel σ) (kind : IoKind) (id : FileId) : Prop :=
  ∃ opened, kernel.opened id = some opened ∧ modeAllows kind opened.flags ∧ permAllows kind opened

theorem Granted.usable {kind : IoKind} (granted : Granted kernel id)
    (mode : modeAllows kind (kernel.file id).flags) : Usable kernel kind id := by
  rcases granted.recorded with ⟨opened, recorded, flags, grant⟩
  rw [← flags] at mode
  exact ⟨opened, recorded, mode, grant kind mode⟩

theorem accounted_setOff {off : File → Int} (holds : Accounted kernel) :
    Accounted (kernel.setFile id fun file => { file with off := off file }) := by
  refine ⟨fun task slot other used => ?_, holds.lawful⟩
  rcases holds.granted task slot other used with ⟨allocated, opened, recorded, flags, grant⟩
  refine ⟨allocated, opened, recorded, ?_, grant⟩
  by_cases equal : other = id
  · subst other
    simpa [Kernel.setFile] using flags
  · simpa [Kernel.setFile, equal] using flags

theorem callOp_accounted {kind : IoKind} {op : FnPtr} (holds : Accounted kernel)
    (usable : Usable kernel kind id) :
    Accounted (callOp machine kernel self kind op id buf off size).1 := by
  refine ⟨fun task slot other used => ?_, ?_⟩
  · rcases holds.granted task slot other used with ⟨allocated, recorded⟩
    exact ⟨allocated, recorded⟩
  · exact List.forall_mem_append.mpr ⟨holds.lawful, List.forall_mem_singleton.mpr usable⟩

theorem vfsTransfer_accounted (machine : Machine σ) (self : ThreadId) {kind : IoKind}
    (buf size : Nat) (holds : Accounted kernel) (usable : Usable kernel kind id) :
    Accounted (vfsTransfer machine kernel self kind id buf size).1 ∧
      Usable (vfsTransfer machine kernel self kind id buf size).1 kind id := by
  unfold vfsTransfer
  split
  · refine ⟨?_, usable⟩
    dsimp only
    apply accounted_setOff
    exact callOp_accounted holds usable
  · exact ⟨holds, usable⟩

section

variable (holds : Accounted kernel)
include holds

theorem vfsTransferAt_accounted {kind : IoKind} (usable : Usable kernel kind id) :
    Accounted (vfsTransferAt machine kernel self kind id buf size off).1 := by
  unfold vfsTransferAt
  split
  · exact callOp_accounted holds usable
  · exact holds

theorem vecLoop_accounted {kind : IoKind} {file : FileId} {count i : Nat} {bytes : Int}
    (usable : Usable kernel kind file) :
    Accounted (vecLoop machine self kind file iov count i bytes kernel).kernel := by
  induction count generalizing i bytes kernel with
  | zero => exact holds
  | succ count ih =>
    unfold vecLoop
    split
    · exact holds
    · split
      · exact holds
      · rename_i base len _
        split
        · exact holds
        · rcases vfsTransfer_accounted machine self base len holds usable with ⟨moved, stillUsable⟩
          dsimp only
          split
          · exact moved
          · exact ih moved stillUsable

theorem seekAppend_accounted : Accounted (seekAppend kernel id) := by
  unfold seekAppend
  split
  · apply accounted_setOff
    exact holds
  · exact holds

end

theorem seekAppend_usable {kind : IoKind} (usable : Usable kernel kind id) :
    Usable (seekAppend kernel id) kind id := by
  unfold seekAppend
  split
  · exact usable
  · exact usable

theorem ioCall_accounted {call : IoCall} (holds : Accounted kernel)
    (usable : ∀ id, fdValid kernel self call.fd = some id → Usable kernel call.kind id) :
    Accounted (ioCall machine kernel self call).kernel := by
  rcases ioCall_cases machine kernel self call with ⟨⟨_, ran⟩, _⟩ | ⟨id, valid, _, ran⟩
  · rw [ran]
    exact holds
  · rw [ran]
    have usable := usable id valid
    cases call with
    | read _ buf size => exact (vfsTransfer_accounted machine self buf size holds usable).1
    | pread | pwrite => exact vfsTransferAt_accounted holds usable
    | readv | writev => exact vecLoop_accounted holds usable
    | write _ buf size =>
      exact (vfsTransfer_accounted machine self buf size (seekAppend_accounted holds)
        (seekAppend_usable usable)).1

end Micro.Fs
