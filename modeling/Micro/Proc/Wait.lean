import Micro.Proc.Exec
import Micro.Proc.Sched

/-!
# Waiting for children

`waitpid` looks for a child whose state has changed, stores the child's status,
frees the child if it is dead, and otherwise blocks.  A call that blocks is cut in
two: what it does before `thread_block`, and what it does when the thread runs
again, with a `WaitFrame` for what the kernel stack remembers in between.

`System` is the kernel together with these frames, and `procCall` a step of it: a
system call about processes, or a tick of the timer.
-/

namespace Micro.Proc

open Kern Mm Fs Option

variable {σ : Type}

/-! ## Reporting and reaping -/

def withWasStop (latch : Bool) (task : Task) : Task := { task with wasStop := latch }

def hasChildChanged (kernel : Kernel σ) (child : TaskId) : Kernel σ × Bool :=
  match (kernel.task child).state with
  | .dead => (kernel, true)
  | .stopped =>
      if (kernel.task child).wasStop then (kernel, false)
      else (kernel.setTask child (withWasStop true), true)
  | .running =>
      if (kernel.task child).wasStop then (kernel.setTask child (withWasStop false), true)
      else (kernel, false)

/-- Take a task out of the children of its parent; the index is past the end, and
nothing is removed, if it is not there. -/
def unlinkChild (kernel : Kernel σ) (task : TaskId) : Kernel σ :=
  match (kernel.task task).parent with
  | some parent =>
      let children := (kernel.task parent).children
      kernel.setTask parent (withChildren (children.remove (children.items.idxOf task)))
  | none => kernel

/-- `mmu_destroy_vmmap(task->vm_map)` and `kfree(task)` -/
def freeTask (machine : Machine σ) (kernel : Kernel σ) (task : TaskId) : Kernel σ :=
  { kernel with
    dev := mmuDestroyVmmap machine kernel.dev (kernel.task task).vmMap
    freed := kernel.freed ++ [task] }.record (.reaped task)

def taskDelete (machine : Machine σ) (kernel : Kernel σ) (task : TaskId) : Kernel σ :=
  freeTask machine (unlinkChild kernel task) task

def intBytes (value : Int) : List UInt8 :=
  (List.range 4).map fun i => UInt8.ofNat ((value % 2 ^ 32).toNat / 256 ^ i)

/-- `if (wstatus) *wstatus = child->status` -/
def storeStatus (machine : Machine σ) (kernel : Kernel σ) (caller : TaskId) (wstatus : Nat)
    (child : TaskId) : Option σ :=
  if wstatus = 0 then some kernel.dev
  else storeBytes machine (kernel.task caller).vmMap kernel.dev wstatus
    (intBytes (kernel.task child).status)

/-- The code that `wait_any_child` and `wait_child` share: store the status, free the
child if it is dead, and return its pid. -/
def reportChild (machine : Machine σ) (kernel : Kernel σ) (caller : TaskId) (wstatus : Nat)
    (child : TaskId) : Option (Kernel σ × Int) := do
  let dev ← storeStatus machine kernel caller wstatus child
  let stored := { kernel with dev }
  if (stored.task child).state = .dead then
    pure (taskDelete machine stored child, (stored.task child).pid)
  else pure (stored, (stored.task child).pid)

/-- The loop of `wait_any_child` over the children still to be looked at. -/
def scanChildren (machine : Machine σ) (caller : TaskId) (wstatus : Nat) :
    List TaskId → Kernel σ → Option (Kernel σ × Option (TaskId × Int))
  | [], kernel => some (kernel, none)
  | child :: rest, kernel =>
      let changed := hasChildChanged kernel child
      if changed.2 then
        (reportChild machine changed.1 caller wstatus child).map fun done =>
          (done.1, some (child, done.2))
      else scanChildren machine caller wstatus rest changed.1

/-! ## `waitpid` -/

/-- What a blocked call of `waitpid` has on its stack. -/
inductive WaitFrame where
  | any (wstatus : Nat)
  | child (wstatus : Nat) (child : TaskId)
  deriving DecidableEq, Repr

/-- How far `waitpid` gets: it returns, having reported a child or not, or it blocks. -/
inductive WaitResult (σ : Type) where
  | returned (kernel : Kernel σ) (ret : Int) (child : Option TaskId)
  | blocks (kernel : Kernel σ) (frame : WaitFrame)

section

variable (machine : Machine σ) (kernel : Kernel σ)

/-- `wait_any_child` up to `thread_block` -/
def waitAnyChild (caller : TaskId) (wstatus : Nat) (options : Int) : Option (WaitResult σ) := do
  let scanned ← scanChildren machine caller wstatus (kernel.task caller).children.items kernel
  match scanned.2 with
  | some found => some (.returned scanned.1 found.2 (some found.1))
  | none =>
      if options.toNat &&& 1 ≠ 0 then some (.returned scanned.1 0 none)
      else some (.blocks (scanned.1.setTask caller (withWaiting (-1))) (.any wstatus))

/-- `wait_child` up to `thread_block` -/
def waitChild (caller child : TaskId) (wstatus : Nat) (options : Int) : Option (WaitResult σ) :=
  let changed := hasChildChanged kernel child
  if changed.2 then
    (reportChild machine changed.1 caller wstatus child).map fun done =>
      .returned done.1 done.2 (some child)
  else if options.toNat &&& 1 ≠ 0 then some (.returned changed.1 0 none)
  else some (.blocks
    (changed.1.setTask caller (withWaiting (changed.1.task child).pid)) (.child wstatus child))

/-- `sys_waitpid` up to `thread_block` -/
def sysWaitpid (self : ThreadId) (pid : Int) (wstatus : Nat) (options : Int) :
    Option (WaitResult σ) :=
  if wstatus ≠ 0 ∧ ¬ ptrValid kernel self wstatus then some (.returned kernel (-efault) none)
  else if options > 3 ∨ options < 0 then some (.returned kernel (-einval) none)
  else if pid > 0 then
    match schedTaskFromid kernel pid with
    | none => some (.returned kernel (-10) none)
    | some child => waitChild machine kernel (currentId kernel self) child wstatus options
  else if pid = -1 then waitAnyChild machine kernel (currentId kernel self) wstatus options
  else some (.returned kernel 0 none)

/-- The rest of a call that blocked: the kernel, the value returned and the task whose
pid it is. -/
def waitResume (caller : TaskId) :
    WaitFrame → Option (Kernel σ × Int × Option TaskId)
  | .any wstatus =>
      let woken := kernel.setTask caller (withWaiting 0)
      (scanChildren machine caller wstatus (woken.task caller).children.items woken).map
        fun scanned => match scanned.2 with
          | some found => (scanned.1, found.2, some found.1)
          | none => (scanned.1, 0, none)
  | .child _ child =>
      let woken := kernel.setTask caller (withWaiting 0)
      some (woken, (woken.task child).pid, some child)

end

/-! ## `execve` -/

/-- `sys_execve`, given the strings stored at the user's pointers.  The arrays for the
copies hold sixteen pointers, the terminator included. -/
def sysExecve (machine : Machine σ) (fuel : Nat) (kernel : Kernel σ) (cpu : CpuId)
    (regs : Regs) (self : ThreadId) (ptrs : Nat × Nat × Nat) (path : CStr)
    (argv envp : List CStr) : Option (Kernel σ × Int) :=
  if ¬ (ptrValid kernel self ptrs.1 ∧ ptrValid kernel self ptrs.2.1 ∧
      ptrValid kernel self ptrs.2.2) then some (kernel, -efault)
  else if 16 ≤ argv.length ∨ 16 ≤ envp.length then none
  else do
    let canon := vfsMkcanon path (current kernel self).workd
    let done ← doExec machine kernel (some (current kernel self)) (currentId kernel self)
      canon argv envp
    if done.2 < 0 then some done
    else
      let switched ← switchTask machine fuel (schedStart done.1 (currentId kernel self)) cpu regs
      pure (switched, 0)

/-! ## The system -/

/-- The kernel, the calls of `waitpid` that have blocked, and, as history, the state of
each task when it was last reported to its parent. -/
structure System (σ : Type) where
  kernel : Kernel σ
  frames : ThreadId → Option WaitFrame
  reported : TaskId → TaskState

/-- A return of `waitpid`. -/
structure Report where
  caller : TaskId
  wstatus : Nat
  ret : Int
  child : Option TaskId
  deriving DecidableEq, Repr

/-- System calls about processes, and the timer. -/
inductive ProcCall where
  | tick (regs : Regs)
  | fork
  | execve (regs : Regs) (ptrs : Nat × Nat × Nat) (path : CStr) (argv envp : List CStr)
  | exit (stat : Int)
  | waitpid (regs : Regs) (pid : Int) (wstatus : Nat) (options : Int)
  | resume
  | kill (regs : Regs) (pid sig : Int)
  | ptrace (regs : Regs) (req : PtraceReq) (pid : Int)

namespace System

/-- Replace the kernel, at a step that reports nothing. -/
def run (system : System σ) (kernel : Kernel σ) : System σ × Option Report :=
  ({ system with kernel }, none)

/-- Replace the kernel, at a return of `waitpid`. -/
def report (system : System σ) (kernel : Kernel σ) (report : Report) : System σ × Option Report :=
  ({ system with
      kernel
      reported := match report.child with
        | some child =>
            Function.update system.reported child (system.kernel.task child).state
        | none => system.reported },
    some report)

/-- The thread that makes a system call: the current one, unless it is in the middle of
one. -/
def calling (system : System σ) (cpu : CpuId) : Option ThreadId :=
  (system.kernel.cpu cpu).current.filter fun self => (system.frames self).isNone

end System

/-- `sys_waitpid` as a step. -/
def waitpidCall (machine : Machine σ) (fuel : Nat) (system : System σ) (cpu : CpuId)
    (regs : Regs) (self : ThreadId) (pid : Int) (wstatus : Nat) (options : Int) :
    Option (System σ × Option Report) := do
  match ← sysWaitpid machine system.kernel self pid wstatus options with
  | .returned kernel ret child =>
      some (system.report kernel ⟨currentId system.kernel self, wstatus, ret, child⟩)
  | .blocks kernel frame => do
      let blocked ← threadBlock machine fuel kernel cpu regs
      some ({ system with
        kernel := blocked
        frames := Function.update system.frames self (some frame) }, none)

def WaitFrame.wstatus : WaitFrame → Nat
  | .any wstatus => wstatus
  | .child wstatus _ => wstatus

/-- The rest of `sys_waitpid` as a step. -/
def resumeCall (machine : Machine σ) (system : System σ) (cpu : CpuId) :
    Option (System σ × Option Report) := do
  let self ← (system.kernel.cpu cpu).current
  let frame ← system.frames self
  let done ← waitResume machine system.kernel (currentId system.kernel self) frame
  some ({ system with frames := Function.update system.frames self none }.report done.1
    ⟨currentId system.kernel self, frame.wstatus, done.2.1, done.2.2⟩)

/-- One step of the system on a processor. -/
def procCall (machine : Machine σ) (fuel : Nat) (system : System σ) (cpu : CpuId) :
    ProcCall → Option (System σ × Option Report)
  | .tick regs => (switchTask machine fuel system.kernel cpu regs).map system.run
  | .fork => do
      let self ← system.calling cpu
      (sysFork machine system.kernel self).map fun done => system.run done.1
  | .execve regs ptrs path argv envp => do
      let self ← system.calling cpu
      (sysExecve machine fuel system.kernel cpu regs self ptrs path argv envp).map fun done =>
        system.run done.1
  | .exit stat => do
      let _ ← system.calling cpu
      (sysExit machine fuel system.kernel cpu stat).map system.run
  | .waitpid regs pid wstatus options => do
      let self ← system.calling cpu
      waitpidCall machine fuel system cpu regs self pid wstatus options
  | .resume => resumeCall machine system cpu
  | .kill regs pid sig => do
      let _ ← system.calling cpu
      (sysKill machine fuel system.kernel cpu regs pid sig).map fun done => system.run done.1
  | .ptrace regs req pid => do
      let _ ← system.calling cpu
      (sysPtrace machine fuel system.kernel cpu regs req pid).map fun done => system.run done.1

/-- Forget the events of earlier steps. -/
def System.clear (system : System σ) : System σ :=
  { system with kernel := clearEvents system.kernel }

/-- A step of the system, with as much fuel as it needs, and what it reports. -/
def ProcStep (machine : Machine σ) (system : System σ) (label : CpuId × ProcCall)
    (next : System σ) (report : Option Report) : Prop :=
  ∃ fuel, procCall machine fuel system.clear label.1 label.2 = some (next, report)

/-! ## How `waitpid` ends -/

variable {options pid ret : Int} {kernel next : Kernel σ} {machine : Machine σ}
  {caller child : TaskId} {result : WaitResult σ}

/-- The first task of a list whose state has changed. -/
def firstChanged (kernel : Kernel σ) (children : List TaskId) : Option TaskId :=
  children.find? fun child => (hasChildChanged kernel child).2

/-- The common code reports a child that has changed. -/
def Reported (machine : Machine σ) (kernel : Kernel σ) (caller : TaskId) (wstatus : Nat)
    (child : TaskId) (next : Kernel σ) (ret : Int) : Prop :=
  (hasChildChanged kernel child).2 = true ∧
    reportChild machine (hasChildChanged kernel child).1 caller wstatus child = some (next, ret)

theorem hasChildChanged_unchanged (unchanged : (hasChildChanged kernel child).2 = false) :
    (hasChildChanged kernel child).1 = kernel := by
  revert unchanged
  unfold hasChildChanged
  split
  · nofun
  · split
    · exact fun _ => rfl
    · nofun
  · split
    · nofun
    · exact fun _ => rfl

/-- The stop latch of a child after a change has been seen. -/
def latchAfter (task : Task) : Bool :=
  match task.state with
  | .dead => task.wasStop
  | .stopped => true
  | .running => false

theorem hasChildChanged_changed (changed : (hasChildChanged kernel child).2 = true) :
    (hasChildChanged kernel child).1 =
        kernel.setTask child (withWasStop (latchAfter (kernel.task child))) ∧
      ((kernel.task child).state = .dead ∨
        (kernel.task child).state = .stopped ∧ (kernel.task child).wasStop = false ∨
        (kernel.task child).state = .running ∧ (kernel.task child).wasStop = true) := by
  revert changed
  unfold hasChildChanged latchAfter
  cases state : (kernel.task child).state with
  | dead =>
    refine fun _ => ⟨?_, .inl rfl⟩
    exact (congrArg (fun task => { kernel with task }) (Function.update_eq_self child _)).symm
  | stopped =>
    cases latch : (kernel.task child).wasStop with
    | true => nofun
    | false => exact fun _ => ⟨rfl, .inr (.inl ⟨rfl, rfl⟩)⟩
  | running =>
    cases latch : (kernel.task child).wasStop with
    | true => exact fun _ => ⟨rfl, .inr (.inr ⟨rfl, rfl⟩)⟩
    | false => nofun

/-- The kernel after a report: the child is latched, the status stored, and a dead child
freed. -/
def afterReport (machine : Machine σ) (kernel : Kernel σ) (child : TaskId) (dev : σ) : Kernel σ :=
  let stored := { kernel.setTask child (withWasStop (latchAfter (kernel.task child))) with dev }
  if (kernel.task child).state = .dead then taskDelete machine stored child else stored

variable {wstatus : Nat}

section

variable (reported : Reported machine kernel caller wstatus child next ret)
include reported

theorem Reported.spec :
    ret = (kernel.task child).pid ∧ ∃ dev,
      storeStatus machine kernel caller wstatus child = some dev ∧
      next = afterReport machine kernel child dev := by
  rcases reported with ⟨changed, reporting⟩
  rw [(hasChildChanged_changed changed).1] at reporting
  rcases bind_eq_some_iff.mp reporting with ⟨dev, storing, rest⟩
  have field {α : Type} (read : Task → α) (kept : ∀ latch old, read (withWasStop latch old) = read old) :=
    kernel.setTask_read read child (withWasStop (latchAfter (kernel.task child))) (kept _)
  have stored : storeStatus machine kernel caller wstatus child = some dev := by
    rw [← storing]
    unfold storeStatus
    rw [field Task.vmMap fun _ _ => rfl, field Task.status fun _ _ => rfl]
    rfl
  have sameState := field Task.state (fun _ _ => rfl) child
  have samePid := field Task.pid (fun _ _ => rfl) child
  dsimp only at rest
  rw [sameState, samePid] at rest
  split at rest
  · rename_i dead
    rcases Prod.mk.inj (some.inj rest) with ⟨isNext, isRet⟩
    exact ⟨isRet.symm, dev, stored, isNext.symm.trans (if_pos dead).symm⟩
  · rename_i alive
    rcases Prod.mk.inj (some.inj rest) with ⟨isNext, isRet⟩
    exact ⟨isRet.symm, dev, stored, isNext.symm.trans (if_neg alive).symm⟩

theorem Reported.thread : next.thread = kernel.thread := by
  rcases reported.spec with ⟨_, _, _, result⟩
  rw [result]
  unfold afterReport taskDelete unlinkChild
  dsimp only
  split
  · split <;> rfl
  · rfl

end

/-- The scan stops at the first child that has changed. -/
theorem scanChildren_cases {children : List TaskId} {found : Option (TaskId × Int)}
    (scanned : scanChildren machine caller wstatus children kernel = some (next, found)) :
    (found = none ∧ next = kernel) ∨
      ∃ child ret, found = some (child, ret) ∧ firstChanged kernel children = some child ∧
        Reported machine kernel caller wstatus child next ret := by
  induction children with
  | nil =>
    cases scanned
    exact .inl ⟨rfl, rfl⟩
  | cons child _ ih =>
    unfold scanChildren at scanned
    unfold firstChanged
    cases changed : (hasChildChanged kernel child).2 with
    | true =>
      simp only [changed] at scanned
      rcases map_eq_some_iff.mp scanned with ⟨⟨_, ret⟩, reported, result⟩
      cases result
      exact .inr ⟨child, ret, rfl, List.find?_cons_of_pos changed, changed, reported⟩
    | false =>
      simp only [changed, List.find?_cons] at scanned ⊢
      rw [hasChildChanged_unchanged changed] at scanned
      exact ih scanned

/-- How a call of `waitpid` may end or block. -/
inductive WaitCase (machine : Machine σ) (kernel : Kernel σ) (caller : TaskId) (pid : Int)
    (wstatus : Nat) (options : Int) : WaitResult σ → Prop where
  | nothing (ret : Int) : ret ≤ 0 →
      WaitCase machine kernel caller pid wstatus options (.returned kernel ret none)
  | one {child : TaskId} {next : Kernel σ} {ret : Int} : 0 < pid →
      schedTaskFromid kernel pid = some child →
      Reported machine kernel caller wstatus child next ret →
      WaitCase machine kernel caller pid wstatus options (.returned next ret (some child))
  | any {child : TaskId} {next : Kernel σ} {ret : Int} : pid = -1 →
      firstChanged kernel (kernel.task caller).children.items = some child →
      Reported machine kernel caller wstatus child next ret →
      WaitCase machine kernel caller pid wstatus options (.returned next ret (some child))
  | blockAny : WaitCase machine kernel caller pid wstatus options
      (.blocks (kernel.setTask caller (withWaiting (-1))) (.any wstatus))
  | blockOne {child : TaskId} : 0 < pid → schedTaskFromid kernel pid = some child →
      (hasChildChanged kernel child).2 = false → options.toNat &&& 1 = 0 →
      WaitCase machine kernel caller pid wstatus options
        (.blocks (kernel.setTask caller (withWaiting (kernel.task child).pid))
          (.child wstatus child))

theorem waitAnyChild_cases
    (waited : waitAnyChild machine kernel caller wstatus options = some result) :
    WaitCase machine kernel caller (-1) wstatus options result := by
  rcases bind_eq_some_iff.mp waited with ⟨⟨_, _⟩, scanned, rest⟩
  rcases scanChildren_cases scanned with ⟨isNone, same⟩ | ⟨_, _, isSome, first, reported⟩
  · subst isNone same
    dsimp only at rest
    split at rest
    · cases rest
      exact .nothing 0 (Int.le_refl 0)
    · cases rest
      exact .blockAny
  · subst isSome
    cases rest
    exact .any rfl first reported

theorem waitChild_cases (pos : 0 < pid) (isChild : schedTaskFromid kernel pid = some child)
    (waited : waitChild machine kernel caller child wstatus options = some result) :
    WaitCase machine kernel caller pid wstatus options result := by
  unfold waitChild at waited
  dsimp only at waited
  split at waited
  · rename_i changed
    rcases map_eq_some_iff.mp waited with ⟨⟨_, _⟩, reported, same⟩
    subst same
    exact .one pos isChild ⟨changed, reported⟩
  · rename_i notChanged
    have unchanged := Bool.not_eq_true _ ▸ notChanged
    rw [hasChildChanged_unchanged unchanged] at waited
    split at waited
    · cases waited
      exact .nothing 0 (Int.le_refl 0)
    · rename_i blocking
      cases waited
      exact .blockOne pos isChild unchanged (Decidable.not_not.mp blocking)

theorem sysWaitpid_cases {self : ThreadId}
    (waited : sysWaitpid machine kernel self pid wstatus options = some result) :
    WaitCase machine kernel (currentId kernel self) pid wstatus options result := by
  unfold sysWaitpid at waited
  split at waited
  · cases waited
    exact .nothing _ (by decide)
  · split at waited
    · cases waited
      exact .nothing _ (by decide)
    · split at waited
      · rename_i pos
        split at waited
        · cases waited
          exact .nothing _ (by decide)
        · rename_i child isChild
          exact waitChild_cases pos isChild waited
      · split at waited
        · rename_i isAny
          subst isAny
          exact waitAnyChild_cases waited
        · cases waited
          exact .nothing 0 (Int.le_refl 0)

/-- How the rest of a call that blocked may end. -/
theorem waitResume_cases {frame : WaitFrame} {child : Option TaskId}
    (resumed : waitResume machine kernel caller frame = some (next, ret, child)) :
    (ret = 0 ∧ child = none ∧ next = kernel.setTask caller (withWaiting 0)) ∨
    (∃ wstatus found, frame = .any wstatus ∧ child = some found ∧
      firstChanged (kernel.setTask caller (withWaiting 0))
        ((kernel.setTask caller (withWaiting 0)).task caller).children.items = some found ∧
      Reported machine (kernel.setTask caller (withWaiting 0)) caller wstatus found next ret) ∨
    ∃ wstatus found, frame = .child wstatus found ∧ child = some found ∧
      next = kernel.setTask caller (withWaiting 0) := by
  cases frame with
  | any wstatus =>
    rcases map_eq_some_iff.mp resumed with ⟨⟨_, found⟩, scanned, result⟩
    rcases scanChildren_cases scanned with ⟨isNone, same⟩ | ⟨first, _, isSome, isFirst, reported⟩
    · subst isNone same
      cases result
      exact .inl ⟨rfl, rfl, rfl⟩
    · subst isSome
      cases result
      exact .inr (.inl ⟨wstatus, first, rfl, rfl, isFirst, reported⟩)
  | child wstatus found =>
    cases resumed
    exact .inr (.inr ⟨wstatus, found, rfl, rfl, rfl⟩)

end Micro.Proc
