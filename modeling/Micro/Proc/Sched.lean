import Micro.Mm.Memory
import Micro.Proc.Task

/-!
# Scheduling, signals and exit

The scheduler takes threads off the ready queue and, between taking a thread off
and running it, handles the thread's pending signals.  Handling a signal may leave
`switch_next` for good: into a handler of the process, or into another call of
`switch_next` when the thread's task stops or exits.  A function that can do so
takes that call as an argument, so that `switchNext` can supply itself.

A step that follows a null pointer, reads past an array, or loops for ever has no
result.
-/

namespace Micro.Proc

open Kern Mm Lib Fs

variable {σ : Type}

/-! ## The ready queue -/

/-- `cpu->current = thread` -/
def setCurrent (kernel : Kernel σ) (cpu : CpuId) (thread : ThreadId) : Kernel σ :=
  { kernel with
    cpu := Function.update kernel.cpu cpu { kernel.cpu cpu with current := some thread } }

def nextReady (kernel : Kernel σ) (cpu : CpuId) : Kernel σ × ThreadId :=
  match kernel.readyQueue with
  | [] => (kernel, (kernel.cpu cpu).idle)
  | thread :: rest =>
      if (kernel.thread thread).state = .running then
        ({ kernel with readyQueue := rest ++ [thread] }, (kernel.cpu cpu).idle)
      else ({ kernel with readyQueue := rest }, thread)

/-- The loop of `switch_next` that looks for a ready thread.  It spins while the
queue has none and the idle thread runs elsewhere, so it is given fuel. -/
def pickReady (cpu : CpuId) : Nat → Kernel σ → Option (Kernel σ × ThreadId)
  | 0, _ => none
  | fuel + 1, kernel =>
      let next := nextReady kernel cpu
      let kernel := setCurrent next.1 cpu next.2
      if (kernel.thread next.2).state = .ready then some (kernel, next.2)
      else pickReady cpu fuel kernel

abbrev threadUnblock (kernel : Kernel σ) (thread : ThreadId) : Kernel σ :=
  schedSpawnthread kernel thread

def schedTaskFromid (kernel : Kernel σ) (id : Int) : Option TaskId :=
  kernel.tasks.find? fun task => (kernel.task task).pid = id

/-! ## Changes of a task -/

def withTaskState (state : TaskState) (task : Task) : Task := { task with state }

def withStatus (status : Int) (task : Task) : Task := { task with status }

/-- `task->waiting = pid` -/
def withWaiting (pid : Int) (task : Task) : Task := { task with waiting := pid }

/-- A thread with one more signal to handle. -/
def withSignal (signo : Nat) (thread : Thread) : Thread :=
  { thread with sigqueue := thread.sigqueue ++ [signo] }

/-- `task_send`, up to the yield that follows when the task is the current one -/
def taskSend (kernel : Kernel σ) (task : TaskId) (signo : Nat) : Option (Kernel σ) :=
  (kernel.task task).main.map fun main => kernel.setThread main (withSignal signo)

def taskChange (kernel : Kernel σ) (task : TaskId) (state : TaskState) :
    Option (Kernel σ) := do
  let parent ← (kernel.task task).parent
  let changed := kernel.setTask task (withTaskState state)
  let waiting := (changed.task parent).waiting
  if waiting = (changed.task task).pid ∨ waiting = -1 then
    let main ← (changed.task parent).main
    some ((threadUnblock changed main).setTask parent (withWaiting 0))
  else some changed

/-! ## Exit -/

/-- Close one descriptor of an exiting task. -/
def closeFd (machine : Machine σ) (task : TaskId) (kernel : Kernel σ) (slot : Nat) : Kernel σ :=
  match (kernel.task task).fds slot with
  | some file => setFd (vfsClose machine kernel (kernel.file file)) task slot none
  | none => kernel

/-- The descriptor loop of `task_exit`. -/
@[irreducible] def closeFds (machine : Machine σ) (kernel : Kernel σ) (task : TaskId) : Kernel σ :=
  (List.range 256).foldl (closeFd machine task) kernel

/-- `list_enqueue(&init->children, child)` for every child of a list -/
def addChildren (kernel : Kernel σ) (init : TaskId) (children : List TaskId) : Kernel σ :=
  children.foldl (fun kernel child => addChild kernel init child) kernel

/-- Hand the children of a task to `init`.  With `init` itself the loop would walk a
list that grows under it. -/
def adoptChildren (kernel : Kernel σ) (task : TaskId) : Option (Kernel σ) :=
  match (kernel.task task).children.items with
  | [] => some kernel
  | children => do
      let init ← schedTaskFromid kernel 1
      if init = task then none else some (addChildren kernel init children)

/-- A task with another list of children. -/
def withChildren (children : KList TaskId) (task : Task) : Task := { task with children }

def clearChildren (kernel : Kernel σ) (task : TaskId) : Option (Kernel σ) :=
  (kernel.task task).children.clear.map fun cleared =>
    kernel.setTask task (withChildren cleared)

/-- `task->main = NULL` -/
def withoutMain (task : Task) : Task := { task with main := none }

/-- `SIGCHLD` for the parent of an exiting task.  The main thread of the task is gone
by then, so a task that were its own parent would not get as far as the yield. -/
def notifyParent (kernel : Kernel σ) (task : TaskId) : Option (Kernel σ) :=
  match (kernel.task task).parent with
  | some parent => taskSend kernel parent 3
  | none => some kernel

/-- The part of `task_exit` after the children have been handed over: descriptors,
the main thread and the parent. -/
def leaveTask (machine : Machine σ) (kernel : Kernel σ) (task : TaskId) (status : Int) :
    Option (Kernel σ) := do
  let sent ← notifyParent ((closeFds machine kernel task).setTask task withoutMain) task
  let changed ← taskChange sent task .dead
  pure (changed.setTask task (withStatus status))

def taskExit (machine : Machine σ) (switch : Kernel σ → Option (Kernel σ))
    (kernel : Kernel σ) (cpu : CpuId) (status : Int) : Option (Kernel σ) := do
  let self ← (kernel.cpu cpu).current
  let task := (kernel.thread self).parent
  let killed := killThreads kernel (kernel.task task).threads
  let adopted ← adoptChildren
    (killed.record (.exited task (kernel.task task).children.items)) task
  let cleared ← clearChildren adopted task
  let left ← leaveTask machine cleared task status
  switch left

/-! ## Signals -/

/-- The default actions of signals. -/
inductive SigDefault where
  | term
  | ign
  | core
  | stop
  | cont
  deriving DecidableEq, Repr

/-- `defaults[signo]`: an array of thirty entries, zero (`SIGDEF_TERM`) where the
source gives none. -/
def sigDefault : Nat → Option SigDefault
  | 29 | 2 | 5 | 7 | 13 | 14 | 17 | 19 | 26 | 27 => some .core
  | 3 | 22 | 28 => some .ign
  | 4 => some .cont
  | 15 | 16 | 20 | 21 => some .stop
  | signo => if signo < 30 then some .term else none

def handleStopsig (switch : Kernel σ → Option (Kernel σ)) (kernel : Kernel σ)
    (thread : ThreadId) (signo : Nat) : Option (Kernel σ) := do
  let parent := (kernel.thread thread).parent
  let changed ← taskChange kernel parent .stopped
  switch (changed.setTask parent (withStatus (signo <<< 8 ||| 0x7f : Nat)))

def threadHandleContsig (kernel : Kernel σ) (thread : ThreadId) : Option (Kernel σ) := do
  let parent := (kernel.thread thread).parent
  let changed ← taskChange (kernel.setTask parent (withStatus 0xffff)) parent .running
  pure (schedSpawnthread changed thread)

/-- `arch_enter_signal`: push the return address and leave for the handler.  The
registers the handler starts with are those of the processor, not of the thread. -/
def archEnterSignal (machine : Machine σ) (kernel : Kernel σ) (thread : ThreadId)
    (signo : Nat) : Option (Kernel σ) := do
  let task := kernel.task (kernel.thread thread).parent
  let rsp := subWord (kernel.thread thread).sigstack 8
  let dev ← storeBytes machine task.vmMap kernel.dev rsp
    (wordBytes (task.signals signo).saRestorer)
  pure ({ kernel with dev }.record (.entered thread signo))

/-- How the handling of a thread's signals ends: back in `switch_next`, through another call
of it, or in a handler of the program. -/
inductive Handled (σ : Type) where
  | returned (kernel : Kernel σ)
  | left (kernel : Kernel σ)
  | entered (kernel : Kernel σ)

/-- The kernel left behind, wherever control went. -/
def Handled.kernel : Handled σ → Kernel σ
  | .returned kernel | .left kernel | .entered kernel => kernel

/-- `list_dequeue(&thread->sigqueue)` when these signals come after the first -/
def withSigqueue (rest : List Nat) (thread : Thread) : Thread :=
  { thread with sigqueue := rest }

/-- What `thread_handle_signals` does about a signal.  Past the thirty-two entries of
`signals`, or the entries of `defaults`, it has no defined behaviour. -/
inductive Disposition where
  | stop
  | masked
  | exit (status : Nat)
  | cont
  | ignore
  | handler
  deriving DecidableEq, Repr

/-- The choices `thread_handle_signals` makes for a signal, in the order it makes
them. -/
def disposition (kernel : Kernel σ) (thread : ThreadId) (signo : Nat) : Option Disposition :=
  let task := kernel.task (kernel.thread thread).parent
  if task.tracer.isSome then some .stop
  else if 32 ≤ signo then none
  else if signo ≠ 9 ∧ signo ≠ 15 ∧ (kernel.thread thread).sigmask.testBit signo then
    some .masked
  else match (task.signals signo).saHandler with
    | 0 => (sigDefault signo).map fun
        | .term => .exit signo
        | .core => .exit (signo ||| 0x80)
        | .stop => .stop
        | .cont => .cont
        | .ign => .ignore
    | 1 => some .ignore
    | _ => some .handler

/-- `thread_handle_signals` on the signals queued for a thread; nothing it does adds
to that queue. -/
def threadHandleSignals (machine : Machine σ) (switch : Kernel σ → Option (Kernel σ))
    (cpu : CpuId) (thread : ThreadId) : List Nat → Kernel σ → Option (Handled σ)
  | [], kernel => some (.returned kernel)
  | signo :: rest, kernel => do
      let kernel := kernel.setThread thread (withSigqueue rest)
      match ← disposition kernel thread signo with
      | .stop => (handleStopsig switch kernel thread signo).map .left
      | .masked => some (.returned kernel)
      | .exit status => (taskExit machine switch kernel cpu status).map .left
      | .cont => do
          let continued ← threadHandleContsig (kernel.record (.continued thread)) thread
          threadHandleSignals machine switch cpu thread rest continued
      | .ignore => threadHandleSignals machine switch cpu thread rest kernel
      | .handler => (archEnterSignal machine kernel thread signo).map .entered

/-! ## Switching -/

def switchNext (machine : Machine σ) (cpu : CpuId) : Nat → Kernel σ → Option (Kernel σ)
  | 0, _ => none
  | fuel + 1, kernel => do
      let picked ← pickReady cpu fuel kernel
      match ← threadHandleSignals machine (switchNext machine cpu fuel) cpu picked.2
          (picked.1.thread picked.2).sigqueue picked.1 with
      | .left kernel | .entered kernel => some kernel
      | .returned kernel => some (kernel.setThread picked.2 (withState .running))

def withRegs (regs : Regs) (thread : Thread) : Thread := { thread with regs }

/-- The part of `switch_task` before `switch_next`: a thread that was running goes
back to the queue. -/
def saveContext (kernel : Kernel σ) (cpu : CpuId) (regs : Regs) : Kernel σ :=
  match (kernel.cpu cpu).current with
  | none => kernel
  | some self =>
      let saved := kernel.setThread self (withRegs regs)
      if (saved.thread self).state = .running then schedSpawnthread saved self else saved

def switchTask (machine : Machine σ) (fuel : Nat) (kernel : Kernel σ) (cpu : CpuId)
    (regs : Regs) : Option (Kernel σ) :=
  switchNext machine cpu fuel (saveContext kernel cpu regs)

/-- `thread_block`, with the registers the yield saves -/
def threadBlock (machine : Machine σ) (fuel : Nat) (kernel : Kernel σ) (cpu : CpuId)
    (regs : Regs) : Option (Kernel σ) := do
  let self ← (kernel.cpu cpu).current
  switchTask machine fuel (kernel.setThread self (withState .blocked)) cpu regs

/-- Forget the events of earlier steps. -/
def clearEvents (kernel : Kernel σ) : Kernel σ := { kernel with events := [] }

/-! ## System calls -/

def taskCurr (kernel : Kernel σ) (cpu : CpuId) : Option TaskId :=
  (kernel.cpu cpu).current.map fun self => (kernel.thread self).parent

section

variable (machine : Machine σ) (fuel : Nat) (kernel : Kernel σ) (cpu : CpuId)

/-- `task_send` with its yield -/
def taskSendYield (regs : Regs) (task : TaskId) (signo : Nat) : Option (Kernel σ) := do
  let sent ← taskSend kernel task signo
  if taskCurr kernel cpu = some task then switchTask machine fuel sent cpu regs
  else some sent

def sysExit (stat : Int) : Option (Kernel σ) :=
  taskExit machine (switchNext machine cpu fuel) kernel cpu (stat % 256 * 256)

/-- `sys_kill`, with the value it returns once the caller runs again -/
def sysKill (regs : Regs) (pid sig : Int) : Option (Kernel σ × Int) :=
  if sig < 0 ∨ sig > 32 then some (kernel, -einval)
  else match schedTaskFromid kernel pid with
    | none => some (kernel, -3)
    | some task =>
        (taskSendYield machine fuel kernel cpu regs task sig.toNat).map fun sent => (sent, 0)

end

/-- The requests of `enum ptrace_req` that change a task. -/
inductive PtraceReq where
  | attach
  | traceme
  | cont
  deriving DecidableEq, Repr

def withTracer (tracer : Option TaskId) (task : Task) : Task := { task with tracer }

def ptraceAttach (kernel : Kernel σ) (tracer : Option TaskId) (tracee : TaskId) : Kernel σ :=
  kernel.setTask tracee (withTracer tracer)

def sysPtrace (machine : Machine σ) (fuel : Nat) (kernel : Kernel σ) (cpu : CpuId)
    (regs : Regs) (req : PtraceReq) (pid : Int) : Option (Kernel σ × Int) :=
  match req with
  | .attach =>
      match schedTaskFromid kernel pid with
      | none => some (kernel, -3)
      | some task =>
          (taskSendYield machine fuel (ptraceAttach kernel (taskCurr kernel cpu) task) cpu regs
            task 15).map fun sent => (sent, 0)
  | .traceme => (taskCurr kernel cpu).map fun self =>
      (ptraceAttach kernel (kernel.task self).parent self, 0)
  | .cont =>
      match schedTaskFromid kernel pid with
      | none => some (kernel, -3)
      | some task => do
          let main ← (kernel.task task).main
          (threadHandleContsig kernel main).map fun continued => (continued, 0)

end Micro.Proc
