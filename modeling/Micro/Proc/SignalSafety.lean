import Micro.Lib.Outcome
import Micro.Proc.Signals
import Micro.Proc.Wait

/-!
# Signal numbers and the targets of signals

A signal number is checked in `sys_kill`, waits in a queue, and is used much later as an
index of `task->signals` and of `defaults`; a signal is sent through `task->main`, which
`task_exit` clears.  Here the functions that send and handle signals say which of the two
went wrong, and a step of the system ends where the code calls `switch_next`, which is a
step of its own: what happens in between may happen in any order.
-/

namespace Micro.Proc

open Kern Mm Lib Fs List Option

variable {self : ThreadId} {α : Type} {signo : Nat} {task : TaskId} {cpu : CpuId} {σ : Type}
  {machine : Machine σ} {kernel after : Kernel σ}

/-! ## `sigaction` -/

def sigactionBytes (action : Sigaction) : List UInt8 :=
  wordBytes action.saHandler ++ wordBytes action.saSigaction ++
    (wordBytes action.saMask).take 4 ++ intBytes action.saFlags ++ wordBytes action.saRestorer

def loadSigaction (machine : Machine σ) (dev : σ) (map : VmMap) (address : Nat) :
    Option Sigaction := do
  let saHandler ← loadWord machine dev map address 8
  let saSigaction ← loadWord machine dev map (addWord address 8) 8
  let saMask ← loadWord machine dev map (addWord address 16) 4
  let saFlags ← loadWord machine dev map (addWord address 20) 4
  let saRestorer ← loadWord machine dev map (addWord address 24) 8
  pure { saHandler, saSigaction, saMask, saFlags := wrapInt saFlags, saRestorer }

/-- `task->signals[signum] = action` -/
def withAction (signum : Nat) (action : Sigaction) (task : Task) : Task :=
  { task with signals := Function.update task.signals signum action }

/-- The part of `sys_sigaction` that copies the old action out. -/
def storeOldact (machine : Machine σ) (kernel : Kernel σ) (self : ThreadId) (signum oldact : Nat) :
    Option σ :=
  if oldact = 0 then some kernel.dev
  else storeBytes machine (current kernel self).vmMap kernel.dev oldact
    (sigactionBytes ((current kernel self).signals signum))

def sysSigaction (machine : Machine σ) (kernel : Kernel σ) (self : ThreadId) (signum : Int)
    (act oldact : Nat) : Option (Kernel σ × Int) :=
  if signum < 0 ∨ signum ≥ 32 ∨ signum = 9 ∨ signum = 15 then some (kernel, -einval)
  else if oldact ≠ 0 ∧ ¬ ptrValid kernel self oldact then some (kernel, -efault)
  else do
    let dev ← storeOldact machine kernel self signum.toNat oldact
    if act = 0 then some ({ kernel with dev }, 0)
    else if ¬ ptrValid kernel self act then some ({ kernel with dev }, -efault)
    else do
      let action ← loadSigaction machine dev (current kernel self).vmMap act
      some ({ kernel with dev }.setTask (currentId kernel self) (withAction signum.toNat action), 0)

theorem sysSigaction_thread {signum : Int} {act oldact : Nat} {done : Kernel σ × Int}
    (called : sysSigaction machine kernel self signum act oldact = some done) :
    done.1.thread = kernel.thread := by
  unfold sysSigaction at called
  split at called
  · cases called
    rfl
  · split at called
    · cases called
      rfl
    · rcases bind_eq_some_iff.mp called with ⟨_, _, rest⟩
      split_ifs at rest
      · cases rest
        rfl
      · rcases bind_eq_some_iff.mp rest with ⟨_, _, result⟩
        cases result
        rfl
      · cases rest
        rfl

/-! ## What goes wrong -/

/-- A signal is sent to a task without a main thread; a signal number is outside of
`signals` or `defaults`; or a step gets stuck for a reason that has nothing to do with
signals. -/
inductive SigFault where
  | noMain (task : TaskId)
  | index (signo : Nat)
  | other
  deriving DecidableEq, Repr

/-- The faults that are not about signals. -/
def SigFault.Unrelated (fault : SigFault) : Prop := fault = .other

/-- A step that may get stuck. -/
def orOther {α : Type} : Option α → Except SigFault α
  | some value => .ok value
  | none => .error .other

/-- `task_send`, up to the yield -/
def trySend (kernel : Kernel σ) (task : TaskId) (signo : Nat) : Except SigFault (Kernel σ) :=
  match (kernel.task task).main with
  | some main => .ok (kernel.setThread main (withSignal signo))
  | none => .error (.noMain task)

/-- `if (task->parent) task_send(task->parent, SIGCHLD)` -/
def tryNotify (kernel : Kernel σ) (task : TaskId) : Except SigFault (Kernel σ) :=
  match (kernel.task task).parent with
  | some parent => trySend kernel parent 3
  | none => .ok kernel

/-- The part of `task_exit` after the children have been handed over. -/
def tryLeave (machine : Machine σ) (kernel : Kernel σ) (task : TaskId) (status : Int) :
    Except SigFault (Kernel σ) := do
  let sent ← tryNotify ((closeFds machine kernel task).setTask task withoutMain) task
  let changed ← orOther (taskChange sent task .dead)
  pure (changed.setTask task (withStatus status))

/-- `task_exit`, up to its call of `switch_next` -/
def tryExit (machine : Machine σ) (kernel : Kernel σ) (cpu : CpuId) (status : Int) :
    Except SigFault (Kernel σ) := do
  let self ← orOther (kernel.cpu cpu).current
  let task := (kernel.thread self).parent
  let killed := killThreads kernel (kernel.task task).threads
  let adopted ← orOther (adoptChildren
    (killed.record (.exited task (kernel.task task).children.items)) task)
  let cleared ← orOther (clearChildren adopted task)
  tryLeave machine cleared task status

/-- What is done about a signal, if it is inside the tables it is looked up in. -/
def tryDispose (kernel : Kernel σ) (thread : ThreadId) (signo : Nat) :
    Except SigFault Disposition :=
  match disposition kernel thread signo with
  | some choice => .ok choice
  | none => .error (.index signo)

/-- `thread_handle_signals`, up to a call of `switch_next` -/
def tryHandle (machine : Machine σ) (cpu : CpuId) (thread : ThreadId) :
    List Nat → Kernel σ → Except SigFault (Handled σ)
  | [], kernel => .ok (.returned kernel)
  | signo :: rest, kernel => do
      let kernel := kernel.setThread thread (withSigqueue rest)
      match ← tryDispose kernel thread signo with
      | .stop => do
          let stopped ← orOther (handleStopsig some kernel thread signo)
          pure (.left stopped)
      | .masked => pure (.returned kernel)
      | .exit status => do
          let exited ← tryExit machine kernel cpu status
          pure (.left exited)
      | .cont => do
          let continued ← orOther (threadHandleContsig (kernel.record (.continued thread)) thread)
          tryHandle machine cpu thread rest continued
      | .ignore => tryHandle machine cpu thread rest kernel
      | .handler => do
          let entered ← orOther (archEnterSignal machine kernel thread signo)
          pure (.entered entered)

/-- `sys_kill`: when the target is the caller, up to the switch its yield makes -/
def tryKill (kernel : Kernel σ) (cpu : CpuId) (regs : Regs) (pid sig : Int) :
    Except SigFault (Kernel σ × Int) :=
  if sig < 0 ∨ sig > 32 then .ok (kernel, -einval)
  else match schedTaskFromid kernel pid with
    | none => .ok (kernel, -3)
    | some task => do
        let sent ← trySend kernel task sig.toNat
        if taskCurr kernel cpu = some task then pure (saveContext sent cpu regs, 0)
        else pure (sent, 0)

/-! ### They are the functions of the model -/

@[simp] theorem orOther_toOption (result : Option α) : (orOther result).toOption = result := by
  cases result <;> rfl

theorem trySend_toOption (kernel : Kernel σ) (task : TaskId) (signo : Nat) :
    (trySend kernel task signo).toOption = taskSend kernel task signo := by
  unfold trySend taskSend
  cases (kernel.task task).main <;> rfl

theorem tryNotify_toOption (kernel : Kernel σ) (task : TaskId) :
    (tryNotify kernel task).toOption = notifyParent kernel task := by
  unfold tryNotify notifyParent
  cases (kernel.task task).parent with
  | none => rfl
  | some parent => exact trySend_toOption kernel parent 3

theorem tryLeave_toOption (machine : Machine σ) (kernel : Kernel σ) (task : TaskId) (status : Int) :
    (tryLeave machine kernel task status).toOption = leaveTask machine kernel task status := by
  simp only [tryLeave, toOption_bind, tryNotify_toOption, orOther_toOption]
  rfl

theorem tryExit_toOption (machine : Machine σ) (kernel : Kernel σ) (cpu : CpuId) (status : Int) :
    (tryExit machine kernel cpu status).toOption = taskExit machine some kernel cpu status := by
  simp only [tryExit, taskExit, toOption_bind, tryLeave_toOption]
  simp

theorem tryDispose_toOption (kernel : Kernel σ) (thread : ThreadId) (signo : Nat) :
    (tryDispose kernel thread signo).toOption = disposition kernel thread signo := by
  unfold tryDispose
  cases disposition kernel thread signo <;> rfl

theorem tryHandle_toOption (machine : Machine σ) (cpu : CpuId) (thread : ThreadId)
    (queue : List Nat) (kernel : Kernel σ) :
    (tryHandle machine cpu thread queue kernel).toOption =
      threadHandleSignals machine some cpu thread queue kernel := by
  induction queue generalizing kernel with
  | nil => rfl
  | cons _ _ ih =>
    simp only [tryHandle, toOption_bind, tryDispose_toOption]
    congr 1
    funext choice
    cases choice with
    | stop =>
      simp only [toOption_bind, orOther_toOption]
      exact map_eq_bind.symm
    | masked => rfl
    | exit _ =>
      simp only [toOption_bind, tryExit_toOption]
      exact map_eq_bind.symm
    | cont =>
      simp only [toOption_bind, orOther_toOption, ih]
      rfl
    | ignore => exact ih _
    | handler =>
      simp only [toOption_bind, orOther_toOption]
      exact map_eq_bind.symm

/-- A `kill` that does not fault is the model's, which goes on to switch when the caller has
sent the signal to itself. -/
theorem tryKill_sysKill (machine : Machine σ) (fuel : Nat) (kernel : Kernel σ) (cpu : CpuId)
    (regs : Regs) (pid sig : Int) :
    sysKill machine fuel kernel cpu regs pid sig =
      (tryKill kernel cpu regs pid sig).toOption.bind fun done =>
        if done.2 = 0 ∧ taskCurr kernel cpu = schedTaskFromid kernel pid then
          (switchNext machine cpu fuel done.1).map fun switched => (switched, 0)
        else some done := by
  unfold sysKill tryKill
  split
  · rfl
  · cases found : schedTaskFromid kernel pid with
    | none => rfl
    | some task =>
      simp only [taskSendYield, toOption_bind, trySend_toOption]
      cases taskSend kernel task sig.toNat with
      | none => rfl
      | some _ =>
        by_cases self : taskCurr kernel cpu = some task
        · simp only [self]
          rfl
        · simp only [self]
          rfl

/-! ## Steps -/

/-- The kernel, the calls of `waitpid` that have blocked, and the processors whose next step is
a call of `switch_next`. -/
structure Delivery (σ : Type) where
  kernel : Kernel σ
  frames : ThreadId → Option WaitFrame
  switching : CpuId → Bool

/-- The calls that send and handle signals, or reap their targets; the timer; and a call of
`switch_next`, with the number of times it looks for a ready thread. -/
inductive DeliveryCall where
  | kill (regs : Regs) (pid sig : Int)
  | sigaction (signum : Int) (act oldact : Nat)
  | exit (stat : Int)
  | waitpid (regs : Regs) (pid : Int) (wstatus : Nat) (options : Int)
  | resume
  | tick (regs : Regs)
  | switch (looks : Nat)

namespace Delivery

section

variable (machine : Machine σ) (state : Delivery σ)

/-- The thread that runs on a processor, unless the processor is about to switch.  Its state is
not `running` while it runs a handler, from which it makes system calls like any other, also when
the handler interrupted a blocked `waitpid`. -/
def running (cpu : CpuId) : Option ThreadId :=
  if state.switching cpu then none else (state.kernel.cpu cpu).current

/-- The step of a processor ends, before a call of `switch_next` or not. -/
def leave (cpu : CpuId) (switching : Bool) (kernel : Kernel σ) : Delivery σ :=
  { state with kernel, switching := Function.update state.switching cpu switching }

/-- `sys_waitpid`, up to the switch when it blocks -/
def waitpid (cpu : CpuId) (regs : Regs) (self : ThreadId) (pid : Int) (wstatus : Nat)
    (options : Int) : Option (Delivery σ) :=
  (sysWaitpid machine state.kernel self pid wstatus options).map fun
    | .returned kernel _ _ => { state with kernel }
    | .blocks kernel frame =>
        { state.leave cpu true
            (saveContext (kernel.setThread self (withState .blocked)) cpu regs) with
          frames := Function.update state.frames self (some frame) }

/-- The rest of a call of `waitpid` that blocked. -/
def resume (cpu : CpuId) : Option (Delivery σ) := do
  let self ← state.running cpu
  let frame ← state.frames self
  let done ← waitResume machine state.kernel (currentId state.kernel self) frame
  pure { state with kernel := done.1, frames := Function.update state.frames self none }

/-- `switch_next`, up to the next call of it that handling a signal makes -/
def switch (cpu : CpuId) (looks : Nat) :
    Except SigFault (Delivery σ) := do
  let picked ← orOther (pickReady cpu looks state.kernel)
  let handled ← tryHandle machine cpu picked.2 (picked.1.thread picked.2).sigqueue picked.1
  match handled with
  | .left kernel => pure { state with kernel }
  | .entered kernel => pure (state.leave cpu false kernel)
  | .returned kernel =>
      pure (state.leave cpu false (kernel.setThread picked.2 (withState .running)))

def step (label : CpuId × DeliveryCall) : Except SigFault (Delivery σ) :=
  match label.2 with
  | .kill regs pid sig => do
      let _ ← orOther (state.running label.1)
      let done ← tryKill state.kernel label.1 regs pid sig
      let yields := done.2 = 0 ∧ taskCurr state.kernel label.1 = schedTaskFromid state.kernel pid
      pure (state.leave label.1 yields done.1)
  | .sigaction signum act oldact => do
      let self ← orOther (state.running label.1)
      let done ← orOther (sysSigaction machine state.kernel self signum act oldact)
      pure { state with kernel := done.1 }
  | .exit stat => do
      let _ ← orOther (state.running label.1)
      let kernel ← tryExit machine state.kernel label.1 (stat % 256 * 256)
      pure (state.leave label.1 true kernel)
  | .waitpid regs pid wstatus options => do
      let self ← orOther (state.running label.1)
      orOther (state.waitpid machine label.1 regs self pid wstatus options)
  | .resume => orOther (state.resume machine label.1)
  | .tick regs =>
      if state.switching label.1 then .error .other
      else pure (state.leave label.1 true (saveContext state.kernel label.1 regs))
  | .switch looks =>
      if state.switching label.1 then state.switch machine label.1 looks else .error .other

end

end Delivery

/-! ## Signal numbers stay inside the tables -/

/-- The number is inside the thirty-two entries of `signals` and the entries of
`defaults`. -/
def Indexed (signo : Nat) : Prop := signo < 32 ∧ (sigDefault signo).isSome

theorem indexed_of_lt (below : signo < 30) : Indexed signo := by
  unfold Indexed
  decide +revert

/-- Every pending signal is inside the tables. -/
def InTables (kernel : Kernel σ) : Prop :=
  ∀ thread, ∀ signo ∈ (kernel.thread thread).sigqueue, Indexed signo

namespace InTables

variable {next : Kernel σ} (holds : InTables kernel)
include holds

theorem of_thread (same : next.thread = kernel.thread) : InTables next := by
  unfold InTables
  rw [same]
  exact holds

theorem setThread (thread : ThreadId) {change : Thread → Thread}
    (grows : ∀ signo ∈ (change (kernel.thread thread)).sigqueue,
      signo ∈ (kernel.thread thread).sigqueue ∨ Indexed signo) :
    InTables (kernel.setThread thread change) := by
  intro other signo queued
  by_cases same : other = thread
  · subst same
    rw [Kernel.setThread_thread_self] at queued
    exact (grows signo queued).elim (holds other signo) id
  · rw [Kernel.setThread_thread_of_ne _ _ same] at queued
    exact holds other signo queued

theorem withState (thread : ThreadId) (state : ThreadState) :
    InTables (kernel.setThread thread (withState state)) :=
  holds.setThread thread fun _ queued => .inl queued

theorem calm {next : Kernel σ} (calm : Calm kernel next) : InTables next := by
  cases calm with
  | thread thread change kept =>
    apply holds.setThread
    intro _ queued
    rw [(kept _).sigqueue] at queued
    exact .inl queued
  | task | queue | dev | event => exact holds.of_thread rfl
  | adopt adopting clearing =>
    exact adopt_invariant InTables (fun _ _ kept => kept.of_thread rfl) adopting clearing
      (holds.of_thread rfl)

theorem calms (calms : Calms kernel next) : InTables next := by
  induction calms with
  | refl => exact holds
  | tail _ move ih => exact ih.calm move

end InTables

/-! ## Targets of signals -/

/-- No task gets or loses a main thread or a parent. -/
structure SameMains (before after : Kernel σ) : Prop where
  main : ∀ task, (after.task task).main = (before.task task).main
  parent : ∀ task, (after.task task).parent = (before.task task).parent

namespace SameMains

variable {first second third next : Kernel σ}

theorem of_task (same : next.task = kernel.task) : SameMains kernel next :=
  ⟨fun _ => by rw [same], fun _ => by rw [same]⟩

theorem trans (before : SameMains first second) (after : SameMains second third) :
    SameMains first third :=
  ⟨fun task => (after.main task).trans (before.main task),
    fun task => (after.parent task).trans (before.parent task)⟩

theorem setTask (kernel : Kernel σ) (task : TaskId) (change : Task → Task)
    (main : ∀ old, (change old).main = old.main)
    (parent : ∀ old, (change old).parent = old.parent) :
    SameMains kernel (kernel.setTask task change) :=
  ⟨kernel.setTask_read Task.main task change main,
    kernel.setTask_read Task.parent task change parent⟩

theorem calm (calm : Calm kernel next) : SameMains kernel next := by
  cases calm with
  | thread | queue | dev | event => exact of_task rfl
  | task task change kept =>
    exact setTask kernel task change (fun old => (kept old).main) fun old => (kept old).parent
  | adopt adopting clearing =>
    refine adopt_invariant (SameMains kernel) (fun task _ same => same.trans ?_) adopting clearing
      (of_task rfl)
    exact setTask _ task _ (fun _ => rfl) fun _ => rfl

theorem calms (calms : Calms kernel next) : SameMains kernel next := by
  induction calms with
  | refl => exact of_task rfl
  | tail _ move ih => exact ih.trans (calm move)

end SameMains

/-- The task may tell its parent that it exits: if it has a parent, that is another task
and has a main thread. -/
def ParentReady (kernel : Kernel σ) (task : TaskId) : Prop :=
  ∀ parent, (kernel.task task).parent = some parent →
    parent ≠ task ∧ (kernel.task parent).main.isSome

theorem ParentReady.same {before : Kernel σ} (ready : ParentReady before task)
    (same : SameMains before after) : ParentReady after task := by
  intro parent isParent
  rw [same.main]
  exact ready parent ((same.parent task).symm.trans isParent)

/-! ## No fault about signals -/

section Meets

variable {thread : ThreadId}

theorem orOther_meets {result : Option α} {post : α → Prop}
    (holds : ∀ value, result = some value → post value) :
    Meets SigFault.Unrelated (orOther result) post := by
  cases result with
  | none => rfl
  | some value => exact holds value rfl

theorem orOther_bind {β : Type} {result : Option α} {rest : α → Except SigFault β} {post : β → Prop}
    (meets : ∀ value, result = some value → Meets SigFault.Unrelated (rest value) post) :
    Meets SigFault.Unrelated (orOther result >>= rest) post :=
  Meets.bind (orOther_meets fun _ => id) meets

section

variable (holds : InTables kernel)
include holds

theorem trySend_meets (main : (kernel.task task).main.isSome) (indexed : Indexed signo) :
    Meets SigFault.Unrelated (trySend kernel task signo) InTables := by
  rcases isSome_iff_exists.mp main with ⟨_, isMain⟩
  simp only [trySend, isMain]
  apply holds.setThread
  exact forall_mem_append.mpr ⟨fun _ => .inl, forall_mem_singleton.mpr (.inr indexed)⟩

theorem tryNotify_meets (ready : ParentReady kernel task) :
    Meets SigFault.Unrelated
      (tryNotify ((closeFds machine kernel task).setTask task withoutMain) task) InTables := by
  have calm := closeFds_calm machine kernel task
  have closed := SameMains.calms calm
  have inTables : InTables ((closeFds machine kernel task).setTask task withoutMain) :=
    (holds.calms calm).of_thread rfl
  simp only [tryNotify]
  split
  · rename_i parent isParent
    rw [Kernel.setTask_task_self] at isParent
    have parentReady := ready parent ((closed.parent task).symm.trans isParent)
    apply trySend_meets inTables _ (indexed_of_lt (by decide))
    rw [Kernel.setTask_task_of_ne _ _ parentReady.1, closed.main]
    exact parentReady.2
  · exact inTables

theorem tryLeave_meets (ready : ParentReady kernel task) (status : Int) :
    Meets SigFault.Unrelated (tryLeave machine kernel task status) InTables := by
  apply (tryNotify_meets holds ready).bind
  intro _ sentHolds
  apply orOther_bind
  intro _ changing
  exact (sentHolds.calms (taskChange_calm changing)).of_thread rfl

theorem tryExit_meets (ready : ∀ self, (kernel.cpu cpu).current = some self →
      ParentReady kernel (kernel.thread self).parent) (status : Int) :
    Meets SigFault.Unrelated (tryExit machine kernel cpu status) InTables := by
  apply orOther_bind
  intro self current
  apply orOther_bind
  intro adopted adopting
  apply orOther_bind
  intro cleared clearing
  have calm := handOver_calm adopting clearing
  exact tryLeave_meets (holds.calms calm) ((ready self current).same (.calms calm)) status

end

theorem tryDispose_meets (indexed : Indexed signo) :
    Meets SigFault.Unrelated (tryDispose kernel thread signo)
      fun choice => disposition kernel thread signo = some choice := by
  have known : ∃ choice, disposition kernel thread signo = some choice := by
    rcases isSome_iff_exists.mp indexed.2 with ⟨_, isAction⟩
    have inside : ¬ 32 ≤ signo := Nat.not_le.mpr indexed.1
    simp only [disposition, isAction]
    split_ifs
    · exact ⟨_, rfl⟩
    · exact ⟨_, rfl⟩
    · split <;> exact ⟨_, rfl⟩
  rcases known with ⟨choice, chosen⟩
  have disposed : tryDispose kernel thread signo = .ok choice := by
    simp only [tryDispose, chosen]
  rw [disposed]
  exact chosen

/-- If one of the signals would end the task of the thread, the task may tell its parent. -/
def MayEnd (kernel : Kernel σ) (thread : ThreadId) (queue : List Nat) : Prop :=
  ∀ signo ∈ queue, ∀ status, disposition kernel thread signo = some (.exit status) →
    ParentReady kernel (kernel.thread thread).parent

theorem MayEnd.calms {queue : List Nat} (may : MayEnd kernel thread queue)
    (calm : Calms kernel after) : MayEnd after thread queue := by
  intro signo queued status ends
  have keeps : KeepsSignals thread kernel after := calm.keeps
  rw [keeps.disposition_eq] at ends
  rw [keeps.parent]
  exact (may signo queued status ends).same (.calms calm)

/-- A pass over numbers inside the tables; by induction on the queue, as the pass goes. -/
theorem tryHandle_meets {queue : List Nat} (holds : InTables kernel)
    (indexed : ∀ signo ∈ queue, Indexed signo) (current : (kernel.cpu cpu).current = some thread)
    (may : MayEnd kernel thread queue) :
    Meets SigFault.Unrelated (tryHandle machine cpu thread queue kernel)
      fun handled => InTables handled.kernel := by
  induction queue generalizing kernel with
  | nil => exact holds
  | cons signo rest ih =>
    have popped : InTables (kernel.setThread thread (withSigqueue rest)) := by
      apply holds.setThread
      exact fun other queued => .inr (indexed other (mem_cons_of_mem _ queued))
    have owner : ((kernel.setThread thread (withSigqueue rest)).thread thread).parent =
        (kernel.thread thread).parent := by
      rw [Kernel.setThread_thread_self]
      rfl
    have mayPopped : MayEnd (kernel.setThread thread (withSigqueue rest)) thread
        (signo :: rest) := by
      intro other queued status ends
      rw [dequeued_keeps] at ends
      rw [owner]
      exact (may other queued status ends).same (.of_task rfl)
    have mayRest : MayEnd (kernel.setThread thread (withSigqueue rest)) thread rest :=
      fun other queued => mayPopped other (mem_cons_of_mem _ queued)
    have indexedRest : ∀ other ∈ rest, Indexed other :=
      fun other queued => indexed other (mem_cons_of_mem _ queued)
    apply (tryDispose_meets (indexed signo mem_cons_self)).bind
    intro choice chosen
    cases choice with
    | stop =>
      apply orOther_bind
      intro stopped stopping
      rcases bind_eq_some_iff.mp stopping with ⟨_, changing, result⟩
      cases result
      exact (popped.calms (taskChange_calm changing)).of_thread rfl
    | masked => exact popped
    | exit status =>
      have ready : ∀ self, (kernel.cpu cpu).current = some self →
          ParentReady (kernel.setThread thread (withSigqueue rest))
            ((kernel.setThread thread (withSigqueue rest)).thread self).parent := by
        intro self isSelf
        cases current.symm.trans isSelf
        exact mayPopped signo mem_cons_self status chosen
      apply (tryExit_meets popped ready status).bind
      exact fun _ exitedHolds => exitedHolds
    | cont =>
      apply orOther_bind
      intro continued continuing
      have calm : Calms (kernel.setThread thread (withSigqueue rest)) continued :=
        .head (.event _ _) (threadHandleContsig_calm continuing)
      have keeps : KeepsSignals thread _ continued := calm.keeps
      exact ih (popped.calms calm) indexedRest ((keeps.current cpu).trans current)
        (mayRest.calms calm)
    | ignore => exact ih popped indexedRest current mayRest
    | handler =>
      apply orOther_bind
      intro entered entering
      rcases bind_eq_some_iff.mp entering with ⟨_, _, result⟩
      cases result
      exact popped.of_thread rfl

end Meets

/-! ## Runs -/

/-- The thread that `switch_next` finds is made current; no thread is changed. -/
theorem pickReady_found {looks : Nat} {picked : Kernel σ} {thread : ThreadId}
    (picking : pickReady cpu looks kernel = some (picked, thread)) :
    picked.thread = kernel.thread ∧ (picked.cpu cpu).current = some thread := by
  induction looks generalizing kernel picked thread with
  | zero =>
    cases picking
  | succ looks ih =>
    have next : (nextReady kernel cpu).1.thread = kernel.thread := by
      unfold nextReady
      split
      · rfl
      · split <;> rfl
    simp only [pickReady] at picking
    split at picking
    · cases picking
      constructor
      · exact next
      · simp only [setCurrent, Function.update_self]
    · have found := ih picking
      exact ⟨found.1.trans next, found.2⟩

/-- A step that is safe as far as signals go: `kill` names a signal of the tables, other
than 0, unless no task is found, and the task found has a main thread; and a task that
exits, or may be ended by a signal it handles, can tell its parent. -/
def SafeSignal (state : Delivery σ) (label : CpuId × DeliveryCall) : Prop :=
  match label.2 with
  | .kill _ pid sig => ∀ task, 0 ≤ sig → sig ≤ 32 → schedTaskFromid state.kernel pid = some task →
      0 < sig ∧ sig < 30 ∧ (state.kernel.task task).main.isSome
  | .exit _ => ∀ self, (state.kernel.cpu label.1).current = some self →
      ParentReady state.kernel (state.kernel.thread self).parent
  | .switch looks => ∀ picked thread,
      pickReady label.1 looks state.kernel = some (picked, thread) →
        MayEnd picked thread (picked.thread thread).sigqueue
  | _ => True

section Steps

variable {state : Delivery σ} {label : CpuId × DeliveryCall} {next : Delivery σ} {pid : Int}
  {regs : Regs}

section

variable (holds : InTables state.kernel)
include holds

theorem tryKill_meets {sig : Int} (safe : SafeSignal state (cpu, .kill regs pid sig)) :
    Meets SigFault.Unrelated (tryKill state.kernel cpu regs pid sig)
      fun done => InTables done.1 := by
  simp only [tryKill]
  split
  · exact holds
  · rename_i inRange
    split
    · exact holds
    · rename_i task found
      have low : 0 ≤ sig := Int.not_lt.mp fun low => inRange (.inl low)
      have high : sig ≤ 32 := Int.not_lt.mp fun high => inRange (.inr high)
      rcases safe task low high found with ⟨_, _, main⟩
      have indexed : Indexed sig.toNat := indexed_of_lt (by omega)
      apply (trySend_meets holds main indexed).bind
      intro _ sentHolds
      split
      · exact sentHolds.calms (saveContext_calm _ cpu regs)
      · exact sentHolds

theorem waitpid_inTables {wstatus : Nat} {options : Int}
    (waited : state.waitpid machine cpu regs self pid wstatus options = some next) :
    InTables next.kernel := by
  rcases map_eq_some_iff.mp waited with ⟨_, waiting, isNext⟩
  cases sysWaitpid_cases waiting with
  | nothing _ _ =>
    subst isNext
    exact holds
  | one _ _ reported =>
    subst isNext
    exact holds.of_thread reported.thread
  | any _ _ reported =>
    subst isNext
    exact holds.of_thread reported.thread
  | blockAny =>
    subst isNext
    have waits : InTables (state.kernel.setTask (currentId state.kernel self)
        (withWaiting (-1))) := holds.of_thread rfl
    exact (waits.withState self .blocked).calms (saveContext_calm _ cpu regs)
  | blockOne =>
    subst isNext
    have waits : ∀ pid, InTables (state.kernel.setTask (currentId state.kernel self)
        (withWaiting pid)) := fun _ => holds.of_thread rfl
    exact ((waits _).withState self .blocked).calms (saveContext_calm _ cpu regs)

theorem resume_inTables (resumed : state.resume machine cpu = some next) :
    InTables next.kernel := by
  rcases bind_eq_some_iff.mp resumed with ⟨_, _, rest⟩
  rcases bind_eq_some_iff.mp rest with ⟨_, _, rest⟩
  rcases bind_eq_some_iff.mp rest with ⟨⟨_, _, _⟩, resuming, result⟩
  cases result
  rcases waitResume_cases resuming with
    ⟨_, _, same⟩ | ⟨_, _, _, _, _, reported⟩ | ⟨_, _, _, _, same⟩
  · rw [same]
    exact holds.of_thread rfl
  · exact holds.of_thread reported.thread
  · rw [same]
    exact holds.of_thread rfl

theorem switch_meets {looks : Nat} (safe : SafeSignal state (cpu, .switch looks)) :
    Meets SigFault.Unrelated (state.switch machine cpu looks) fun next => InTables next.kernel := by
  apply orOther_bind
  rintro ⟨picked, thread⟩ picking
  have found := pickReady_found picking
  have pickedHolds : InTables picked := holds.of_thread found.1
  apply (tryHandle_meets pickedHolds (pickedHolds thread) found.2 (safe picked thread picking)).bind
  intro handled handledHolds
  cases handled with
  | left kernel | entered kernel => exact handledHolds
  | returned kernel => exact .withState handledHolds thread .running

/-- Step lemma: a safe step has no fault about signals, and leaves every pending signal
inside the tables. -/
theorem step_meets (safe : SafeSignal state label) :
    Meets SigFault.Unrelated (state.step machine label) fun next => InTables next.kernel := by
  rcases label with ⟨cpu, call⟩
  cases call with
  | kill regs pid _ =>
    apply orOther_bind
    intro _ _
    apply (tryKill_meets holds safe).bind
    exact fun done doneHolds => doneHolds
  | sigaction _ _ _ =>
    apply orOther_bind
    intro self _
    apply orOther_bind
    exact fun _ called => holds.of_thread (sysSigaction_thread called)
  | exit _ =>
    apply orOther_bind
    intro _ _
    apply (tryExit_meets holds safe _).bind
    exact fun _ kernelHolds => kernelHolds
  | waitpid regs pid _ _ =>
    apply orOther_bind
    intro self _
    exact orOther_meets fun next waited => waitpid_inTables holds waited
  | resume => exact orOther_meets fun next resumed => resume_inTables holds resumed
  | tick regs =>
    simp only [Delivery.step]
    split
    · exact rfl
    · exact holds.calms (saveContext_calm _ cpu regs)
  | switch _ =>
    simp only [Delivery.step]
    split
    · exact switch_meets holds safe
    · exact rfl

end

/-- `kill` with signal 0 finds no task in a safe step, and changes nothing. -/
theorem step_kill_zero (safe : SafeSignal state label) (isKill : label.2 = .kill regs pid 0)
    (stepped : state.step machine label = .ok next) : next = state := by
  rcases label with ⟨cpu, _⟩
  cases isKill
  have nobody : schedTaskFromid state.kernel pid = none := by
    cases found : schedTaskFromid state.kernel pid with
    | none => rfl
    | some task => exact absurd (safe task (by decide) (by decide) found).1 (by decide)
  simp only [Delivery.step, tryKill, nobody] at stepped
  cases running : state.running cpu with
  | none =>
    rw [running] at stepped
    cases stepped
  | some _ =>
    rw [running] at stepped
    cases stepped
    have still : state.switching cpu = false := by
      by_contra switching
      simp [Delivery.running, switching] at running
    simp [Delivery.leave, ← still]

end Steps

/-- In every run of safe steps, from a state whose pending signals are inside the tables,
every signal that reaches `thread_handle_signals` is inside the tables; and a further safe
step sends no signal to a task without a main thread, looks up no number outside of the
tables, and changes nothing if it is a `kill` with signal 0. -/
theorem signals_delivered_safely (machine : Machine σ) (start final : Delivery σ)
    (labels : List (CpuId × DeliveryCall)) (pending : InTables start.kernel)
    (run : Run (Restricted (fun state label next => Delivery.step machine state label = .ok next)
      SafeSignal) start labels final) :
    InTables final.kernel ∧ ∀ label, SafeSignal final label →
      (∀ task, Delivery.step machine final label ≠ .error (.noMain task)) ∧
      (∀ signo, Delivery.step machine final label ≠ .error (.index signo)) ∧
      ∀ regs pid next, label.2 = .kill regs pid 0 →
        Delivery.step machine final label = .ok next → next = final := by
  have preserved : ∀ state label next, InTables state.kernel →
      Restricted (fun state label next => Delivery.step machine state label = .ok next)
        SafeSignal state label next → InTables next.kernel :=
    fun _ _ _ holds steps => (step_meets holds steps.2).of_ok steps.1
  have holds : InTables final.kernel :=
    run.invariant preserved pending
  constructor
  · exact holds
  · intro label safe
    have meets : Meets SigFault.Unrelated (final.step machine label)
        fun next => InTables next.kernel := step_meets holds safe
    refine ⟨?_, ?_, ?_⟩
    · intro task faults
      cases meets.of_error faults
    · intro signo faults
      cases meets.of_error faults
    · intro regs pid next isKill stepped
      exact step_kill_zero safe isKill stepped

/-- The kernel with one task, and a second one that has exited. -/
def withZombie : Delivery Unit where
  kernel :=
    { masking 0 with
      task := fun id =>
        if id = 0 then (masking 0).task 0
        else { (masking 0).task 0 with pid := 2, main := none, state := .dead }
      tasks := [0, 1] }
  frames := fun _ => none
  switching := fun _ => false

/-- A task sends itself `SIGCHLD`, which the switch that follows takes off the queue. -/
theorem signals_delivered_safely_sigchld :
    ∃ final, Run (Restricted
        (fun state label next => Delivery.step (oneFile 0) state label = .ok next) SafeSignal)
        withZombie [(0, .kill {} 1 3), (0, .switch 1)] final ∧ InTables final.kernel := by
  have pending : InTables withZombie.kernel := fun _ _ queued => absurd queued not_mem_nil
  have kill : SafeSignal withZombie (0, .kill {} 1 3) := by
    intro _ _ _ found
    cases found
    exact ⟨by decide, by decide, rfl⟩
  have ran : ∃ final, Run (Restricted
      (fun state label next => Delivery.step (oneFile 0) state label = .ok next) SafeSignal)
      withZombie [(0, .kill {} 1 3), (0, .switch 1)] final := by
    refine ⟨_, .cons ⟨rfl, kill⟩ (.cons ⟨rfl, ?_⟩ (.nil _))⟩
    intro _ _ picking
    cases picking
    intro _ queued _ ends
    rw [mem_singleton.mp queued] at ends
    cases ends
  rcases ran with ⟨final, run⟩
  exact ⟨final, run, (signals_delivered_safely _ _ _ _ pending run).1⟩

/-- Signal 31 is accepted and then looked up past the end of `defaults`; a signal for a
task that has exited is sent to a main thread that is not there; and signal 0 is queued. -/
theorem signals_fault :
    (∃ next, Delivery.step (oneFile 0) withZombie (0, .kill {} 1 31) = .ok next ∧
      Delivery.step (oneFile 0) next (0, .switch 1) = .error (.index 31)) ∧
    Delivery.step (oneFile 0) withZombie (0, .kill {} 2 9) = .error (.noMain 1) ∧
    ∃ next, Delivery.step (oneFile 0) withZombie (0, .kill {} 1 0) = .ok next ∧
      (next.kernel.thread 0).sigqueue = [0] :=
  ⟨⟨_, rfl, rfl⟩, rfl, _, rfl, rfl⟩

end Micro.Proc
