import Mathlib.Data.List.Nodup
import Micro.Kern.State

/-!
# The scheduler's view of the kernel

The part of the kernel that scheduling reads and writes, and the invariant that
couples the ready queue, the processors' current threads and the threads' states.

While a processor is between two threads its own `current` is out of date, and a
thread taken off the queue is accounted for nowhere else.  So the invariant is
relative to the processors that count and to the threads that are exempt from
being accounted for; at rest every processor counts and no thread is exempt.
-/

namespace Micro.Proc

open Kern Function List

variable {counts : CpuId → Prop} {task : TaskId} {thread : ThreadId} {σ : Type}

/-- What scheduling depends on. -/
@[ext] structure SchedView where
  queue : List ThreadId
  current : CpuId → Option ThreadId
  state : ThreadId → ThreadState
  pending : ThreadId → List Nat
  owner : ThreadId → TaskId
  tasks : List TaskId
  threads : TaskId → List ThreadId
  main : TaskId → Option ThreadId
  waiting : TaskId → Int
  pid : TaskId → Int
  taskState : TaskId → TaskState

def view (kernel : Kernel σ) : SchedView where
  queue := kernel.readyQueue
  current := fun cpu => (kernel.cpu cpu).current
  state := fun thread => (kernel.thread thread).state
  pending := fun thread => (kernel.thread thread).sigqueue
  owner := fun thread => (kernel.thread thread).parent
  tasks := kernel.tasks
  threads := fun task => (kernel.task task).threads
  main := fun task => (kernel.task task).main
  waiting := fun task => (kernel.task task).waiting
  pid := fun task => (kernel.task task).pid
  taskState := fun task => (kernel.task task).state

namespace SchedView

section

variable (view : SchedView)

/-- A thread changes its state. -/
def setState (thread : ThreadId) (state : ThreadState) : SchedView :=
  { view with state := Function.update view.state thread state }

/-- A thread becomes ready and joins the queue. -/
def spawn (thread : ThreadId) : SchedView :=
  { view.setState thread .ready with queue := view.queue ++ [thread] }

def setTaskState (task : TaskId) (state : TaskState) : SchedView :=
  { view with taskState := Function.update view.taskState task state }

/-- A task starts or stops waiting for a child. -/
def setWaiting (task : TaskId) (pid : Int) : SchedView :=
  { view with waiting := Function.update view.waiting task pid }

/-- The signals queued for a thread change. -/
def setPending (thread : ThreadId) (signals : List Nat) : SchedView :=
  { view with pending := Function.update view.pending thread signals }

/-- A thread becomes current on a processor. -/
def setCurrent (cpu : CpuId) (thread : ThreadId) : SchedView :=
  { view with current := Function.update view.current cpu (some thread) }

/-- The threads of a task die and it has no main thread any more. -/
def leave (task : TaskId) : SchedView :=
  { view with
    state := fun thread => if thread ∈ view.threads task then .dead else view.state thread
    main := Function.update view.main task none }

end

end SchedView

/-- The ways in which a thread of a task is accounted for. -/
inductive Covered (counts : CpuId → Prop) (view : SchedView) (task : TaskId)
    (thread : ThreadId) : Prop where
  | dead : view.state thread = .dead → Covered counts view task thread
  | blocked : view.state thread = .blocked → Covered counts view task thread
  | stopped : view.taskState task = .stopped →
      (∀ main, view.main task = some main → main = thread) → Covered counts view task thread
  | current (cpu : CpuId) : counts cpu → view.current cpu = some thread →
      Covered counts view task thread
  | queued : thread ∈ view.queue → Covered counts view task thread

theorem Covered.congr {before after : SchedView} (covered : Covered counts before task thread)
    (state : after.state thread = before.state thread)
    (taskState : after.taskState task = before.taskState task)
    (main : ∀ main, after.main task = some main → before.main task = some main)
    (current : ∀ cpu, counts cpu → after.current cpu = before.current cpu)
    (queue : thread ∈ before.queue → thread ∈ after.queue) : Covered counts after task thread := by
  cases covered with
  | dead holds => exact .dead (state.trans holds)
  | blocked holds => exact .blocked (state.trans holds)
  | stopped holds sole =>
    exact .stopped (taskState.trans holds) fun other isMain => sole other (main other isMain)
  | current cpu counted running => exact .current cpu counted ((current cpu counted).trans running)
  | queued holds => exact .queued (queue holds)

theorem Covered.mono {counts' : CpuId → Prop} {view : SchedView}
    (covered : Covered counts view task thread)
    (more : ∀ cpu, counts cpu → view.current cpu = some thread → counts' cpu) :
    Covered counts' view task thread := by
  cases covered with
  | dead state => exact .dead state
  | blocked state => exact .blocked state
  | stopped state sole => exact .stopped state sole
  | current cpu counted running => exact .current cpu (more cpu counted running) running
  | queued queued => exact .queued queued

/-- The scheduler's invariant. -/
structure Sched (counts : CpuId → Prop) (exempt : ThreadId → Prop) (view : SchedView) :
    Prop where
  queuedOnce : view.queue.Nodup
  queueState : ∀ thread ∈ view.queue, view.state thread = .ready ∨ view.state thread = .dead
  notQueued : ∀ cpu thread, counts cpu → view.current cpu = some thread → thread ∉ view.queue
  onOneCpu : ∀ cpu other thread, counts cpu → counts other → view.current cpu = some thread →
    view.current other = some thread → cpu = other
  currentState : ∀ cpu thread, counts cpu → view.current cpu = some thread →
    view.state thread = .running ∨ view.state thread = .dead
  covered : ∀ task ∈ view.tasks, ∀ thread ∈ view.threads task, ¬ exempt thread →
    Covered counts view task thread
  own : ∀ task, ∀ thread ∈ view.threads task, view.owner thread = task
  main : ∀ task thread, view.main task = some thread → view.owner thread = task
  signals : ∀ thread, view.pending thread ≠ [] → ∀ main,
    view.main (view.owner thread) = some main → main = thread
  waiting : ∀ task main, view.waiting task ≠ 0 → view.main task = some main →
    view.state main = .blocked
  pid : ∀ task, view.pid task ≠ 0

namespace Sched

variable {exempt exempt' : ThreadId → Prop} {view : SchedView} {cpu : CpuId}

theorem absolve (holds : Sched counts exempt view)
    (accounted : ∀ task ∈ view.tasks, ∀ thread ∈ view.threads task, exempt thread →
      ¬ exempt' thread → Covered counts view task thread) :
    Sched counts exempt' view := by
  refine { holds with covered := ?_ }
  intro task listed thread mem notExempt
  by_cases before : exempt thread
  · exact accounted task listed thread mem before notExempt
  · exact holds.covered task listed thread mem before

theorem mono (holds : Sched counts exempt view)
    (wider : ∀ thread, exempt thread → exempt' thread) : Sched counts exempt' view :=
  holds.absolve fun _ _ thread _ before notExempt => absurd (wider thread before) notExempt

/-- A processor stops counting, and the thread it ran has to be accounted for. -/
theorem vacate (holds : Sched (fun _ => True) exempt view) (cpu : CpuId) :
    Sched (· ≠ cpu) (fun thread => exempt thread ∨ view.current cpu = some thread) view where
  queuedOnce := holds.queuedOnce
  queueState := holds.queueState
  notQueued := fun other thread _ => holds.notQueued other thread trivial
  onOneCpu := fun one other thread _ _ => holds.onOneCpu one other thread trivial trivial
  currentState := fun other thread _ => holds.currentState other thread trivial
  covered := by
    intro task listed thread mem notExempt
    rcases not_or.mp notExempt with ⟨notBefore, notCurrent⟩
    refine (holds.covered task listed thread mem notBefore).mono fun other _ running same => ?_
    subst same
    exact notCurrent running
  own := holds.own
  main := holds.main
  signals := holds.signals
  waiting := holds.waiting
  pid := holds.pid

section

variable (holds : Sched counts exempt view)
include holds

section

variable (notQueued : thread ∉ view.queue)
  (notCurrent : ∀ cpu, counts cpu → view.current cpu ≠ some thread)
include notQueued notCurrent

/-- A thread that is neither queued nor running can change its state, and then has to be
accounted for. -/
theorem setState (state : ThreadState) (waiting : ∀ task, view.main task = some thread →
      view.waiting task ≠ 0 → state = .blocked) :
    Sched counts (fun other => exempt other ∨ other = thread) (view.setState thread state) := by
  have unchanged : ∀ other, other ≠ thread →
      (view.setState thread state).state other = view.state other :=
    fun _ ne => update_of_ne ne _ _
  refine { holds with
    queueState := ?_, currentState := ?_, covered := ?_, waiting := ?_ }
  · intro other queued
    have ne : other ≠ thread := fun same => notQueued (same ▸ queued)
    rw [unchanged other ne]
    exact holds.queueState other queued
  · intro cpu other counted running
    have ne : other ≠ thread := fun same => notCurrent cpu counted (same ▸ running)
    rw [unchanged other ne]
    exact holds.currentState cpu other counted running
  · intro task listed other mem notExempt
    rcases not_or.mp notExempt with ⟨notBefore, ne⟩
    exact (holds.covered task listed other mem notBefore).congr (unchanged other ne) rfl
      (fun _ => id) (fun _ _ => rfl) id
  · intro task main waits isMain
    by_cases same : main = thread
    · subst same
      exact (update_self _ _ _).trans (waiting task isMain waits)
    · rw [unchanged main same]
      exact holds.waiting task main waits isMain

theorem block :
    Sched counts (fun other => exempt other ∧ other ≠ thread) (view.setState thread .blocked) := by
  apply (holds.setState notQueued notCurrent .blocked fun _ _ _ => rfl).absolve
  intro _ _ other _ before notExempt
  by_cases same : other = thread
  · subst same
    exact .blocked (update_self _ _ _)
  · exact absurd ⟨before.resolve_right same, same⟩ notExempt

theorem enqueue (ready : view.state thread = .ready) :
    Sched counts (fun other => exempt other ∧ other ≠ thread)
      { view with queue := view.queue ++ [thread] } := by
  refine { holds with queuedOnce := ?_, queueState := ?_, notQueued := ?_, covered := ?_ }
  · rw [← concat_eq_append]
    exact .concat notQueued holds.queuedOnce
  · intro other queued
    rcases mem_append.mp queued with before | isNew
    · exact holds.queueState other before
    · rw [mem_singleton.mp isNew]
      exact .inl ready
  · intro cpu other counted running queued
    rcases mem_append.mp queued with before | isNew
    · exact holds.notQueued cpu other counted running before
    · rw [mem_singleton.mp isNew] at running
      exact notCurrent cpu counted running
  · intro task listed other mem notExempt
    by_cases same : other = thread
    · exact .queued (mem_append_right _ (mem_singleton.mpr same))
    · have notBefore : ¬ exempt other := fun before => notExempt ⟨before, same⟩
      exact (holds.covered task listed other mem notBefore).congr rfl rfl (fun _ => id)
        (fun _ _ => rfl) (mem_append_left _)

theorem spawn (notWaiting : ∀ task, view.main task = some thread → view.waiting task = 0) :
    Sched counts (fun other => exempt other ∧ other ≠ thread) (view.spawn thread) := by
  have ready := holds.setState notQueued notCurrent .ready fun task isMain waits =>
    absurd (notWaiting task isMain) waits
  apply (ready.enqueue notQueued notCurrent (update_self _ _ _)).mono
  exact fun _ both => ⟨both.1.resolve_right both.2, both.2⟩

end

/-- A task may note what it waits for while its main thread is blocked. -/
theorem setWaiting {pid : Int}
    (blocked : pid ≠ 0 → ∀ main, view.main task = some main → view.state main = .blocked) :
    Sched counts exempt (view.setWaiting task pid) := by
  refine { holds with covered := ?_, waiting := ?_ }
  · intro other listed thread mem notExempt
    exact (holds.covered other listed thread mem notExempt).congr rfl rfl
      (fun _ => id) (fun _ _ => rfl) id
  · intro other main waits isMain
    by_cases same : other = task
    · subst same
      have assigned : (view.setWaiting other pid).waiting other = pid := update_self _ _ _
      rw [assigned] at waits
      exact blocked waits main isMain
    · have unchanged : (view.setWaiting task pid).waiting other = view.waiting other :=
        update_of_ne same _ _
      rw [unchanged] at waits
      exact holds.waiting other main waits isMain

/-- The main thread of a waiting task can be woken. -/
theorem wake {main : ThreadId} (isMain : view.main task = some main) (waits : view.waiting task ≠ 0) :
    Sched counts exempt ((view.setWaiting task 0).spawn main) := by
  have blocked : view.state main = .blocked := holds.waiting task main waits isMain
  have notQueued : main ∉ view.queue := by
    intro queued
    have state := holds.queueState main queued
    simp [blocked] at state
  have notCurrent : ∀ cpu, counts cpu → view.current cpu ≠ some main := by
    intro cpu counted running
    have state := holds.currentState cpu main counted running
    simp [blocked] at state
  have cleared : Sched counts exempt (view.setWaiting task 0) :=
    holds.setWaiting fun nonzero => absurd rfl nonzero
  have notWaiting : ∀ other, (view.setWaiting task 0).main other = some main →
      (view.setWaiting task 0).waiting other = 0 := by
    intro other otherMain
    have same : other = task :=
      (holds.main other main otherMain).symm.trans (holds.main task main isMain)
    subst same
    exact update_self _ _ _
  exact (cleared.spawn notQueued notCurrent notWaiting).mono fun _ both => both.1

/-- A task that leaves accounts for all its threads. -/
theorem leave (task : TaskId) :
    Sched counts (fun thread => exempt thread ∧ thread ∉ view.threads task) (view.leave task) := by
  have killed : ∀ thread ∈ view.threads task, (view.leave task).state thread = .dead :=
    fun _ mem => if_pos mem
  have state : ∀ thread, thread ∉ view.threads task →
      (view.leave task).state thread = view.state thread :=
    fun _ notMember => if_neg notMember
  have stateOr : ∀ thread, (view.leave task).state thread = .dead ∨
      (view.leave task).state thread = view.state thread := by
    intro thread
    by_cases mem : thread ∈ view.threads task
    · exact .inl (killed thread mem)
    · exact .inr (state thread mem)
  have mainBefore : ∀ other main, (view.leave task).main other = some main →
      other ≠ task ∧ view.main other = some main := by
    intro other main isMain
    by_cases same : other = task
    · subst same
      rw [show (view.leave other).main other = none from update_self _ _ _] at isMain
      cases isMain
    · rw [show (view.leave task).main other = view.main other from
        update_of_ne same _ _] at isMain
      exact ⟨same, isMain⟩
  refine { holds with
    queueState := ?_, currentState := ?_, covered := ?_, main := ?_, signals := ?_, waiting := ?_ }
  · intro thread queued
    rcases stateOr thread with now | same
    · exact .inr now
    · rw [same]
      exact holds.queueState thread queued
  · intro cpu thread counted running
    rcases stateOr thread with now | same
    · exact .inr now
    · rw [same]
      exact holds.currentState cpu thread counted running
  · intro other listed thread mem notExempt
    by_cases own : thread ∈ view.threads task
    · exact .dead (killed thread own)
    · have notBefore : ¬ exempt thread := fun before => notExempt ⟨before, own⟩
      exact (holds.covered other listed thread mem notBefore).congr (state thread own) rfl
        (fun main isMain => (mainBefore other main isMain).2) (fun _ _ => rfl) id
  · exact fun other main isMain => holds.main other main (mainBefore other main isMain).2
  · exact fun thread queued main isMain =>
      holds.signals thread queued main (mainBefore _ main isMain).2
  · intro other main waits isMain
    rcases mainBefore other main isMain with ⟨ne, before⟩
    have notOwn : main ∉ view.threads task := by
      intro mem
      exact ne ((holds.main other main before).symm.trans (holds.own task main mem))
    rw [state main notOwn]
    exact holds.waiting other main waits before

/-- When a task changes its state, its main thread may no longer be accounted for by
the task being stopped. -/
theorem setTaskState (task : TaskId) (state : TaskState) :
    Sched counts (fun thread => exempt thread ∨
        thread ∈ view.threads task ∧ ∀ main, view.main task = some main → main = thread)
      (view.setTaskState task state) := by
  refine { holds with covered := ?_ }
  intro other listed thread mem notExempt
  rcases not_or.mp notExempt with ⟨notBefore, notSole⟩
  cases holds.covered other listed thread mem notBefore with
  | dead before => exact .dead before
  | blocked before => exact .blocked before
  | stopped before sole =>
    by_cases same : other = task
    · subst same
      exact absurd ⟨mem, sole⟩ notSole
    · exact .stopped ((update_of_ne same _ _).trans before) sole
  | current cpu counted running => exact .current cpu counted running
  | queued before => exact .queued before

/-- Only the main thread of a task is sent signals. -/
theorem setPending {signals : List Nat}
    (sole : ∀ main, view.main (view.owner thread) = some main → main = thread) :
    Sched counts exempt (view.setPending thread signals) := by
  refine { holds with covered := ?_, signals := ?_ }
  · intro other listed thread mem notExempt
    exact (holds.covered other listed thread mem notExempt).congr rfl rfl
      (fun _ => id) (fun _ _ => rfl) id
  · intro other queued main isMain
    by_cases same : other = thread
    · subst same
      exact sole main isMain
    · rw [show (view.setPending thread signals).pending other = view.pending other from
        update_of_ne same _ _] at queued
      exact holds.signals other queued main isMain

theorem dequeue {rest : List ThreadId} (queue : view.queue = thread :: rest) :
    Sched counts (fun other => exempt other ∨ other = thread) { view with queue := rest } ∧
      thread ∉ rest := by
  have distinct : (thread :: rest).Nodup := queue ▸ holds.queuedOnce
  have sub : ∀ other ∈ rest, other ∈ view.queue := by
    intro other mem
    rw [queue]
    exact mem_cons_of_mem _ mem
  refine ⟨{ holds with
    queuedOnce := (nodup_cons.mp distinct).2
    queueState := fun other queued => holds.queueState other (sub other queued)
    notQueued := fun cpu other counted running queued =>
      holds.notQueued cpu other counted running (sub other queued)
    covered := ?_ }, (nodup_cons.mp distinct).1⟩
  intro task listed other mem notExempt
  rcases not_or.mp notExempt with ⟨notBefore, ne⟩
  refine (holds.covered task listed other mem notBefore).congr rfl rfl
    (fun _ => id) (fun _ _ => rfl) fun before => ?_
  rw [queue] at before
  exact (mem_cons.mp before).resolve_left ne

end

/-- What is current on a processor that does not count does not matter. -/
theorem setCurrent (holds : Sched (· ≠ cpu) exempt view) (thread : ThreadId) :
    Sched (· ≠ cpu) exempt (view.setCurrent cpu thread) := by
  have same : ∀ other, other ≠ cpu →
      (view.setCurrent cpu thread).current other = view.current other :=
    fun _ ne => update_of_ne ne _ _
  refine { holds with
    notQueued := ?_, onOneCpu := ?_, currentState := ?_, covered := ?_ }
  · intro other running counted current
    rw [same other counted] at current
    exact holds.notQueued other running counted current
  · intro one other running countedOne countedOther currentOne currentOther
    rw [same one countedOne] at currentOne
    rw [same other countedOther] at currentOther
    exact holds.onOneCpu one other running countedOne countedOther currentOne currentOther
  · intro other running counted current
    rw [same other counted] at current
    exact holds.currentState other running counted current
  · intro task listed mem owned notExempt
    exact (holds.covered task listed mem owned notExempt).congr rfl rfl
      (fun _ => id) same id

end Sched

end Micro.Proc
