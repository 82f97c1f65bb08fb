import Micro.Lib.Run
import Micro.Proc.Settle

/-!
# Threads are neither duplicated nor lost

The steps that move threads between the processors, the ready queue and the states
in which they wait, taken in any order by any number of processors.
-/

namespace Micro.Proc

open Kern Lib List Option Function

variable {task : TaskId} {pid ret : Int} {σ : Type} {kernel next : Kernel σ} {machine : Machine σ}

/-- No thread is in two places, and no thread that should run is in none. -/
structure Exclusive (kernel : Kernel σ) : Prop where
  queuedOnce : kernel.readyQueue.Nodup
  onOneCpu : ∀ cpu other thread, (kernel.cpu cpu).current = some thread →
    (kernel.cpu other).current = some thread → cpu = other
  notQueued : ∀ cpu thread, (kernel.cpu cpu).current = some thread → thread ∉ kernel.readyQueue
  notLost : ∀ task ∈ kernel.tasks, ∀ thread ∈ (kernel.task task).threads,
    (∀ cpu, (kernel.cpu cpu).idle ≠ thread) → (kernel.thread thread).state ≠ .dead →
    (kernel.thread thread).state ≠ .blocked → (kernel.task task).state ≠ .stopped →
    (∃ cpu, (kernel.cpu cpu).current = some thread) ∨ thread ∈ kernel.readyQueue

theorem exclusive_of_atRest (rest : AtRest (view kernel)) : Exclusive kernel where
  queuedOnce := rest.queuedOnce
  onOneCpu := fun cpu other thread => rest.onOneCpu cpu other thread trivial trivial
  notQueued := fun cpu thread => rest.notQueued cpu thread trivial
  notLost := by
    intro task listed thread mem _ notDead notBlocked notStopped
    cases rest.covered task listed thread mem id with
    | dead state => exact absurd state notDead
    | blocked state => exact absurd state notBlocked
    | stopped state _ => exact absurd state notStopped
    | current cpu _ running => exact .inl ⟨cpu, running⟩
    | queued queued => exact .inr queued

/-! ## Steps -/

/-- The atomic steps of the scheduler, each taken on a processor or on behalf of some
other thread. -/
inductive SchedCall where
  | switchTask (cpu : CpuId) (regs : Regs)
  | spawnthread (thread : ThreadId)
  | block (cpu : CpuId) (regs : Regs) (waiting : Option Int)
  | unblock (thread : ThreadId)
  | kill (cpu : CpuId) (regs : Regs) (pid sig : Int)
  | ptrace (cpu : CpuId) (regs : Regs) (req : PtraceReq) (pid : Int)
  | exit (cpu : CpuId) (stat : Int)

/-- `thread_block`, by a caller that may first note, as `waitpid` does, the child its
task waits for. -/
def blockOn (machine : Machine σ) (fuel : Nat) (kernel : Kernel σ) (cpu : CpuId) (regs : Regs)
    (waiting : Option Int) : Option (Kernel σ) := do
  let task ← taskCurr kernel cpu
  threadBlock machine fuel (match waiting with
      | some pid => kernel.setTask task (withWaiting pid)
      | none => kernel) cpu regs

/-- Run one step. -/
def schedCall (machine : Machine σ) (fuel : Nat) (kernel : Kernel σ) :
    SchedCall → Option (Kernel σ)
  | .switchTask cpu regs => switchTask machine fuel kernel cpu regs
  | .spawnthread thread => some (schedSpawnthread kernel thread)
  | .block cpu regs waiting => blockOn machine fuel kernel cpu regs waiting
  | .unblock thread => some (threadUnblock kernel thread)
  | .kill cpu regs pid sig => (sysKill machine fuel kernel cpu regs pid sig).map Prod.fst
  | .ptrace cpu regs req pid => (sysPtrace machine fuel kernel cpu regs req pid).map Prod.fst
  | .exit cpu stat => sysExit machine fuel kernel cpu stat

/-- A step of the scheduler, with as much fuel as it needs. -/
def SchedStep (machine : Machine σ) (kernel : Kernel σ) (call : SchedCall)
    (next : Kernel σ) : Prop :=
  ∃ fuel, schedCall machine fuel (clearEvents kernel) call = some next

/-- The thread is neither queued nor running, and it is not waiting for a child. -/
structure Wakeable (kernel : Kernel σ) (thread : ThreadId) : Prop where
  notQueued : thread ∉ kernel.readyQueue
  notCurrent : ∀ cpu, (kernel.cpu cpu).current ≠ some thread
  notWaiting : ∀ task, (kernel.task task).main = some thread → (kernel.task task).waiting = 0

/-- Only threads that can be woken are woken, and it is the main thread of a task that
waits for a child. -/
def Admissible (kernel : Kernel σ) : SchedCall → Prop
  | .spawnthread thread => Wakeable kernel thread
  | .unblock thread => Wakeable kernel thread
  | .ptrace _ _ .cont pid => ∀ task main, schedTaskFromid kernel pid = some task →
      (kernel.task task).main = some main → Wakeable kernel main
  | .block cpu _ (some _) => ∀ self, (kernel.cpu cpu).current = some self →
      (kernel.task (kernel.thread self).parent).main = some self
  | _ => True

/-- A step that wakes no thread twice, and in which handling signals neither enters a
handler of a process nor takes the default action of `SIGCONT`. -/
def OrderlyStep (machine : Machine σ) (kernel : Kernel σ) (call : SchedCall)
    (next : Kernel σ) : Prop :=
  SchedStep machine kernel call next ∧ Admissible kernel call ∧ Quiet next

/-! ## Step lemmas -/

section Steps

variable {fuel : Nat} {cpu : CpuId} {regs : Regs}

theorem Wakeable.atRest {thread : ThreadId} (wakeable : Wakeable kernel thread)
    (rest : AtRest (view kernel)) : AtRest (view (schedSpawnthread kernel thread)) := by
  rw [view_schedSpawnthread]
  exact (rest.spawn wakeable.notQueued (fun cpu _ => wakeable.notCurrent cpu)
    wakeable.notWaiting).mono fun _ both => both.1

variable (rest : AtRest (view kernel))
include rest

/-- A running thread goes back to the queue; any other is accounted for already. -/
theorem saveContext_between : Between cpu (view (saveContext kernel cpu regs)) := by
  have vacant := rest.vacate cpu
  unfold saveContext
  cases current : (kernel.cpu cpu).current with
  | none =>
    refine vacant.mono fun thread exempted => ?_
    rcases exempted with impossible | running
    · exact impossible
    · cases current.symm.trans running
  | some self =>
    have isSelf : ∀ thread, False ∨ (view kernel).current cpu = some thread → thread = self := by
      intro thread exempted
      exact some.inj ((exempted.resolve_left id).symm.trans current)
    have sameState : ((kernel.setThread self (withRegs regs)).thread self).state =
        (kernel.thread self).state := by
      rw [Kernel.setThread_thread_self]
      rfl
    dsimp only
    rw [sameState]
    split
    · rename_i running
      rw [view_schedSpawnthread, view_withRegs]
      have notWaiting : ∀ task, (view kernel).main task = some self →
          (view kernel).waiting task = 0 := by
        intro task isMain
        refine Decidable.byContradiction fun waits => ?_
        have blocked := rest.waiting task self waits isMain
        cases running.symm.trans blocked
      refine (vacant.spawn (rest.notQueued cpu self trivial current) ?_ notWaiting).mono ?_
      · intro other counted elsewhere
        exact counted (rest.onOneCpu other cpu self trivial trivial elsewhere current)
      · exact fun thread both => both.2 (isSelf thread both.1)
    · rename_i notRunning
      rw [view_withRegs]
      refine vacant.absolve fun _ _ thread _ exempted _ => ?_
      rw [isSelf thread exempted]
      exact .dead ((rest.currentState cpu self trivial current).resolve_left notRunning)

theorem switchTask_atRest (switched : switchTask machine fuel kernel cpu regs = some next)
    (quiet : Quiet next) : AtRest (view next) :=
  (switchNext_settles machine cpu fuel).atRest (saveContext_between rest) switched quiet

theorem taskSendYield_atRest {signo : Nat}
    (sent : taskSendYield machine fuel kernel cpu regs task signo = some next) (quiet : Quiet next) :
    AtRest (view next) := by
  rcases bind_eq_some_iff.mp sent with ⟨_, queueing, sent⟩
  have sending := (taskSend_sched rest queueing).1
  split at sent
  · exact switchTask_atRest sending sent quiet
  · cases sent
    exact sending

theorem blockOn_atRest {waiting : Option Int} (isMain : Admissible kernel (.block cpu regs waiting))
    (blocked : blockOn machine fuel kernel cpu regs waiting = some next) (quiet : Quiet next) :
    AtRest (view next) := by
  rcases bind_eq_some_iff.mp blocked with ⟨_, isCurrent, blocked⟩
  rcases map_eq_some_iff.mp isCurrent with ⟨self, current, isParent⟩
  subst isParent
  -- The thread blocks off the processor, and only then is the wait noted.
  have off : Between cpu ((view kernel).setState self .blocked) := by
    refine ((rest.vacate cpu).block (rest.notQueued cpu self trivial current) ?_).mono ?_
    · intro other counted elsewhere
      exact counted (rest.onOneCpu other cpu self trivial trivial elsewhere current)
    · intro thread both
      exact both.2 (some.inj ((both.1.resolve_left id).symm.trans current))
  have parked : ∀ {waits : Kernel σ}, (waits.cpu cpu).current = some self →
      Between cpu (view (waits.setThread self (withState .blocked))) →
      threadBlock machine fuel waits cpu regs = some next → AtRest (view next) := by
    intro waits still between blocked
    rcases bind_eq_some_iff.mp blocked with ⟨caller, isCaller, switched⟩
    have same : caller = self := some.inj (isCaller.symm.trans still)
    subst same
    refine (switchNext_settles machine cpu fuel).atRest ?_ switched quiet
    have saved : saveContext (waits.setThread caller (withState .blocked)) cpu regs =
        (waits.setThread caller (withState .blocked)).setThread caller (withRegs regs) := by
      unfold saveContext
      rw [show ((waits.setThread caller (withState .blocked)).cpu cpu).current = some caller
        from still]
      simp [withRegs, withState]
    rw [saved, view_withRegs]
    exact between
  cases waiting with
  | none =>
    apply parked current _ blocked
    rw [view_withState]
    exact off
  | some pid =>
    have still : ((kernel.setTask (kernel.thread self).parent (withWaiting pid)).cpu cpu).current =
        some self := current
    apply parked still _ blocked
    rw [view_withState, view_withWaiting]
    refine off.setWaiting fun _ main otherMain => ?_
    have same : main = self := some.inj (otherMain.symm.trans (isMain self current))
    rw [same]
    exact update_self _ _ _

theorem contsig_atRest {main : ThreadId} (isMain : (kernel.task task).main = some main)
    (wakeable : Wakeable kernel main) (continued : threadHandleContsig kernel main = some next) :
    AtRest (view next) := by
  rcases bind_eq_some_iff.mp continued with ⟨changed, changing, result⟩
  cases result
  have owner : (kernel.thread main).parent = task := rest.main task main isMain
  rw [owner] at changing
  have exempted : Sched (fun _ => True) (· = main) ((view kernel).setTaskState task .running) := by
    refine (rest.setTaskState task .running).mono fun _ either => ?_
    exact ((either.resolve_left id).2 main isMain).symm
  rw [view_schedSpawnthread]
  have after : Sched (fun _ => True) (· = main) (view changed) := by
    apply taskChange_sched _ changing
    rw [view_withStatus]
    exact exempted
  have dormant : main ∉ (view changed).queue ∧
      (∀ cpu, (view changed).current cpu ≠ some main) ∧
      ∀ other, (view changed).main other = some main → (view changed).waiting other = 0 := by
    rcases taskChange_view changing with same | ⟨parent, woken, wokenMain, waits, spawned⟩
    · rw [same, view_withStatus]
      exact ⟨wakeable.notQueued, wakeable.notCurrent, wakeable.notWaiting⟩
    · rw [view_withStatus] at wokenMain waits spawned
      have ne : main ≠ woken := by
        intro equal
        subst equal
        have idle : (view kernel).waiting parent = 0 := wakeable.notWaiting parent wokenMain
        rw [idle] at waits
        rcases waits with isPid | any
        · exact rest.pid task isPid.symm
        · exact absurd any (by decide)
      rw [spawned]
      refine ⟨?_, wakeable.notCurrent, ?_⟩
      · intro queued
        rcases mem_append.mp queued with before | last
        · exact wakeable.notQueued before
        · exact ne (mem_singleton.mp last)
      · intro other otherMain
        by_cases isParent : other = parent
        · subst isParent
          exact update_self _ _ _
        · exact (update_of_ne isParent _ _).trans (wakeable.notWaiting other otherMain)
  exact (after.spawn dormant.1 (fun cpu _ => dormant.2.1 cpu) dormant.2.2).mono
    fun _ both => both.2 both.1

theorem sysExit_atRest {stat : Int} (exited : sysExit machine fuel kernel cpu stat = some next)
    (quiet : Quiet next) : AtRest (view next) := by
  cases current : (kernel.cpu cpu).current with
  | none => simp [sysExit, taskExit, current] at exited
  | some _ =>
    refine taskExit_atRest (switchNext_settles machine cpu fuel) (rest.vacate cpu) current ?_
      exited quiet
    intro _ exempted
    exact some.inj ((exempted.resolve_left id).symm.trans current)

theorem sysKill_atRest {sig : Int}
    (killed : sysKill machine fuel kernel cpu regs pid sig = some (next, ret)) (quiet : Quiet next) :
    AtRest (view next) := by
  unfold sysKill at killed
  split at killed
  · cases killed
    exact rest
  · split at killed
    · cases killed
      exact rest
    · rcases map_eq_some_iff.mp killed with ⟨_, sending, result⟩
      cases result
      exact taskSendYield_atRest rest sending quiet

theorem sysPtrace_atRest {req : PtraceReq}
    (admissible : Admissible kernel (.ptrace cpu regs req pid))
    (traced : sysPtrace machine fuel kernel cpu regs req pid = some (next, ret))
    (quiet : Quiet next) : AtRest (view next) := by
  have attached : ∀ tracer tracee, AtRest (view (ptraceAttach kernel tracer tracee)) := by
    intro tracer tracee
    unfold ptraceAttach
    rw [view_setTask_same kernel tracee (withTracer tracer) (fun _ => rfl) (fun _ => rfl)
      (fun _ => rfl) (fun _ => rfl) fun _ => rfl]
    exact rest
  unfold sysPtrace at traced
  cases req with
  | attach =>
    dsimp only at traced
    split at traced
    · cases traced
      exact rest
    · rcases map_eq_some_iff.mp traced with ⟨_, sending, result⟩
      cases result
      exact taskSendYield_atRest (attached _ _) sending quiet
  | traceme =>
    rcases map_eq_some_iff.mp traced with ⟨_, _, result⟩
    cases result
    exact attached _ _
  | cont =>
    dsimp only at traced
    split at traced
    · cases traced
      exact rest
    · rename_i task found
      rcases bind_eq_some_iff.mp traced with ⟨main, isMain, traced⟩
      rcases map_eq_some_iff.mp traced with ⟨_, continuing, result⟩
      cases result
      exact contsig_atRest rest isMain (admissible task main found isMain) continuing

end Steps

/-- Step lemma: every orderly step keeps the invariant. -/
theorem orderlyStep_atRest {call : SchedCall} (rest : AtRest (view kernel))
    (step : OrderlyStep machine kernel call next) : AtRest (view next) := by
  rcases step with ⟨⟨_, stepped⟩, admissible, quiet⟩
  have cleared : AtRest (view (clearEvents kernel)) := rest
  cases call with
  | switchTask cpu regs => exact switchTask_atRest cleared stepped quiet
  | spawnthread | unblock =>
    cases stepped
    exact Wakeable.atRest ⟨admissible.1, admissible.2, admissible.3⟩ cleared
  | block cpu regs waiting =>
    refine blockOn_atRest cleared ?_ stepped quiet
    cases waiting with
    | none => exact trivial
    | some pid => exact admissible
  | kill cpu regs pid _ =>
    rcases map_eq_some_iff.mp stepped with ⟨⟨after, ret⟩, killed, same⟩
    subst same
    exact sysKill_atRest cleared killed quiet
  | ptrace cpu regs req pid =>
    rcases map_eq_some_iff.mp stepped with ⟨⟨after, ret⟩, traced, same⟩
    subst same
    refine sysPtrace_atRest cleared ?_ traced quiet
    cases req with
    | attach => exact trivial
    | traceme => exact trivial
    | cont =>
      intro task main found isMain
      rcases admissible task main found isMain with ⟨notQueued, notCurrent, notWaiting⟩
      exact ⟨notQueued, notCurrent, notWaiting⟩
  | exit cpu _ => exact sysExit_atRest cleared stepped quiet

/-! ## Runs -/

/-- No processor runs a thread yet, and the threads of all started tasks are queued. -/
structure Booted (kernel : Kernel σ) : Prop where
  current : ∀ cpu, (kernel.cpu cpu).current = none
  queuedOnce : kernel.readyQueue.Nodup
  ready : ∀ thread ∈ kernel.readyQueue, (kernel.thread thread).state = .ready
  started : ∀ task ∈ kernel.tasks, ∀ thread ∈ (kernel.task task).threads, thread ∈ kernel.readyQueue
  own : ∀ task, ∀ thread ∈ (kernel.task task).threads, (kernel.thread thread).parent = task
  main : ∀ task thread, (kernel.task task).main = some thread → (kernel.thread thread).parent = task
  signals : ∀ thread, (kernel.thread thread).sigqueue = []
  waiting : ∀ task, (kernel.task task).waiting = 0
  pid : ∀ task, (kernel.task task).pid ≠ 0

theorem Booted.atRest (booted : Booted kernel) : AtRest (view kernel) where
  queuedOnce := booted.queuedOnce
  queueState := fun thread queued => .inl (booted.ready thread queued)
  notQueued := fun cpu _ _ running => by cases (booted.current cpu).symm.trans running
  onOneCpu := fun cpu _ _ _ _ running => by cases (booted.current cpu).symm.trans running
  currentState := fun cpu _ _ running => by cases (booted.current cpu).symm.trans running
  covered := fun task listed thread mem _ =>
    .queued (booted.started task listed thread mem)
  own := booted.own
  main := booted.main
  signals := fun thread queued => absurd (booted.signals thread) queued
  waiting := fun task _ waits => absurd (booted.waiting task) waits
  pid := booted.pid

/-- However the processors interleave orderly steps, no thread is duplicated or
lost. -/
theorem threads_exclusive (machine : Machine σ) (start final : Kernel σ)
    (calls : List SchedCall) (booted : Booted start)
    (run : Run (OrderlyStep machine) start calls final) : Exclusive final := by
  have preserved : ∀ kernel call next, AtRest (view kernel) →
      OrderlyStep machine kernel call next → AtRest (view next) :=
    fun _ _ _ => orderlyStep_atRest
  exact exclusive_of_atRest (run.invariant preserved booted.atRest)

/-- A kernel with one process, about to run its only thread. -/
def oneThread : Kernel Unit :=
  { oneTask with
    task := fun id =>
      if id = 0 then
        { oneTask.task 0 with pid := 2, parent := some 1, main := some 0, threads := [0] }
      else oneTask.task 0
    thread := fun _ => { oneTask.thread 0 with state := .ready }
    cpu := fun cpu => { current := none, idle := cpu + 1 }
    readyQueue := [0] }

theorem oneThread_booted : Booted oneThread where
  current := fun _ => rfl
  queuedOnce := nodup_singleton 0
  ready := fun _ _ => rfl
  started := by
    intro task listed thread mem
    rw [mem_singleton.mp listed] at mem
    exact mem
  own := by
    intro task thread mem
    by_cases isInit : task = 0
    · subst isInit
      rfl
    · simp [oneThread, isInit, oneTask, oneTaskOn, newTask] at mem
  main := by
    intro task thread isMain
    by_cases isInit : task = 0
    · subst isInit
      rfl
    · simp [oneThread, isInit, oneTask, oneTaskOn, newTask] at isMain
  signals := fun _ => rfl
  waiting := by
    intro task
    by_cases isInit : task = 0
    · subst isInit
      rfl
    · simp [oneThread, isInit, oneTask, oneTaskOn, newTask]
  pid := by
    intro task
    by_cases isInit : task = 0
    · subst isInit
      decide
    · simp [oneThread, isInit, oneTask, oneTaskOn, newTask]

/-- Steps that may always be taken, if they turn out to be quiet. -/
def orderlyCall (kernel : Kernel Unit) (call : SchedCall) : Option (Kernel Unit) :=
  match call with
  | .switchTask _ _ | .kill _ _ _ _ | .block _ _ none =>
      (schedCall (oneFile 0) 5 (clearEvents kernel) call).filter fun next =>
        next.events.all quietEvent
  | _ => none

theorem threads_exclusive_block :
    ∃ final, Run (OrderlyStep (oneFile 0)) oneThread
      [.switchTask 0 {}, .switchTask 1 {}, .kill 0 {} 2 3, .block 0 {} none] final ∧
      (final.cpu 0).current = some 1 ∧ Exclusive final := by
  have driven : ((drive orderlyCall oneThread [.switchTask 0 {}, .switchTask 1 {},
      .kill 0 {} 2 3, .block 0 {} none]).map fun final => (final.cpu 0).current) =
      some (some 1) := by
    decide +kernel
  rcases map_eq_some_iff.mp driven with ⟨final, reached, idle⟩
  have orderly : ∀ {kernel : Kernel Unit} {call : SchedCall} {next : Kernel Unit},
      orderlyCall kernel call = some next → OrderlyStep (oneFile 0) kernel call next := by
    intro kernel call next called
    unfold orderlyCall at called
    split at called
    all_goals first
      | cases called
      | rcases filter_eq_some_iff.mp called with ⟨stepped, quiet⟩
        exact ⟨⟨5, stepped⟩, trivial, all_eq_true.mp quiet⟩
  have run := Run.of_drive orderly reached
  exact ⟨final, run, idle, threads_exclusive (oneFile 0) oneThread final _ oneThread_booted run⟩

/-- A thread that sends itself `SIGCONT` runs and is queued at the same time. -/
theorem sigcont_queues_running_thread :
    Booted oneThread ∧ ∃ final, Run (SchedStep (oneFile 0)) oneThread
      [.switchTask 0 {}, .kill 0 {} 2 4] final ∧ ¬ Exclusive final := by
  have driven : ((drive (fun kernel call => schedCall (oneFile 0) 5 (clearEvents kernel) call)
      oneThread [.switchTask 0 {}, .kill 0 {} 2 4]).map fun final =>
        ((final.cpu 0).current, final.readyQueue)) = some (some 0, [0]) := by
    decide +kernel
  rcases map_eq_some_iff.mp driven with ⟨final, reached, observed⟩
  rcases Prod.mk.inj observed with ⟨current, queue⟩
  refine ⟨oneThread_booted, final, .of_drive (fun stepped => ⟨5, stepped⟩) reached, ?_⟩
  intro exclusive
  apply exclusive.notQueued 0 0 current
  rw [queue]
  exact mem_singleton.mpr rfl

end Micro.Proc
