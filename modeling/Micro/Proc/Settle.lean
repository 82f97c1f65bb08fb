import Micro.Proc.Moves
import Micro.Proc.SchedView

/-!
# Switching comes to rest

Every function of the scheduler is followed on the scheduler's view.  A processor
that calls `switch_next` between two threads ends with a thread started and the
invariant restored, unless handling a signal sends the thread into a handler of the
process or takes the default action of `SIGCONT`.
-/

namespace Micro.Proc

open Kern Fs Function List Option

variable {cpu : CpuId} {exempt : ThreadId → Prop} {signo : Nat} {event : Event} {σ : Type}
  {adopted next : Kernel σ} {machine : Machine σ}

/-! ## The view of each update -/

section View

variable (kernel : Kernel σ) (thread : ThreadId) (task : TaskId)

theorem view_setThread (change : Thread → Thread)
    (owner : ∀ old, (change old).parent = old.parent) :
    view (kernel.setThread thread change) = { view kernel with
        state := update (view kernel).state thread (change (kernel.thread thread)).state
        pending := update (view kernel).pending thread
          (change (kernel.thread thread)).sigqueue } := by
  ext1 <;> try rfl
  · exact comp_update Thread.state kernel.thread thread _
  · exact comp_update Thread.sigqueue kernel.thread thread _
  · refine (comp_update Thread.parent kernel.thread thread _).trans ?_
    rw [owner]
    exact update_eq_self thread _

section

variable (change : Task → Task) (threads : ∀ old, (change old).threads = old.threads)
  (pid : ∀ old, (change old).pid = old.pid)
include change threads pid

theorem view_setTask :
    view (kernel.setTask task change) = { view kernel with
        main := update (view kernel).main task (change (kernel.task task)).main
        waiting := update (view kernel).waiting task (change (kernel.task task)).waiting
        taskState := update (view kernel).taskState task
          (change (kernel.task task)).state } := by
  ext1 <;> try rfl
  · refine (comp_update Task.threads kernel.task task _).trans ?_
    rw [threads]
    exact update_eq_self task _
  · exact comp_update Task.main kernel.task task _
  · exact comp_update Task.waiting kernel.task task _
  · refine (comp_update Task.pid kernel.task task _).trans ?_
    rw [pid]
    exact update_eq_self task _
  · exact comp_update Task.state kernel.task task _

theorem view_setTask_same (main : ∀ old, (change old).main = old.main)
    (waiting : ∀ old, (change old).waiting = old.waiting)
    (state : ∀ old, (change old).state = old.state) :
    view (kernel.setTask task change) = view kernel := by
  rw [view_setTask kernel task change threads pid, main, waiting, state]
  ext1 <;> try rfl
  · exact update_eq_self task _
  · exact update_eq_self task _
  · exact update_eq_self task _

end

@[simp] theorem view_withState (state : ThreadState) :
    view (kernel.setThread thread (withState state)) = (view kernel).setState thread state := by
  rw [view_setThread kernel thread (withState state) fun _ => rfl]
  ext1 <;> try rfl
  exact update_eq_self thread _

@[simp] theorem view_schedSpawnthread :
    view (schedSpawnthread kernel thread) = (view kernel).spawn thread := by
  rw [SchedView.spawn, ← view_withState]
  rfl

@[simp] theorem view_withSigqueue (rest : List Nat) :
    view (kernel.setThread thread (withSigqueue rest)) = (view kernel).setPending thread rest := by
  rw [view_setThread kernel thread (withSigqueue rest) fun _ => rfl]
  ext1 <;> try rfl
  exact update_eq_self thread _

@[simp] theorem view_withSignal (signo : Nat) :
    view (kernel.setThread thread (withSignal signo)) =
      (view kernel).setPending thread ((kernel.thread thread).sigqueue ++ [signo]) := by
  rw [view_setThread kernel thread (withSignal signo) fun _ => rfl]
  ext1 <;> try rfl
  exact update_eq_self thread _

@[simp] theorem view_withRegs (regs : Regs) :
    view (kernel.setThread thread (withRegs regs)) = view kernel := by
  rw [view_setThread kernel thread (withRegs regs) fun _ => rfl]
  ext1 <;> try rfl
  · exact update_eq_self thread _
  · exact update_eq_self thread _

@[simp] theorem view_withTaskState (state : TaskState) :
    view (kernel.setTask task (withTaskState state)) = (view kernel).setTaskState task state := by
  rw [view_setTask kernel task (withTaskState state) (fun _ => rfl) fun _ => rfl]
  ext1 <;> try rfl
  · exact update_eq_self task _
  · exact update_eq_self task _

@[simp] theorem view_withWaiting (pid : Int) :
    view (kernel.setTask task (withWaiting pid)) = (view kernel).setWaiting task pid := by
  rw [view_setTask kernel task (withWaiting pid) (fun _ => rfl) fun _ => rfl]
  ext1 <;> try rfl
  · exact update_eq_self task _
  · exact update_eq_self task _

@[simp] theorem view_withStatus (status : Int) :
    view (kernel.setTask task (withStatus status)) = view kernel :=
  view_setTask_same kernel task (withStatus status) (fun _ => rfl) (fun _ => rfl) (fun _ => rfl)
    (fun _ => rfl) fun _ => rfl

@[simp] theorem view_withoutMain :
    view (kernel.setTask task withoutMain) =
      { view kernel with main := update (view kernel).main task none } := by
  rw [view_setTask kernel task withoutMain (fun _ => rfl) fun _ => rfl]
  ext1 <;> try rfl
  · exact update_eq_self task _
  · exact update_eq_self task _

@[simp] theorem view_record (event : Event) : view (kernel.record event) = view kernel := rfl

@[simp] theorem view_setCurrent (cpu : CpuId) :
    view (setCurrent kernel cpu thread) = (view kernel).setCurrent cpu thread := by
  ext1 <;> try rfl
  exact comp_update Cpu.current kernel.cpu cpu _

theorem view_killThreads (threads : List ThreadId) :
    view (killThreads kernel threads) = { view kernel with
        state := fun thread => if thread ∈ threads then .dead else (view kernel).state thread } := by
  induction threads generalizing kernel with
  | nil => rfl
  | cons first rest ih =>
    rw [show killThreads kernel (first :: rest) =
      killThreads (kernel.setThread first (withState .dead)) rest from rfl, ih, view_withState]
    ext1 <;> try rfl
    funext other
    by_cases later : other ∈ rest
    · simp [later]
    · by_cases same : other = first
      · subst same
        simp [SchedView.setState]
      · simp [same, SchedView.setState]

end View

variable {kernel : Kernel σ} {task : TaskId}

theorem view_adopt {cleared : Kernel σ} (adopting : adoptChildren kernel task = some adopted)
    (clearing : clearChildren adopted task = some cleared) : view cleared = view kernel := by
  have same : ∀ (kernel : Kernel σ) (task : TaskId) (children : KList TaskId),
      view (kernel.setTask task (withChildren children)) = view kernel := by
    intro kernel task children
    apply view_setTask_same <;> exact fun _ => rfl
  exact adopt_invariant (view · = view kernel) (fun task _ => (same _ task _).trans) adopting
    clearing rfl

theorem view_closeFds (machine : Machine σ) (kernel : Kernel σ) (task : TaskId) :
    view (closeFds machine kernel task) = view kernel := by
  unfold closeFds
  apply foldlRecOn (motive := fun after => view after = view kernel) _ _ rfl
  intro after same slot _
  rw [← same]
  unfold closeFd
  cases (after.task task).fds slot with
  | none => rfl
  | some file =>
    have shut : view (vfsClose machine after (after.file file)) = view after := by
      unfold vfsClose
      cases (after.file file).ops.release with
      | none => rfl
      | some _ => rfl
    rw [← shut]
    apply view_setTask_same <;> exact fun _ => rfl

/-! ## Events -/

/-- Neither of the two ways in which handling a signal mislays a thread. -/
def quietEvent : Event → Bool
  | .entered _ _ => false
  | .continued _ => false
  | .exited _ _ => true
  | .reaped _ => true

/-- The step in progress has only had quiet events. -/
abbrev Quiet (kernel : Kernel σ) : Prop := Recorded quietEvent kernel

/-! ## Between two threads -/

/-- Every processor counts and every thread is accounted for. -/
abbrev AtRest (view : SchedView) : Prop := Sched (fun _ => True) (fun _ => False) view

/-- A processor is between two threads. -/
abbrev Between (cpu : CpuId) (view : SchedView) : Prop := Sched (· ≠ cpu) (fun _ => False) view

/-- A processor has taken a ready thread and not started it yet. -/
structure Held (cpu : CpuId) (thread : ThreadId) (view : SchedView) : Prop where
  sched : Sched (· ≠ cpu) (· = thread) view
  notQueued : thread ∉ view.queue
  elsewhere : ∀ other, other ≠ cpu → view.current other ≠ some thread
  ready : view.state thread = .ready
  current : view.current cpu = some thread

namespace Held

variable {thread : ThreadId} {view : SchedView}

theorem setPending (held : Held cpu thread view)
    (sole : ∀ main, view.main (view.owner thread) = some main → main = thread)
    (signals : List Nat) : Held cpu thread (view.setPending thread signals) :=
  ⟨held.sched.setPending sole, held.notQueued, held.elsewhere, held.ready, held.current⟩

theorem run (held : Held cpu thread view) : AtRest (view.setState thread .running) := by
  have sched : Sched (· ≠ cpu) (· = thread) (view.setState thread .running) := by
    refine (held.sched.setState held.notQueued held.elsewhere .running ?_).mono fun _ => by simp
    intro task isMain waits
    cases held.ready.symm.trans (held.sched.waiting task thread waits isMain)
  have counted : ∀ other running, view.current other = some running → running ≠ thread →
      other ≠ cpu := by
    intro other running current ne same
    subst same
    rw [held.current] at current
    exact ne (some.inj current).symm
  refine ⟨sched.queuedOnce, sched.queueState, ?_, ?_, ?_, ?_, sched.own, sched.main, sched.signals,
    sched.waiting, sched.pid⟩
  · intro other running _ current
    by_cases same : running = thread
    · subst same
      exact held.notQueued
    · exact sched.notQueued other running (counted other running current same) current
  · intro one other running _ _ currentOne currentOther
    by_cases same : running = thread
    · subst same
      have first : one = cpu := Decidable.byContradiction fun ne =>
        held.elsewhere one ne currentOne
      have second : other = cpu := Decidable.byContradiction fun ne =>
        held.elsewhere other ne currentOther
      exact first.trans second.symm
    · exact sched.onOneCpu one other running (counted one running currentOne same)
        (counted other running currentOther same) currentOne currentOther
  · intro other running _ current
    by_cases same : running = thread
    · subst same
      exact .inl (update_self _ _ _)
    · exact sched.currentState other running (counted other running current same) current
  · intro task listed other mem _
    by_cases same : other = thread
    · subst same
      exact .current cpu trivial held.current
    · exact (sched.covered task listed other mem same).mono fun _ _ _ => trivial

end Held

/-- Run lemma of the loop in `switch_next`: it ends with a ready thread in hand. -/
theorem pickReady_held {fuel : Nat} {thread : ThreadId} (between : Between cpu (view kernel))
    (picked : pickReady cpu fuel kernel = some (next, thread)) : Held cpu thread (view next) := by
  induction fuel generalizing kernel next thread with
  | zero =>
    cases picked
  | succ fuel ih =>
    unfold pickReady at picked
    dsimp only at picked
    cases queue : kernel.readyQueue with
    | nil =>
      have idle : nextReady kernel cpu = (kernel, (kernel.cpu cpu).idle) := by
        simp [nextReady, queue]
      rw [idle] at picked
      have current : Between cpu (view (setCurrent kernel cpu (kernel.cpu cpu).idle)) := by
        rw [view_setCurrent]
        exact between.setCurrent _
      split at picked
      · rename_i ready
        cases picked
        refine ⟨current.mono fun _ => False.elim, ?_, ?_, ready, ?_⟩
        · intro queued
          change _ ∈ kernel.readyQueue at queued
          rw [queue] at queued
          cases queued
        · intro other counted running
          rcases current.currentState other _ counted running with state | state
          · cases ready.symm.trans state
          · cases ready.symm.trans state
        · rw [view_setCurrent]
          exact update_self _ _ _
      · exact ih current picked
    | cons first rest =>
      have mem : first ∈ (view kernel).queue := by
        change first ∈ kernel.readyQueue
        rw [queue]
        exact mem_cons_self
      have notRunning : (kernel.thread first).state ≠ .running := by
        intro running
        rcases between.queueState first mem with state | state
        · cases running.symm.trans state
        · cases running.symm.trans state
      have taken : nextReady kernel cpu = ({ kernel with readyQueue := rest }, first) := by
        simp [nextReady, queue, notRunning]
      rw [taken] at picked
      have shown := queue
      rcases between.dequeue shown with ⟨dequeued, notLater⟩
      have current : Sched (· ≠ cpu) (fun other => False ∨ other = first)
          (view (setCurrent { kernel with readyQueue := rest } cpu first)) := by
        rw [view_setCurrent]
        exact dequeued.setCurrent _
      split at picked
      · rename_i ready
        cases picked
        refine ⟨current.mono fun _ either => either.resolve_left id, notLater, ?_, ready, ?_⟩
        · intro other counted running
          rw [view_setCurrent] at running
          rw [show ((view { kernel with readyQueue := rest }).setCurrent cpu first).current
            other = (view kernel).current other from
            update_of_ne counted _ _] at running
          exact between.notQueued other first counted running mem
        · rw [view_setCurrent]
          exact update_self _ _ _
      · rename_i notReady
        apply ih _ picked
        refine current.absolve fun _ _ other _ exempt _ => ?_
        have same : other = first := exempt.resolve_left id
        subst same
        exact .dead ((between.queueState other mem).resolve_left notReady)

/-! ## Signals and exit -/

variable {counts : CpuId → Prop} {state : TaskState}

/-- `task_change` assigns the state and at most wakes the waiting parent. -/
theorem taskChange_view (changed : taskChange kernel task state = some next) :
    view next = (view kernel).setTaskState task state ∨
      ∃ parent main, (view kernel).main parent = some main ∧
        ((view kernel).waiting parent = (view kernel).pid task ∨
          (view kernel).waiting parent = -1) ∧
        view next = (((view kernel).setTaskState task state).setWaiting parent 0).spawn main := by
  have assigned := view_withTaskState kernel task state
  rcases taskChange_inv changed with result | ⟨parent, main, isMain, waits, result⟩
  · subst result
    exact .inl assigned
  · subst result
    have sameMain : ((kernel.setTask task (withTaskState state)).task parent).main =
        (view kernel).main parent := congrFun (congrArg SchedView.main assigned) parent
    have sameWaiting : ((kernel.setTask task (withTaskState state)).task parent).waiting =
        (view kernel).waiting parent := congrFun (congrArg SchedView.waiting assigned) parent
    have samePid : ((kernel.setTask task (withTaskState state)).task task).pid =
        (view kernel).pid task := congrFun (congrArg SchedView.pid assigned) task
    rw [sameWaiting, samePid] at waits
    rw [sameMain] at isMain
    refine Or.inr ⟨parent, main, isMain, waits, ?_⟩
    rw [view_withWaiting, view_schedSpawnthread, assigned]
    rfl

theorem taskChange_sched (holds : Sched counts exempt ((view kernel).setTaskState task state))
    (changed : taskChange kernel task state = some next) : Sched counts exempt (view next) := by
  rcases taskChange_view changed with same | ⟨_, _, isMain, waits, woken⟩
  · rw [same]
    exact holds
  · rw [woken]
    refine holds.wake isMain fun zero => ?_
    rcases waits with isPid | any
    · exact holds.pid task (isPid.symm.trans zero)
    · cases any.symm.trans zero

theorem taskSend_sched (holds : Sched counts exempt (view kernel))
    (sent : taskSend kernel task signo = some next) :
    Sched counts exempt (view next) ∧ (view next).state = (view kernel).state ∧
      (view next).threads = (view kernel).threads := by
  rcases map_eq_some_iff.mp sent with ⟨main, isMain, result⟩
  subst result
  rw [view_withSignal]
  refine ⟨holds.setPending ?_, rfl, rfl⟩
  intro _ otherMain
  rw [holds.main task main isMain] at otherMain
  exact some.inj (otherMain.symm.trans isMain)

theorem notifyParent_sched (holds : Sched counts exempt (view kernel))
    (sent : notifyParent kernel task = some next) :
    Sched counts exempt (view next) ∧ (view next).state = (view kernel).state ∧
      (view next).threads = (view kernel).threads := by
  unfold notifyParent at sent
  split at sent
  · exact taskSend_sched holds sent
  · cases sent
    exact ⟨holds, rfl, rfl⟩

theorem view_leave {cleared : Kernel σ} (adopting : adoptChildren
      ((killThreads kernel (kernel.task task).threads).record event) task = some adopted)
    (clearing : clearChildren adopted task = some cleared) :
    view ((closeFds machine cleared task).setTask task withoutMain) = (view kernel).leave task := by
  rw [view_withoutMain, view_closeFds, view_adopt adopting clearing, view_record, view_killThreads]
  rfl

section Switch

variable {switch : Kernel σ → Option (Kernel σ)} {thread : ThreadId} {status : Int}

/-- What the invariant needs of the nested call of `switch_next`. -/
structure Settles (cpu : CpuId) (switch : Kernel σ → Option (Kernel σ)) : Prop where
  moves : ∀ {before after}, switch before = some after → Moves before after
  atRest : ∀ {before after}, Between cpu (view before) → switch before = some after →
    Quiet after → AtRest (view after)

/-- An exiting task leaves its processor between two threads. -/
theorem leaveTask_between {cleared : Kernel σ} (holds : Sched (· ≠ cpu) exempt (view kernel))
    (own : ∀ thread, exempt thread → (view kernel).owner thread = task) (adopting : adoptChildren
      ((killThreads kernel (kernel.task task).threads).record event) task = some adopted)
    (clearing : clearChildren adopted task = some cleared)
    (leaving : leaveTask machine cleared task status = some next) : Between cpu (view next) := by
  rcases bind_eq_some_iff.mp leaving with ⟨sent, sending, rest⟩
  rcases bind_eq_some_iff.mp rest with ⟨_, changing, result⟩
  cases result
  have left : Between cpu (view ((closeFds machine cleared task).setTask task withoutMain)) := by
    rw [view_leave adopting clearing]
    refine (holds.leave task).absolve fun other _ thread mem exempted _ => ?_
    -- An exempt thread of a listed task belongs to the task that leaves.
    have same : other = task := (holds.own other thread mem).symm.trans (own thread exempted.1)
    exact absurd (same ▸ mem) exempted.2
  rcases notifyParent_sched left sending with ⟨notified, sameState, sameThreads⟩
  have dead : ∀ thread ∈ (view sent).threads task, (view sent).state thread = .dead := by
    rw [sameState, sameThreads, view_leave adopting clearing]
    exact fun thread mem => if_pos mem
  have accounted : Between cpu ((view sent).setTaskState task .dead) := by
    refine (notified.setTaskState task .dead).absolve fun _ _ thread _ exempted _ => ?_
    exact .dead (dead thread (exempted.resolve_left id).1)
  rw [view_withStatus]
  exact taskChange_sched accounted changing

variable (settles : Settles cpu switch)
include settles

theorem taskExit_atRest {self : ThreadId} (holds : Sched (· ≠ cpu) exempt (view kernel))
    (current : (kernel.cpu cpu).current = some self) (own : ∀ thread, exempt thread → thread = self)
    (exited : taskExit machine switch kernel cpu status = some next) (quiet : Quiet next) :
    AtRest (view next) := by
  rcases bind_eq_some_iff.mp exited with ⟨caller, isCaller, rest⟩
  have same : caller = self := some.inj (isCaller.symm.trans current)
  subst same
  rcases bind_eq_some_iff.mp rest with ⟨_, adopting, rest⟩
  rcases bind_eq_some_iff.mp rest with ⟨_, clearing, rest⟩
  rcases bind_eq_some_iff.mp rest with ⟨_, leaving, rest⟩
  refine settles.atRest (leaveTask_between holds ?_ adopting clearing leaving) rest quiet
  intro thread exempted
  rw [own thread exempted]
  rfl

theorem handleStopsig_atRest (held : Held cpu thread (view kernel))
    (sole : ∀ main, (view kernel).main ((view kernel).owner thread) = some main → main = thread)
    (stopped : handleStopsig switch kernel thread signo = some next) (quiet : Quiet next) :
    AtRest (view next) := by
  rcases bind_eq_some_iff.mp stopped with ⟨_, changing, rest⟩
  have accounted : Between cpu
      ((view kernel).setTaskState (kernel.thread thread).parent .stopped) := by
    refine (held.sched.setTaskState _ .stopped).absolve fun task _ other mem exempted _ => ?_
    have isOwner : ∀ other ∈ (view kernel).threads task, other = thread ∨
        other ∈ (view kernel).threads (kernel.thread thread).parent →
        task = (kernel.thread thread).parent := by
      intro other mem either
      have owner := held.sched.own task other mem
      rcases either with same | owned
      · rw [← owner, same]
        rfl
      · exact owner.symm.trans (held.sched.own _ other owned)
    have soleHere : ∀ main, (view kernel).main (kernel.thread thread).parent = some main →
        main = other := by
      rcases exempted with same | ⟨_, isSole⟩
      · rw [same]
        exact sole
      · exact isSole
    rw [isOwner other mem (exempted.imp id And.left)]
    exact .stopped (update_self _ _ _) soleHere
  refine settles.atRest ?_ rest quiet
  rw [view_withStatus]
  exact taskChange_sched accounted changing

/-- Where handling signals ends: with the thread still in hand, or at rest. -/
def Handled.Settled (cpu : CpuId) (thread : ThreadId) : Handled σ → Prop
  | .returned kernel => Held cpu thread (view kernel)
  | .left kernel | .entered kernel => AtRest (view kernel)

/-- Run lemma of the loop in `thread_handle_signals`, by induction on the signals
still queued. -/
theorem threadHandleSignals_settled {signals : List Nat} {handled : Handled σ}
    (held : Held cpu thread (view kernel)) (queue : (kernel.thread thread).sigqueue = signals)
    (done : threadHandleSignals machine switch cpu thread signals kernel = some handled)
    (quiet : Quiet handled.kernel) : handled.Settled cpu thread := by
  induction signals generalizing kernel handled with
  | nil =>
    cases done
    exact held
  | cons _ rest ih =>
    have pending : (view kernel).pending thread ≠ [] := by
      change (kernel.thread thread).sigqueue ≠ []
      rw [queue]
      exact cons_ne_nil _ _
    have sole := held.sched.signals thread pending
    have popped : Held cpu thread (view (kernel.setThread thread (withSigqueue rest))) := by
      rw [view_withSigqueue]
      exact held.setPending sole rest
    have soleAfter : ∀ main, (view (kernel.setThread thread (withSigqueue rest))).main
        ((view (kernel.setThread thread (withSigqueue rest))).owner thread) = some main →
        main = thread := by
      rw [view_withSigqueue]
      exact sole
    have queueAfter : ((kernel.setThread thread (withSigqueue rest)).thread thread).sigqueue =
        rest := by
      rw [Kernel.setThread_thread_self]
      rfl
    rcases bind_eq_some_iff.mp done with ⟨choice, _, done⟩
    cases choice with
    | stop =>
      rcases map_eq_some_iff.mp done with ⟨next, stopped, result⟩
      subst result
      exact handleStopsig_atRest settles popped soleAfter stopped quiet
    | masked =>
      cases done
      exact popped
    | exit _ =>
      rcases map_eq_some_iff.mp done with ⟨next, exited, result⟩
      subst result
      exact taskExit_atRest settles popped.sched popped.current (fun _ same => same) exited quiet
    | cont =>
      rcases bind_eq_some_iff.mp done with ⟨_, continuing, done⟩
      have noted := Moves.recorded ((threadHandleContsig_calm continuing).moves.trans
        (threadHandleSignals_moves settles.moves done)) quiet
      exact absurd (noted _ mem_concat_self) Bool.false_ne_true
    | ignore => exact ih popped queueAfter done quiet
    | handler =>
      rcases map_eq_some_iff.mp done with ⟨next, entered, result⟩
      subst result
      rcases bind_eq_some_iff.mp entered with ⟨_, _, result⟩
      cases result
      exact absurd (quiet _ mem_concat_self) Bool.false_ne_true

end Switch

/-- Run lemma of `switch_next`: a processor between two threads comes to rest. -/
theorem switchNext_settles (machine : Machine σ) (cpu : CpuId) (fuel : Nat) :
    Settles cpu (switchNext machine cpu fuel) := by
  induction fuel with
  | zero =>
    refine ⟨switchNext_moves, ?_⟩
    intro before after _ switched
    cases switched
  | succ fuel ih =>
    refine ⟨switchNext_moves, ?_⟩
    intro before after between switched quiet
    rcases bind_eq_some_iff.mp switched with ⟨⟨picked, thread⟩, picking, rest⟩
    rcases bind_eq_some_iff.mp rest with ⟨handled, handling, rest⟩
    have held : Held cpu thread (view picked) := pickReady_held between picking
    cases handled with
    | left kernel | entered kernel =>
      cases rest
      exact threadHandleSignals_settled ih held rfl handling quiet
    | returned kernel =>
      cases rest
      have still : Held cpu thread (view kernel) :=
        threadHandleSignals_settled ih held rfl handling quiet
      rw [view_withState]
      exact still.run

end Micro.Proc
