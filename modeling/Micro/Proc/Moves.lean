import Micro.Proc.Sched

/-!
# What switching can change

Everything a switch of threads does, signals and exits included, is a sequence of
small moves: fields of a thread or a task are assigned, a thread is queued or made
current, or the children of an exiting task are handed over.  A fact about the
kernel that every move keeps is kept by every switch.
-/

namespace Micro.Proc

open Kern Fs List Option Function

variable {task : TaskId} {allowed : Event → Bool} {signo : Nat} {status pid ret : Int} {cpu : CpuId}
  {σ : Type} {before after kernel adopted next : Kernel σ} {machine : Machine σ}

/-- The fields that place a task in the process tree, and its stop latch. -/
structure SameLinks (before after : Task) : Prop where
  pid : after.pid = before.pid
  parent : after.parent = before.parent
  children : after.children = before.children
  threads : after.threads = before.threads
  wasStop : after.wasStop = before.wasStop

inductive Move : Kernel σ → Kernel σ → Prop where
  | thread (kernel : Kernel σ) (thread : ThreadId) (change : Thread → Thread)
      (kept : ∀ old, (change old).parent = old.parent) :
      Move kernel (kernel.setThread thread change)
  | task (kernel : Kernel σ) (task : TaskId) (change : Task → Task)
      (kept : ∀ old, SameLinks old (change old)) :
      Move kernel (kernel.setTask task change)
  | queue (kernel : Kernel σ) (queue : List ThreadId) :
      Move kernel { kernel with readyQueue := queue }
  | run (kernel : Kernel σ) (cpu : CpuId) (thread : ThreadId) :
      Move kernel (setCurrent kernel cpu thread)
  | dev (kernel : Kernel σ) (dev : σ) : Move kernel { kernel with dev }
  | event (kernel : Kernel σ) (event : Event) : Move kernel (kernel.record event)
  | adopt {kernel adopted cleared : Kernel σ} {task : TaskId} :
      adoptChildren (kernel.record (.exited task (kernel.task task).children.items)) task =
        some adopted →
      clearChildren adopted task = some cleared → Move kernel cleared

abbrev Moves : Kernel σ → Kernel σ → Prop := Relation.ReflTransGen Move

/-- The fields of a thread that decide about its signals. -/
structure SameSignals (before after : Thread) : Prop where
  parent : after.parent = before.parent
  sigqueue : after.sigqueue = before.sigqueue
  sigmask : after.sigmask = before.sigmask

/-- Besides its links, the fields of a task that decide about signals. -/
structure SameTask (before after : Task) : Prop extends SameLinks before after where
  main : after.main = before.main
  tracer : after.tracer = before.tracer
  signals : after.signals = before.signals

/-- A move that leaves the signals of every thread, and what decides about them, alone. -/
inductive Calm : Kernel σ → Kernel σ → Prop where
  | thread (kernel : Kernel σ) (thread : ThreadId) (change : Thread → Thread)
      (kept : ∀ old, SameSignals old (change old)) : Calm kernel (kernel.setThread thread change)
  | task (kernel : Kernel σ) (task : TaskId) (change : Task → Task)
      (kept : ∀ old, SameTask old (change old)) : Calm kernel (kernel.setTask task change)
  | queue (kernel : Kernel σ) (queue : List ThreadId) :
      Calm kernel { kernel with readyQueue := queue }
  | dev (kernel : Kernel σ) (dev : σ) : Calm kernel { kernel with dev }
  | event (kernel : Kernel σ) (event : Event) : Calm kernel (kernel.record event)
  | adopt {kernel adopted cleared : Kernel σ} {task : TaskId} :
      adoptChildren (kernel.record (.exited task (kernel.task task).children.items)) task =
        some adopted →
      clearChildren adopted task = some cleared → Calm kernel cleared

/-- A sequence of calm moves. -/
abbrev Calms : Kernel σ → Kernel σ → Prop := Relation.ReflTransGen Calm

theorem Calm.move (calm : Calm before after) : Move before after := by
  cases calm with
  | thread thread change kept => exact .thread _ thread change fun old => (kept old).parent
  | task task change kept => exact .task _ task change fun old => (kept old).toSameLinks
  | queue queue => exact .queue _ queue
  | dev dev => exact .dev _ dev
  | event event => exact .event _ event
  | adopt adopting clearing => exact .adopt adopting clearing

namespace Calms

theorem moves (calm : Calms before after) : Moves before after := calm.lift id fun _ _ => Calm.move

theorem foldl {α : Type} {step : Kernel σ → α → Kernel σ}
    (calm : ∀ kernel item, Calms kernel (step kernel item)) :
    ∀ (items : List α) (kernel : Kernel σ), Calms kernel (items.foldl step kernel) :=
  fun items _ => items.foldlRecOn step .refl fun after reached item _ =>
    reached.trans (calm after item)

end Calms

/-! ## Threads and descriptors -/

theorem schedSpawnthread_calm (kernel : Kernel σ) (thread : ThreadId) :
    Calms kernel (schedSpawnthread kernel thread) :=
  .tail (.single (.thread kernel thread (withState .ready) fun _ => ⟨rfl, rfl, rfl⟩)) (.queue _ _)

theorem killThreads_calm (kernel : Kernel σ) (threads : List ThreadId) :
    Calms kernel (killThreads kernel threads) :=
  Calms.foldl (fun kernel thread =>
    .single (.thread kernel thread (withState .dead) fun _ => ⟨rfl, rfl, rfl⟩)) threads kernel

theorem killThreads_task (kernel : Kernel σ) (threads : List ThreadId) :
    (killThreads kernel threads).task = kernel.task :=
  threads.foldlRecOn (motive := fun after : Kernel σ => after.task = kernel.task) _ rfl
    fun _ same _ _ => same

theorem vfsClose_calm (machine : Machine σ) (kernel : Kernel σ) (file : File) :
    Calms kernel (vfsClose machine kernel file) := by
  unfold vfsClose
  cases file.ops.release with
  | none => exact .refl
  | some _ => exact .single (.dev _ _)

theorem closeFd_calm (machine : Machine σ) (task : TaskId) (kernel : Kernel σ) (slot : Nat) :
    Calms kernel (closeFd machine task kernel slot) := by
  unfold closeFd
  cases (kernel.task task).fds slot with
  | none => exact .refl
  | some _ =>
    exact (vfsClose_calm machine kernel _).tail
      (.task _ _ _ fun _ => ⟨⟨rfl, rfl, rfl, rfl, rfl⟩, rfl, rfl, rfl⟩)

theorem closeFds_calm (machine : Machine σ) (kernel : Kernel σ) (task : TaskId) :
    Calms kernel (closeFds machine kernel task) := by
  unfold closeFds
  exact .foldl (closeFd_calm machine task) _ kernel

/-! ## Children -/

theorem addChildren_eq (kernel : Kernel σ) (init : TaskId) (children : List TaskId) :
    addChildren kernel init children = kernel.setTask init (withChildren
      ⟨(kernel.task init).children.items ++ children,
        (kernel.task init).children.size + children.length⟩) := by
  induction children generalizing kernel with
  | nil =>
    rw [append_nil]
    exact (congrArg (fun task => { kernel with task }) (update_eq_self init _)).symm
  | cons child children ih =>
    rw [show addChildren kernel init (child :: children) =
      addChildren (addChild kernel init child) init children from rfl, ih]
    simp only [addChild, Kernel.setTask, update_self, update_idem, withChild,
      withChildren, KList.enqueue, append_assoc, singleton_append, length_cons]
    rw [Nat.add_assoc, Nat.add_comm 1]

theorem adopt_inv {cleared : Kernel σ} (adopting : adoptChildren kernel task = some adopted)
    (clearing : clearChildren adopted task = some cleared) :
    ∃ kept, (kernel.task task).children.clear = some kept ∧
      (((kernel.task task).children.items = [] ∧
          cleared = kernel.setTask task (withChildren kept)) ∨
        ∃ init, schedTaskFromid kernel 1 = some init ∧ init ≠ task ∧
          cleared = (kernel.setTask init (withChildren
            ⟨(kernel.task init).children.items ++ (kernel.task task).children.items,
              (kernel.task init).children.size + (kernel.task task).children.items.length⟩)).setTask
            task (withChildren kept)) := by
  rcases map_eq_some_iff.mp clearing with ⟨kept, clear, result⟩
  unfold adoptChildren at adopting
  split at adopting
  · rename_i empty
    cases adopting
    exact ⟨kept, clear, .inl ⟨empty, result.symm⟩⟩
  · rcases bind_eq_some_iff.mp adopting with ⟨init, found, rest⟩
    split at rest
    · cases rest
    · rename_i ne
      have same : adopted = _ := (some.inj rest).symm.trans (addChildren_eq _ _ _)
      rw [same] at clear result
      rw [Kernel.setTask_task_of_ne _ _ (Ne.symm ne)] at clear
      exact ⟨kept, clear, .inr ⟨init, found, ne, result.symm⟩⟩

theorem adopt_invariant (property : Kernel σ → Prop) {cleared : Kernel σ}
    (kept : ∀ {kernel : Kernel σ} task children, property kernel →
      property (kernel.setTask task (withChildren children)))
    (adopting : adoptChildren kernel task = some adopted)
    (clearing : clearChildren adopted task = some cleared) (holds : property kernel) :
    property cleared := by
  rcases adopt_inv adopting clearing with ⟨_, _, ⟨_, result⟩ | ⟨_, _, _, result⟩⟩
  · rw [result]
    exact kept _ _ holds
  · rw [result]
    exact kept _ _ (kept _ _ holds)

theorem handOver_calm {cleared : Kernel σ}
    (adopting : adoptChildren ((killThreads kernel (kernel.task task).threads).record
      (.exited task (kernel.task task).children.items)) task = some adopted)
    (clearing : clearChildren adopted task = some cleared) : Calms kernel cleared := by
  refine (killThreads_calm kernel (kernel.task task).threads).tail (.adopt ?_ clearing)
  rw [killThreads_task]
  exact adopting

/-! ## Events -/

/-- The step in progress has only had events of an allowed kind. -/
def Recorded (allowed : Event → Bool) (kernel : Kernel σ) : Prop :=
  ∀ event ∈ kernel.events, allowed event = true

theorem Move.events (move : Move before after) : before.events ⊆ after.events := by
  cases move with
  | thread | task | queue | run | dev => exact fun _ mem => mem
  | event => exact fun _ mem => mem_append_left _ mem
  | adopt adopted cleared =>
    intro event mem
    exact adopt_invariant (event ∈ ·.events) (fun _ _ => id) adopted cleared (mem_append_left _ mem)

theorem Moves.recorded (moves : Moves before after) (quiet : Recorded allowed after) :
    Recorded allowed before := by
  induction moves with
  | refl => exact quiet
  | tail _ move ih => exact ih fun event mem => quiet event (move.events mem)

theorem Moves.invariant {property : Kernel σ → Prop}
    (kept : ∀ {before after : Kernel σ}, Move before after → Recorded allowed after →
      property before → property after) (moves : Moves before after)
    (quiet : Recorded allowed after) (holds : property before) : property after := by
  induction moves with
  | refl => exact holds
  | tail _ move ih => exact kept move quiet (ih fun event mem => quiet event (move.events mem))

/-! ## Tasks -/

variable {state : TaskState}

theorem taskSend_moves (sent : taskSend kernel task signo = some next) : Moves kernel next := by
  rcases map_eq_some_iff.mp sent with ⟨_, _, result⟩
  subst result
  exact .single (.thread _ _ _ fun _ => rfl)

section

variable (changed : taskChange kernel task state = some next)
include changed

/-- What `task_change` does: it assigns the state, and wakes the parent if that waits for the
task. -/
theorem taskChange_inv :
    next = kernel.setTask task (withTaskState state) ∨
      ∃ parent main, ((kernel.setTask task (withTaskState state)).task parent).main = some main ∧
        (((kernel.setTask task (withTaskState state)).task parent).waiting =
            ((kernel.setTask task (withTaskState state)).task task).pid ∨
          ((kernel.setTask task (withTaskState state)).task parent).waiting = -1) ∧
        next = (threadUnblock (kernel.setTask task (withTaskState state)) main).setTask parent
          (withWaiting 0) := by
  rcases bind_eq_some_iff.mp changed with ⟨parent, _, rest⟩
  dsimp only at rest
  split at rest
  · rename_i waits
    rcases bind_eq_some_iff.mp rest with ⟨main, isMain, result⟩
    cases result
    exact .inr ⟨parent, main, isMain, waits, rfl⟩
  · cases rest
    exact .inl rfl

theorem taskChange_calm : Calms kernel next := by
  have assigned : Calms kernel (kernel.setTask task (withTaskState state)) :=
    .single (.task _ _ _ fun _ => ⟨⟨rfl, rfl, rfl, rfl, rfl⟩, rfl, rfl, rfl⟩)
  rcases taskChange_inv changed with result | ⟨_, main, _, _, result⟩
  · subst result
    exact assigned
  · subst result
    exact (assigned.trans (schedSpawnthread_calm _ main)).tail
      (.task _ _ _ fun _ => ⟨⟨rfl, rfl, rfl, rfl, rfl⟩, rfl, rfl, rfl⟩)

end

theorem notifyParent_moves (sent : notifyParent kernel task = some next) : Moves kernel next := by
  unfold notifyParent at sent
  split at sent
  · exact taskSend_moves sent
  · cases sent
    exact .refl

theorem leaveTask_moves (left : leaveTask machine kernel task status = some next) :
    Moves kernel next := by
  rcases bind_eq_some_iff.mp left with ⟨_, sending, rest⟩
  rcases bind_eq_some_iff.mp rest with ⟨_, changing, result⟩
  cases result
  have closed : Moves kernel ((closeFds machine kernel task).setTask task withoutMain) :=
    (closeFds_calm machine kernel task).moves.tail
      (.task _ _ withoutMain fun _ => ⟨rfl, rfl, rfl, rfl, rfl⟩)
  exact ((closed.trans (notifyParent_moves sending)).trans (taskChange_calm changing).moves).tail
    (.task _ _ (withStatus status) fun _ => ⟨rfl, rfl, rfl, rfl, rfl⟩)

section Switch

variable {switch : Kernel σ → Option (Kernel σ)} {thread : ThreadId}

section

variable (switches : ∀ {before after}, switch before = some after → Moves before after)
include switches

theorem taskExit_moves (exited : taskExit machine switch kernel cpu status = some next) :
    Moves kernel next := by
  rcases bind_eq_some_iff.mp exited with ⟨_, _, rest⟩
  rcases bind_eq_some_iff.mp rest with ⟨_, adopting, rest⟩
  rcases bind_eq_some_iff.mp rest with ⟨_, clearing, rest⟩
  rcases bind_eq_some_iff.mp rest with ⟨_, leaving, rest⟩
  exact ((handOver_calm adopting clearing).moves.trans (leaveTask_moves leaving)).trans
    (switches rest)

theorem handleStopsig_moves (stopped : handleStopsig switch kernel thread signo = some next) :
    Moves kernel next := by
  rcases bind_eq_some_iff.mp stopped with ⟨_, changing, rest⟩
  exact ((taskChange_calm changing).moves.tail
    (.task _ _ (withStatus _) fun _ => ⟨rfl, rfl, rfl, rfl, rfl⟩)).trans (switches rest)

end

theorem threadHandleContsig_calm
    (continued : threadHandleContsig kernel thread = some next) : Calms kernel next := by
  rcases bind_eq_some_iff.mp continued with ⟨_, changing, result⟩
  cases result
  have assigned : Calms kernel (kernel.setTask (kernel.thread thread).parent (withStatus 0xffff)) :=
    .single (.task _ _ (withStatus _) fun _ => ⟨⟨rfl, rfl, rfl, rfl, rfl⟩, rfl, rfl, rfl⟩)
  exact (assigned.trans (taskChange_calm changing)).trans (schedSpawnthread_calm _ _)

theorem archEnterSignal_calm (entered : archEnterSignal machine kernel thread signo = some next) :
    Calms kernel next := by
  rcases bind_eq_some_iff.mp entered with ⟨dev, _, result⟩
  cases result
  exact .tail (.single (.dev kernel dev)) (.event _ _)

theorem threadHandleSignals_moves
    (switches : ∀ {before after}, switch before = some after → Moves before after)
    {signals : List Nat} {handled : Handled σ}
    (done : threadHandleSignals machine switch cpu thread signals kernel = some handled) :
    Moves kernel handled.kernel := by
  induction signals generalizing kernel handled with
  | nil =>
    cases done
    exact .refl
  | cons _ rest ih =>
    rcases bind_eq_some_iff.mp done with ⟨choice, _, done⟩
    have popped : Moves kernel (kernel.setThread thread (withSigqueue rest)) :=
      .single (.thread _ _ _ fun _ => rfl)
    cases choice with
    | stop =>
      rcases map_eq_some_iff.mp done with ⟨next, stopped, result⟩
      subst result
      exact popped.trans (handleStopsig_moves switches stopped)
    | masked =>
      cases done
      exact popped
    | exit _ =>
      rcases map_eq_some_iff.mp done with ⟨next, exited, result⟩
      subst result
      exact popped.trans (taskExit_moves switches exited)
    | cont =>
      rcases bind_eq_some_iff.mp done with ⟨_, continuing, done⟩
      exact ((popped.tail (.event _ _)).trans (threadHandleContsig_calm continuing).moves).trans
        (ih done)
    | ignore => exact popped.trans (ih done)
    | handler =>
      rcases map_eq_some_iff.mp done with ⟨next, entered, result⟩
      subst result
      exact popped.trans (archEnterSignal_calm entered).moves

end Switch

/-! ## Switching -/

section Processor

theorem nextReady_moves (kernel : Kernel σ) : Moves kernel (nextReady kernel cpu).1 := by
  unfold nextReady
  split
  · exact .refl
  · split
    · exact .single (.queue _ _)
    · exact .single (.queue _ _)

theorem pickReady_moves {fuel : Nat} {thread : ThreadId}
    (picked : pickReady cpu fuel kernel = some (next, thread)) : Moves kernel next := by
  induction fuel generalizing kernel next thread with
  | zero =>
    cases picked
  | succ fuel ih =>
    have current : Moves kernel (setCurrent (nextReady kernel cpu).1 cpu
        (nextReady kernel cpu).2) :=
      (nextReady_moves kernel).tail (.run _ _ _)
    unfold pickReady at picked
    dsimp only at picked
    split at picked
    · cases picked
      exact current
    · exact current.trans (ih picked)

/-- Run lemma: by induction on the fuel, which bounds how often a switch ends in
another one. -/
theorem switchNext_moves {fuel : Nat} (switched : switchNext machine cpu fuel kernel = some next) :
    Moves kernel next := by
  induction fuel generalizing kernel next with
  | zero =>
    cases switched
  | succ fuel ih =>
    rcases bind_eq_some_iff.mp switched with ⟨⟨_, _⟩, picking, rest⟩
    rcases bind_eq_some_iff.mp rest with ⟨handled, handling, rest⟩
    have signals : Moves kernel handled.kernel :=
      (pickReady_moves picking).trans (threadHandleSignals_moves ih handling)
    cases handled with
    | left after | entered after =>
      cases rest
      exact signals
    | returned after =>
      cases rest
      exact signals.tail (.thread _ _ (withState .running) fun _ => rfl)

theorem saveContext_calm (kernel : Kernel σ) (cpu : CpuId) (regs : Regs) :
    Calms kernel (saveContext kernel cpu regs) := by
  unfold saveContext
  cases (kernel.cpu cpu).current with
  | none => exact .refl
  | some self =>
    have saved : Calms kernel (kernel.setThread self (withRegs regs)) :=
      .single (.thread _ _ _ fun _ => ⟨rfl, rfl, rfl⟩)
    dsimp only
    split
    · exact saved.trans (schedSpawnthread_calm _ _)
    · exact saved

variable {fuel : Nat} {regs : Regs}

theorem switchTask_moves (switched : switchTask machine fuel kernel cpu regs = some next) :
    Moves kernel next :=
  (saveContext_calm kernel cpu regs).moves.trans (switchNext_moves switched)

theorem threadBlock_moves (blocked : threadBlock machine fuel kernel cpu regs = some next) :
    Moves kernel next := by
  rcases bind_eq_some_iff.mp blocked with ⟨_, _, switched⟩
  exact (Relation.ReflTransGen.single (.thread _ _ (withState .blocked) fun _ => rfl)).trans
    (switchTask_moves switched)

theorem taskSendYield_moves
    (sent : taskSendYield machine fuel kernel cpu regs task signo = some next) :
    Moves kernel next := by
  rcases bind_eq_some_iff.mp sent with ⟨_, queueing, rest⟩
  split at rest
  · exact (taskSend_moves queueing).trans (switchTask_moves rest)
  · cases rest
    exact taskSend_moves queueing

theorem sysKill_moves {sig : Int}
    (killed : sysKill machine fuel kernel cpu regs pid sig = some (next, ret)) :
    Moves kernel next := by
  unfold sysKill at killed
  split at killed
  · cases killed
    exact .refl
  · split at killed
    · cases killed
      exact .refl
    · rcases map_eq_some_iff.mp killed with ⟨_, sending, result⟩
      cases result
      exact taskSendYield_moves sending

theorem sysPtrace_moves {req : PtraceReq}
    (traced : sysPtrace machine fuel kernel cpu regs req pid = some (next, ret)) :
    Moves kernel next := by
  have attached : ∀ tracer tracee, Moves kernel (ptraceAttach kernel tracer tracee) :=
    fun _ _ => .single (.task _ _ (withTracer _) fun _ => ⟨rfl, rfl, rfl, rfl, rfl⟩)
  unfold sysPtrace at traced
  cases req with
  | attach =>
    dsimp only at traced
    split at traced
    · cases traced
      exact .refl
    · rcases map_eq_some_iff.mp traced with ⟨_, sending, result⟩
      cases result
      exact (attached _ _).trans (taskSendYield_moves sending)
  | traceme =>
    rcases map_eq_some_iff.mp traced with ⟨_, _, result⟩
    cases result
    exact attached _ _
  | cont =>
    dsimp only at traced
    split at traced
    · cases traced
      exact .refl
    · rcases bind_eq_some_iff.mp traced with ⟨_, _, rest⟩
      rcases map_eq_some_iff.mp rest with ⟨_, continuing, result⟩
      cases result
      exact (threadHandleContsig_calm continuing).moves

end Processor

end Micro.Proc
