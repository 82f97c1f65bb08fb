import Mathlib.Data.List.Nodup
import Micro.Lib.Run
import Micro.Proc.Moves

/-!
# Pending signals

A signal sent to a task is queued at its main thread until a pass of
`thread_handle_signals` takes it off the queue.  The history below gives every signal
sent a number of its own, so that two signals with the same `signo` can be told apart,
and keeps which of them are queued and which have been acted on.
-/

namespace Micro.Proc

open Kern Mm Lib Fs

variable {thread : ThreadId} {task : TaskId} {cpu : CpuId} {α : Type} {set : Nat} {σ : Type}
  {machine : Machine σ} {kernel : Kernel σ}

/-! ## `sigprocmask` -/

/-- `thread->sigmask = mask` -/
def withSigmask (mask : Nat) (thread : Thread) : Thread := { thread with sigmask := mask }

/-- `if (oldset) *oldset = thread->sigmask` -/
def storeMask (machine : Machine σ) (kernel : Kernel σ) (self : ThreadId) (oldset : Nat) :
    Option σ :=
  if oldset = 0 then some kernel.dev
  else storeBytes machine (current kernel self).vmMap kernel.dev oldset
    ((wordBytes (kernel.thread self).sigmask).take 4)

/-- The mask that `sigprocmask` sets, or nothing for an unknown `how`. -/
def changedMask (how : Int) (mask set : Nat) : Option Nat :=
  if how = 0 then some (mask ||| set)
  else if how = 1 then some (mask &&& (0xffffffff ^^^ set))
  else if how = 2 then some set
  else none

def sysSigprocmask (machine : Machine σ) (kernel : Kernel σ) (self : ThreadId) (how : Int)
    (set oldset : Nat) : Option (Kernel σ × Int) :=
  if set ≠ 0 ∧ ¬ ptrValid kernel self set then some (kernel, -efault)
  else if oldset ≠ 0 ∧ ¬ ptrValid kernel self oldset then some (kernel, -efault)
  else do
    let dev ← storeMask machine kernel self oldset
    if set = 0 then some ({ kernel with dev }, 0)
    else do
      let value ← loadWord machine dev (current kernel self).vmMap set 4
      match changedMask how (kernel.thread self).sigmask value with
      | some mask => some ({ kernel with dev }.setThread self (withSigmask mask), 0)
      | none => some ({ kernel with dev }, -einval)

/-! ## Histories -/

/-- A signal that the mask of a thread blocks. -/
def sigBlocked (kernel : Kernel σ) (thread : ThreadId) (signo : Nat) : Bool :=
  signo != 9 && signo != 15 && (kernel.thread thread).sigmask.testBit signo

/-- The part of a queue that a pass comes to: it goes on to the next signal only after one
that is ignored or continues the task. -/
def examined {α : Type} (kernel : Kernel σ) (thread : ThreadId) (signo : α → Nat) :
    List α → List α
  | [] => []
  | item :: rest =>
      item :: match disposition kernel thread (signo item) with
        | some .ignore => examined kernel thread signo rest
        | some .cont => examined kernel thread signo rest
        | _ => []

/-- The kernel, the number of signals sent to the task so far, and the signals, by the
order in which they were sent, that are queued and that have been acted on. -/
structure SigHistory (σ : Type) where
  kernel : Kernel σ
  sent : Nat
  pending : List Nat
  acted : List Nat

def SigHistory.queue (history : SigHistory σ) (thread : ThreadId) : List (Nat × Nat) :=
  history.pending.zip (history.kernel.thread thread).sigqueue

/-- The steps that concern the signals of a task. -/
inductive SigCall where
  | send (signo : Nat)
  | sigprocmask (how : Int) (set oldset : Nat)
  | pass
  deriving DecidableEq, Repr

/-- A pass took signals off the queue; it acted on those that are not masked. -/
def SigHistory.passed (history : SigHistory σ) (thread : ThreadId) (after : Kernel σ) :
    SigHistory σ :=
  let taken := (history.kernel.thread thread).sigqueue.length -
    (after.thread thread).sigqueue.length
  { history with
    kernel := after
    pending := history.pending.drop taken
    acted := history.acted ++ (((history.queue thread).take taken).filter fun item =>
      disposition history.kernel thread item.2 != some .masked).map Prod.fst }

/-- One step.  A pass ends where it calls `switch_next`: what runs then takes steps of its
own. -/
def sigStep (machine : Machine σ) (cpu : CpuId) (task : TaskId) (thread : ThreadId)
    (history : SigHistory σ) : SigCall → Option (SigHistory σ)
  | .send signo => (taskSend history.kernel task signo).map fun kernel =>
      { history with
        kernel
        sent := history.sent + 1
        pending := history.pending ++ [history.sent] }
  | .sigprocmask how set oldset =>
      (sysSigprocmask machine history.kernel thread how set oldset).map fun done =>
        { history with kernel := done.1 }
  | .pass =>
      (threadHandleSignals machine some cpu thread
        (history.kernel.thread thread).sigqueue history.kernel).map fun handled =>
          history.passed thread handled.kernel

/-- A pass leaves every blocked signal in the queue, and acts on the signals it would act
on if the blocked ones were not there. -/
structure RespectsMask (thread : ThreadId) (before after : SigHistory σ) : Prop where
  kept : ∀ item ∈ before.queue thread, sigBlocked before.kernel thread item.2 = true →
    item ∈ after.queue thread
  unhindered : after.acted = before.acted ++ (examined before.kernel thread Prod.snd
    ((before.queue thread).filter fun item =>
      !sigBlocked before.kernel thread item.2)).map Prod.fst

/-! ## What the rest of the kernel does to the signals of a thread -/

open List Option

/-- The signals of a thread, and what decides about them, are left alone. -/
structure KeepsSignals (thread : ThreadId) (before after : Kernel σ) : Prop where
  sigqueue : (after.thread thread).sigqueue = (before.thread thread).sigqueue
  sigmask : (after.thread thread).sigmask = (before.thread thread).sigmask
  parent : (after.thread thread).parent = (before.thread thread).parent
  tracer : ∀ task, (after.task task).tracer = (before.task task).tracer
  signals : ∀ task, (after.task task).signals = (before.task task).signals
  main : ∀ task, (after.task task).main = (before.task task).main ∨ (after.task task).main = none
  current : ∀ cpu, (after.cpu cpu).current = (before.cpu cpu).current

namespace KeepsSignals

variable {first second third : Kernel σ}

theorem refl (kernel : Kernel σ) : KeepsSignals thread kernel kernel :=
  ⟨rfl, rfl, rfl, fun _ => rfl, fun _ => rfl, fun _ => .inl rfl, fun _ => rfl⟩

theorem trans (before : KeepsSignals thread first second)
    (after : KeepsSignals thread second third) : KeepsSignals thread first third where
  sigqueue := after.sigqueue.trans before.sigqueue
  sigmask := after.sigmask.trans before.sigmask
  parent := after.parent.trans before.parent
  tracer := fun task => (after.tracer task).trans (before.tracer task)
  signals := fun task => (after.signals task).trans (before.signals task)
  main := by
    intro task
    rcases after.main task with same | gone
    · rw [same]
      exact before.main task
    · exact .inr gone
  current := fun cpu => (after.current cpu).trans (before.current cpu)

theorem setThread (kernel : Kernel σ) (other : ThreadId) (change : Thread → Thread)
    (sigqueue : ∀ old, (change old).sigqueue = old.sigqueue)
    (sigmask : ∀ old, (change old).sigmask = old.sigmask)
    (parent : ∀ old, (change old).parent = old.parent) :
    KeepsSignals thread kernel (kernel.setThread other change) := by
  have cases : (kernel.setThread other change).thread thread = kernel.thread thread ∨
      (kernel.setThread other change).thread thread = change (kernel.thread thread) := by
    by_cases same : thread = other
    · subst same
      exact .inr (kernel.setThread_thread_self thread change)
    · exact .inl (kernel.setThread_thread_of_ne change same)
  constructor
  case sigqueue => rcases cases with same | changed <;> simp [*]
  case sigmask => rcases cases with same | changed <;> simp [*]
  case parent => rcases cases with same | changed <;> simp [*]
  case tracer => exact fun _ => rfl
  case signals => exact fun _ => rfl
  case main => exact fun _ => .inl rfl
  case current => exact fun _ => rfl

theorem setOther (kernel : Kernel σ) {other : ThreadId} (change : Thread → Thread)
    (ne : thread ≠ other) : KeepsSignals thread kernel (kernel.setThread other change) := by
  have same := kernel.setThread_thread_of_ne change ne
  exact ⟨by rw [same], by rw [same], by rw [same], fun _ => rfl, fun _ => rfl,
    fun _ => .inl rfl, fun _ => rfl⟩

theorem setTask (kernel : Kernel σ) (task : TaskId) (change : Task → Task)
    (tracer : ∀ old, (change old).tracer = old.tracer)
    (signals : ∀ old, (change old).signals = old.signals)
    (main : ∀ old, (change old).main = old.main ∨ (change old).main = none) :
    KeepsSignals thread kernel (kernel.setTask task change) where
  sigqueue := rfl
  sigmask := rfl
  parent := rfl
  tracer := kernel.setTask_read Task.tracer task change tracer
  signals := kernel.setTask_read Task.signals task change signals
  main := by
    intro other
    by_cases same : other = task
    · subst same
      rw [Kernel.setTask_task_self]
      exact main _
    · rw [Kernel.setTask_task_of_ne _ _ same]
      exact .inl rfl
  current := fun _ => rfl

end KeepsSignals

section Keeps

variable {next : Kernel σ} {status : Int} {signo : Nat}

theorem Calm.keeps (calm : Calm kernel next) : KeepsSignals thread kernel next := by
  cases calm with
  | thread other change kept =>
    exact .setThread _ other change (fun old => (kept old).sigqueue) (fun old => (kept old).sigmask)
      fun old => (kept old).parent
  | task task change kept =>
    exact .setTask _ task change (fun old => (kept old).tracer) (fun old => (kept old).signals)
      fun old => .inl (kept old).main
  | queue | dev | event => exact { KeepsSignals.refl kernel with }
  | adopt adopting clearing =>
    refine adopt_invariant (KeepsSignals thread kernel) (fun task _ keeps => keeps.trans ?_)
      adopting clearing { KeepsSignals.refl kernel with }
    exact .setTask _ task _ (fun _ => rfl) (fun _ => rfl) fun _ => .inl rfl

theorem Calms.keeps (calm : Calms kernel next) : KeepsSignals thread kernel next := by
  induction calm with
  | refl => exact .refl kernel
  | tail _ move ih => exact ih.trans move.keeps

/-- The parent of a task that has given up its main thread is told; the signals of that
thread are left alone if it is the main thread of no other task. -/
theorem notifyParent_keeps (others : ∀ other, (kernel.task other).main ≠ some thread)
    (told : notifyParent kernel task = some next) : KeepsSignals thread kernel next := by
  unfold notifyParent at told
  split at told
  · rename_i parent _
    obtain ⟨main, isMain, result⟩ := map_eq_some_iff.mp told
    subst result
    apply KeepsSignals.setOther
    intro same
    subst same
    exact others parent isMain
  · cases told
    exact .refl kernel

theorem leaveTask_keeps (own : ∀ other, (kernel.task other).main = some thread → other = task)
    (left : leaveTask machine kernel task status = some next) :
    KeepsSignals thread kernel next := by
  obtain ⟨_, sending, rest⟩ := bind_eq_some_iff.mp left
  obtain ⟨_, changing, result⟩ := bind_eq_some_iff.mp rest
  cases result
  have closed : KeepsSignals thread kernel
      ((closeFds machine kernel task).setTask task withoutMain) := by
    apply (closeFds_calm machine kernel task).keeps.trans
    exact .setTask _ task _ (fun _ => rfl) (fun _ => rfl) fun _ => .inr rfl
  have others : ∀ other, (((closeFds machine kernel task).setTask task withoutMain).task
      other).main ≠ some thread := by
    intro other isMain
    by_cases same : other = task
    · subst same
      rw [Kernel.setTask_task_self] at isMain
      cases isMain
    · rcases closed.main other with kept | gone
      · exact same (own other (kept.symm.trans isMain))
      · cases gone.symm.trans isMain
  apply ((closed.trans (notifyParent_keeps others sending)).trans (taskChange_calm changing).keeps).trans
  exact .setTask _ task _ (fun _ => rfl) (fun _ => rfl) fun _ => .inl rfl

theorem taskExit_keeps (running : (kernel.cpu cpu).current = some thread)
    (owner : (kernel.thread thread).parent = task)
    (own : ∀ other, (kernel.task other).main = some thread → other = task)
    (exited : taskExit machine some kernel cpu status = some next) :
    KeepsSignals thread kernel next := by
  obtain ⟨_, isSelf, rest⟩ := bind_eq_some_iff.mp exited
  cases running.symm.trans isSelf
  rw [owner] at rest
  obtain ⟨_, adopting, rest⟩ := bind_eq_some_iff.mp rest
  obtain ⟨cleared, clearing, rest⟩ := bind_eq_some_iff.mp rest
  obtain ⟨_, leaving, result⟩ := bind_eq_some_iff.mp rest
  cases result
  have handedOver : KeepsSignals thread kernel cleared := (handOver_calm adopting clearing).keeps
  have ownAfter : ∀ other, (cleared.task other).main = some thread → other = task := by
    intro other isMain
    rcases handedOver.main other with kept | gone
    · exact own other (kept.symm.trans isMain)
    · cases gone.symm.trans isMain
  exact handedOver.trans (leaveTask_keeps ownAfter leaving)

theorem handleStopsig_keeps (stopped : handleStopsig some kernel thread signo = some next) :
    KeepsSignals thread kernel next := by
  obtain ⟨_, changing, result⟩ := bind_eq_some_iff.mp stopped
  cases result
  apply (taskChange_calm changing).keeps.trans
  exact .setTask _ _ _ (fun _ => rfl) (fun _ => rfl) fun _ => .inl rfl

end Keeps

/-! ## Passes -/

section Pass

variable {after before : Kernel σ}

theorem KeepsSignals.disposition_eq (keeps : KeepsSignals thread before after) (signo : Nat) :
    disposition after thread signo = disposition before thread signo := by
  simp only [disposition, keeps.parent, keeps.sigmask, keeps.tracer, keeps.signals]

theorem KeepsSignals.examined_eq (keeps : KeepsSignals thread before after) (signo : α → Nat)
    (items : List α) : examined after thread signo items = examined before thread signo items := by
  induction items with
  | nil => rfl
  | cons _ items ih => simp only [examined, keeps.disposition_eq, ih]

theorem dequeued_keeps (kernel : Kernel σ) (rest : List Nat) (signo : Nat) :
    disposition (kernel.setThread thread (withSigqueue rest)) thread signo =
      disposition kernel thread signo := by
  simp only [disposition, Kernel.setThread_thread_self]
  rfl

theorem dequeued_examined (kernel : Kernel σ) (rest : List Nat) (signo : α → Nat) (items : List α) :
    examined (kernel.setThread thread (withSigqueue rest)) thread signo items =
      examined kernel thread signo items := by
  induction items with
  | nil => rfl
  | cons _ items ih => simp only [examined, dequeued_keeps, ih]

/-- The thread is the main thread of the task and of no other, unless the task has exited,
and runs on the processor. -/
structure OnCpu (kernel : Kernel σ) (cpu : CpuId) (task : TaskId) (thread : ThreadId) : Prop where
  running : (kernel.cpu cpu).current = some thread
  owner : (kernel.thread thread).parent = task
  main : ∀ main, (kernel.task task).main = some main → main = thread
  own : ∀ other, (kernel.task other).main = some thread → other = task

theorem OnCpu.keeps (onCpu : OnCpu before cpu task thread)
    (keeps : KeepsSignals thread before after) : OnCpu after cpu task thread := by
  have earlier : ∀ {other main}, (after.task other).main = some main →
      (before.task other).main = some main := by
    intro other main isMain
    rcases keeps.main other with kept | gone
    · exact kept.symm.trans isMain
    · cases gone.symm.trans isMain
  exact ⟨(keeps.current cpu).trans onCpu.running, keeps.parent.trans onCpu.owner,
    fun main isMain => onCpu.main main (earlier isMain),
    fun other isMain => onCpu.own other (earlier isMain)⟩

theorem OnCpu.setThread (onCpu : OnCpu kernel cpu task thread) (change : Thread → Thread)
    (owner : ∀ old, (change old).parent = old.parent) :
    OnCpu (kernel.setThread thread change) cpu task thread := by
  refine ⟨onCpu.running, ?_, onCpu.main, onCpu.own⟩
  rw [Kernel.setThread_thread_self, owner]
  exact onCpu.owner

/-- A pass takes the signals it examines off the queue. -/
theorem threadHandleSignals_queue {queue : List Nat} {handled : Handled σ}
    (onCpu : OnCpu kernel cpu task thread) (isQueue : (kernel.thread thread).sigqueue = queue)
    (passed : threadHandleSignals machine some cpu thread queue kernel = some handled) :
    (handled.kernel.thread thread).sigqueue =
          queue.drop (examined kernel thread id queue).length ∧
        OnCpu handled.kernel cpu task thread := by
  induction queue generalizing kernel handled with
  | nil =>
    cases passed
    exact ⟨isQueue, onCpu⟩
  | cons signo rest ih =>
    have popped : ((kernel.setThread thread (withSigqueue rest)).thread thread).sigqueue = rest := by
      rw [Kernel.setThread_thread_self]
      rfl
    have onCpuPopped := onCpu.setThread (withSigqueue rest) fun _ => rfl
    obtain ⟨choice, choosing, passed⟩ := bind_eq_some_iff.mp passed
    have chosen := (dequeued_keeps kernel rest signo).symm.trans choosing
    -- A signal after which the pass ends: the rest of the queue stays.
    have ends : ∀ {next}, KeepsSignals thread (kernel.setThread thread (withSigqueue rest)) next →
        examined kernel thread id (signo :: rest) = [signo] →
        (next.thread thread).sigqueue =
            (signo :: rest).drop (examined kernel thread id (signo :: rest)).length ∧
          OnCpu next cpu task thread := by
      intro next keeps only
      rw [only]
      exact ⟨keeps.sigqueue.trans popped, onCpuPopped.keeps keeps⟩
    -- A signal after which it goes on.
    have goesOn : ∀ {next}, KeepsSignals thread (kernel.setThread thread (withSigqueue rest)) next →
        threadHandleSignals machine some cpu thread rest next = some handled →
        examined kernel thread id (signo :: rest) = signo :: examined kernel thread id rest →
        (handled.kernel.thread thread).sigqueue =
            (signo :: rest).drop (examined kernel thread id (signo :: rest)).length ∧
          OnCpu handled.kernel cpu task thread := by
      intro next keeps passed more
      have left := ih (onCpuPopped.keeps keeps) (keeps.sigqueue.trans popped) passed
      rw [keeps.examined_eq, dequeued_examined] at left
      rw [more]
      exact left
    cases choice with
    | stop =>
      obtain ⟨next, stopped, result⟩ := map_eq_some_iff.mp passed
      subst result
      exact ends (handleStopsig_keeps stopped) (by simp [examined, chosen])
    | masked =>
      cases passed
      exact ends (.refl _) (by simp [examined, chosen])
    | exit _ =>
      obtain ⟨next, exited, result⟩ := map_eq_some_iff.mp passed
      subst result
      exact ends (taskExit_keeps onCpuPopped.running onCpuPopped.owner onCpuPopped.own exited)
        (by simp [examined, chosen])
    | cont =>
      obtain ⟨continued, continuing, passed⟩ := bind_eq_some_iff.mp passed
      have calm : Calms _ continued := .head (.event _ _) (threadHandleContsig_calm continuing)
      exact goesOn calm.keeps passed (by simp [examined, chosen])
    | ignore => exact goesOn (.refl _) passed (by simp [examined, chosen])
    | handler =>
      obtain ⟨next, entered, result⟩ := map_eq_some_iff.mp passed
      subst result
      exact ends (archEnterSignal_calm entered).keeps (by simp [examined, chosen])

end Pass

/-! ## The examined part of a queue -/

section Examined

variable {signo : α → Nat}

theorem examined_eq_take (items : List α) :
    examined kernel thread signo items =
      items.take (examined kernel thread signo items).length := by
  induction items with
  | nil => rfl
  | cons _ items ih =>
    simp only [examined]
    split
    · rw [length_cons, take_succ_cons, ← ih]
    · rw [length_cons, take_succ_cons, ← ih]
    · rfl

theorem map_examined (items : List α) :
    (examined kernel thread signo items).map signo =
      examined kernel thread id (items.map signo) := by
  induction items with
  | nil => rfl
  | cons _ items ih =>
    simp only [examined, map_cons, id_eq]
    split <;> simp [ih]

theorem examined_filter {blocked : α → Bool} (items : List α)
    (clear : ∀ item ∈ examined kernel thread signo items, blocked item = false) :
    examined kernel thread signo (items.filter fun item => !blocked item) =
      examined kernel thread signo items := by
  induction items with
  | nil => rfl
  | cons item items ih =>
    have first : blocked item = false := clear item (by simp [examined])
    rw [filter_cons_of_pos (by simp [first])]
    simp only [examined] at clear ⊢
    split at clear
    · rw [ih fun other mem => clear other (mem_cons_of_mem _ mem)]
    · rw [ih fun other mem => clear other (mem_cons_of_mem _ mem)]
    · rfl

theorem blocked_of_masked {signo : Nat} (masked : disposition kernel thread signo = some .masked) :
    sigBlocked kernel thread signo = true := by
  unfold disposition at masked
  simp only at masked
  split at masked
  · cases masked
  · split at masked
    · cases masked
    · split at masked
      · rename_i blocked
        simp [sigBlocked, blocked]
      · split at masked
        · obtain ⟨action, _, same⟩ := map_eq_some_iff.mp masked
          cases action <;> cases same
        · cases masked
        · cases masked

end Examined

/-! ## Runs -/

/-- The queue of the thread is the one the history tells of, and no signal is both queued
and acted on, or acted on twice. -/
structure Tracked (cpu : CpuId) (task : TaskId) (thread : ThreadId) (history : SigHistory σ) :
    Prop where
  onCpu : OnCpu history.kernel cpu task thread
  length : history.pending.length = (history.kernel.thread thread).sigqueue.length
  nodup : (history.acted ++ history.pending).Nodup
  sent : ∀ signal ∈ history.acted ++ history.pending, signal < history.sent

section Run

variable {history next : SigHistory σ} {how : Int} {oldset : Nat}

theorem Tracked.send (tracked : Tracked cpu task thread history) {signo : Nat}
    (steps : sigStep machine cpu task thread history (.send signo) = some next) :
    Tracked cpu task thread next := by
  obtain ⟨_, sending, result⟩ := map_eq_some_iff.mp steps
  obtain ⟨main, isMain, sent⟩ := map_eq_some_iff.mp sending
  have same := tracked.onCpu.main main isMain
  subst result sent same
  constructor
  case onCpu => exact tracked.onCpu.setThread (withSignal signo) fun _ => rfl
  case length =>
    simp only [Kernel.setThread_thread_self, withSignal, length_append, tracked.length]
    rfl
  case nodup =>
    rw [← append_assoc, ← concat_eq_append]
    exact .concat (fun earlier => Nat.lt_irrefl _ (tracked.sent _ earlier)) tracked.nodup
  case sent =>
    rw [← append_assoc]
    exact forall_mem_append.mpr ⟨fun signal mem => Nat.lt_succ_of_lt (tracked.sent signal mem),
      forall_mem_singleton.mpr (Nat.lt_succ_self _)⟩

theorem sysSigprocmask_cases {done : Kernel σ × Int}
    (called : sysSigprocmask machine kernel thread how set oldset = some done) :
    ∃ dev, done.1 = { kernel with dev } ∨
      ∃ mask, done.1 = { kernel with dev }.setThread thread (withSigmask mask) := by
  unfold sysSigprocmask at called
  split at called
  · cases called
    exact ⟨kernel.dev, .inl rfl⟩
  · split at called
    · cases called
      exact ⟨kernel.dev, .inl rfl⟩
    · obtain ⟨dev, _, rest⟩ := bind_eq_some_iff.mp called
      split at rest
      · cases rest
        exact ⟨dev, .inl rfl⟩
      · obtain ⟨_, _, rest⟩ := bind_eq_some_iff.mp rest
        split at rest
        · rename_i mask _
          cases rest
          exact ⟨dev, .inr ⟨mask, rfl⟩⟩
        · cases rest
          exact ⟨dev, .inl rfl⟩

variable (tracked : Tracked cpu task thread history)
include tracked

theorem Tracked.sigprocmask
    (steps : sigStep machine cpu task thread history (.sigprocmask how set oldset) = some next) :
    Tracked cpu task thread next := by
  obtain ⟨_, called, result⟩ := map_eq_some_iff.mp steps
  subst result
  obtain ⟨dev, same | ⟨mask, changed⟩⟩ := sysSigprocmask_cases called
  · rw [same]
    exact ⟨{ tracked.onCpu with }, tracked.length, tracked.nodup, tracked.sent⟩
  · rw [changed]
    have masked : OnCpu { history.kernel with dev } cpu task thread := { tracked.onCpu with }
    refine ⟨masked.setThread (withSigmask mask) fun _ => rfl, ?_, tracked.nodup, tracked.sent⟩
    simp only [Kernel.setThread_thread_self]
    exact tracked.length

theorem Tracked.names : (history.queue thread).map Prod.fst = history.pending :=
  map_fst_zip (Nat.le_of_eq tracked.length)

section

variable (steps : sigStep machine cpu task thread history .pass = some next)
include steps

/-- The signals a pass examines are the first in the queue. -/
theorem Tracked.passes :
    ∃ k, examined history.kernel thread Prod.snd (history.queue thread) =
        (history.queue thread).take k ∧
      OnCpu next.kernel cpu task thread ∧ next.sent = history.sent ∧
      next.pending = history.pending.drop k ∧
      (next.kernel.thread thread).sigqueue = (history.kernel.thread thread).sigqueue.drop k ∧
      next.acted = history.acted ++ (((history.queue thread).take k).filter fun item =>
        disposition history.kernel thread item.2 != some .masked).map Prod.fst := by
  obtain ⟨handled, passed, result⟩ := map_eq_some_iff.mp steps
  have numbers : (history.queue thread).map Prod.snd = (history.kernel.thread thread).sigqueue :=
    map_snd_zip (Nat.le_of_eq tracked.length.symm)
  obtain ⟨left, onCpu⟩ := threadHandleSignals_queue tracked.onCpu rfl passed
  rw [← numbers, ← map_examined, length_map, numbers] at left
  have isTake := @examined_eq_take thread _ _ history.kernel Prod.snd (history.queue thread)
  generalize examined history.kernel thread Prod.snd (history.queue thread) = seen at left isTake ⊢
  have few : seen.length ≤ (history.kernel.thread thread).sigqueue.length := by
    rw [← numbers, length_map, isTake, length_take]
    exact Nat.min_le_right _ _
  have taken : (history.kernel.thread thread).sigqueue.length -
      (handled.kernel.thread thread).sigqueue.length = seen.length := by
    rw [left, length_drop]
    omega
  subst result
  refine ⟨seen.length, isTake, onCpu, rfl, ?_, left, ?_⟩
  · simp only [SigHistory.passed, taken]
  · simp only [SigHistory.passed, taken]

theorem Tracked.pass : Tracked cpu task thread next := by
  obtain ⟨k, _, onCpu, sameSent, pending, sigqueue, acted⟩ := tracked.passes steps
  have sublist : (next.acted ++ next.pending).Sublist (history.acted ++ history.pending) := by
    rw [acted, pending, append_assoc]
    apply List.Sublist.append_left
    have front := (filter_sublist (p := fun item : Nat × Nat =>
      disposition history.kernel thread item.2 != some .masked)
      (l := (history.queue thread).take k)).map Prod.fst
    rw [map_take, tracked.names] at front
    have whole := front.append (List.Sublist.refl (history.pending.drop k))
    rw [take_append_drop] at whole
    exact whole
  constructor
  case onCpu => exact onCpu
  case length => rw [pending, sigqueue, length_drop, length_drop, tracked.length]
  case nodup => exact tracked.nodup.sublist sublist
  case sent =>
    intro signal mem
    rw [sameSent]
    exact tracked.sent signal (sublist.subset mem)

end

theorem sigStep_tracked {call : SigCall}
    (steps : sigStep machine cpu task thread history call = some next) :
    Tracked cpu task thread next := by
  cases call with
  | send _ => exact tracked.send steps
  | sigprocmask _ _ _ => exact tracked.sigprocmask steps
  | pass => exact tracked.pass steps

/-- A pass respects the mask exactly if it examines no blocked signal. -/
theorem Tracked.respectsMask_iff (steps : sigStep machine cpu task thread history .pass = some next) :
    RespectsMask thread history next ↔
      ∀ item ∈ examined history.kernel thread Prod.snd (history.queue thread),
        sigBlocked history.kernel thread item.2 = false := by
  obtain ⟨k, isSeen, _, _, pending, sigqueue, acted⟩ := tracked.passes steps
  have left : next.queue thread = (history.queue thread).drop k := by
    unfold SigHistory.queue
    rw [pending, sigqueue]
    exact drop_zipWith.symm
  constructor
  · intro respects item seen
    -- A blocked signal that was examined would be in both parts of the queue.
    rw [← Bool.not_eq_true]
    intro blocked
    rw [isSeen] at seen
    have kept := respects.kept item (mem_of_mem_take seen) blocked
    rw [left] at kept
    have names : ((history.queue thread).map Prod.fst).Nodup := by
      rw [tracked.names]
      exact (nodup_append.mp tracked.nodup).2.1
    exact disjoint_take_drop (List.Nodup.of_map _ names) (Nat.le_refl _) seen kept
  · intro clear
    constructor
    · intro item queued blocked
      rw [left]
      rw [← take_append_drop k (history.queue thread), ← isSeen] at queued
      rcases mem_append.mp queued with seen | later
      · cases (clear item seen).symm.trans blocked
      · exact later
    · rw [acted, examined_filter _ clear, ← isSeen]
      rw [filter_eq_self.mpr]
      intro item seen
      rw [bne_iff_ne]
      intro masked
      cases (clear item seen).symm.trans (blocked_of_masked masked)

end Run

/-- In every interleaving no signal is acted on twice, and a pass keeps the blocked
signals queued and is not held up by them exactly if it examines none of them. -/
theorem blocked_signals_pending_iff (machine : Machine σ) (cpu : CpuId) (task : TaskId)
    (thread : ThreadId) (start : Kernel σ) (onCpu : OnCpu start cpu task thread)
    (empty : (start.thread thread).sigqueue = []) (calls : List SigCall)
    (history : SigHistory σ)
    (driven : drive (sigStep machine cpu task thread)
      { kernel := start, sent := 0, pending := [], acted := [] } calls = some history) :
    history.acted.Nodup ∧ ∀ next, sigStep machine cpu task thread history .pass = some next →
      (RespectsMask thread history next ↔
        ∀ item ∈ examined history.kernel thread Prod.snd (history.queue thread),
          sigBlocked history.kernel thread item.2 = false) := by
  have fresh : Tracked cpu task thread { kernel := start, sent := 0, pending := [], acted := [] } :=
    ⟨onCpu, (congrArg length empty).symm, nodup_nil, fun _ member => absurd member not_mem_nil⟩
  have preserved : ∀ history call next, Tracked cpu task thread history → True →
      sigStep machine cpu task thread history call = some next → Tracked cpu task thread next :=
    fun _ _ _ tracked _ steps => sigStep_tracked tracked steps
  have tracked := drive_invariant preserved calls _ history (fun _ _ => trivial) fresh driven
  exact ⟨(nodup_append.mp tracked.nodup).1, fun _ steps => tracked.respectsMask_iff steps⟩

/-- A task with a parent, whose thread blocks the signals of a mask. -/
def masking (mask : Nat) : Kernel Unit :=
  { oneTask with
    task := fun id =>
      if id = 0 then { oneTask.task 0 with main := some 0, parent := some 1 } else oneTask.task 0
    thread := fun _ => { oneTask.thread 0 with sigmask := mask } }

theorem masking_onCpu (mask : Nat) : OnCpu (masking mask) 0 0 0 where
  running := rfl
  owner := rfl
  main := by
    intro main isMain
    cases isMain
    rfl
  own := by
    intro _ isMain
    by_contra different
    simp [masking, different, oneTask, oneTaskOn, newTask] at isMain

/-- A stop signal ends the pass in front of a blocked one. -/
theorem blocked_signals_pending_iff_stop :
    ∃ history next, drive (sigStep (oneFile 0) 0 0 0)
        { kernel := masking 0x8, sent := 0, pending := [], acted := [] } [.send 15, .send 3] =
          some history ∧
      sigStep (oneFile 0) 0 0 0 history .pass = some next ∧ next.acted = [0] ∧
      RespectsMask 0 history next := by
  have driven : ((drive (sigStep (oneFile 0) 0 0 0)
      { kernel := masking 0x8, sent := 0, pending := [], acted := [] } [.send 15, .send 3]).bind
        fun history => (sigStep (oneFile 0) 0 0 0 history .pass).map fun next =>
          (next.acted, (examined history.kernel 0 Prod.snd (history.queue 0)).all fun item =>
            !sigBlocked history.kernel 0 item.2)) = some ([0], true) := by
    decide +kernel
  obtain ⟨history, reached, stepped⟩ := bind_eq_some_iff.mp driven
  obtain ⟨next, passes, observed⟩ := map_eq_some_iff.mp stepped
  obtain ⟨acted, clear⟩ := Prod.mk.inj observed
  have respects := (blocked_signals_pending_iff (oneFile 0) 0 0 0 (masking 0x8) (masking_onCpu 0x8)
    rfl _ history reached).2 next passes
  refine ⟨history, next, reached, passes, acted, respects.mpr fun item seen => ?_⟩
  have unblocked := all_eq_true.mp clear item seen
  rw [Bool.not_eq_true'] at unblocked
  exact unblocked

/-- A blocked signal is examined, taken off the queue and forgotten. -/
theorem blocked_signal_lost :
    ∃ history next, drive (sigStep (oneFile 0) 0 0 0)
        { kernel := masking 0x8, sent := 0, pending := [], acted := [] } [.send 3] =
          some history ∧
      sigStep (oneFile 0) 0 0 0 history .pass = some next ∧ ¬ RespectsMask 0 history next := by
  have driven : ((drive (sigStep (oneFile 0) 0 0 0)
      { kernel := masking 0x8, sent := 0, pending := [], acted := [] } [.send 3]).bind
        fun history => (sigStep (oneFile 0) 0 0 0 history .pass).map fun next =>
          (history.queue 0, sigBlocked history.kernel 0 3, next.queue 0)) =
      some ([(0, 3)], true, []) := by
    decide +kernel
  obtain ⟨history, reached, stepped⟩ := bind_eq_some_iff.mp driven
  obtain ⟨next, passes, observed⟩ := map_eq_some_iff.mp stepped
  obtain ⟨queued, rest⟩ := Prod.mk.inj observed
  obtain ⟨blocked, left⟩ := Prod.mk.inj rest
  refine ⟨history, next, reached, passes, fun respects => ?_⟩
  have kept := respects.kept (0, 3) (by rw [queued]; exact mem_singleton.mpr rfl) blocked
  rw [left] at kept
  exact not_mem_nil kept

end Micro.Proc
