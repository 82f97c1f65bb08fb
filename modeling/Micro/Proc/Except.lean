import Micro.Proc.Exclusive

/-!
# Exceptions

`except()` counts how many calls of it have not come to their end, and takes a count above
one for an exception inside an exception.  Its handlers send signals to the task that faulted,
which gives up the processor inside the call: other threads run, and take exceptions of their
own, before it goes on, and it never does if its task is killed meanwhile.  Nothing keeps two
processors from being in `except()` at the same time.

A step raises the counter, calls the handler, lowers the counter or ends with a yield.
-/

namespace Micro.Proc

open Kern Mm Lib Option Function

variable {σ : Type}

/-- Where in `except()` a thread is. -/
inductive Point where
  /-- In the `task_send` for a nested exception. -/
  | nestedSend
  /-- In the `sched_yield` that follows it. -/
  | nestedYield
  /-- Before the call of the handler. -/
  | handler
  /-- In the `task_send` of a handler. -/
  | send
  /-- Behind the call of the handler. -/
  | handled
  /-- In the last `sched_yield`. -/
  | leaving
  /-- Nowhere any more: it was sent into a signal handler. -/
  | abandoned
  deriving DecidableEq, Repr

/-- The thread has yielded there. -/
def Point.yields : Point → Bool
  | .nestedSend | .nestedYield | .send | .leaving => true
  | .handler | .handled | .abandoned => false

/-- A call of `except()`: its arguments, and how far it is. -/
structure Frame where
  n : Nat
  regs : Regs
  point : Point
  deriving DecidableEq, Repr

/-- What becomes of the call when the thread is sent into a signal handler. -/
def Frame.abandon (frame : Frame) : Option Frame :=
  if frame.point = .leaving then none else some { frame with point := .abandoned }

/-- The kernel, the static counter, and the calls that threads are in, or were in when they were
killed or sent into a signal handler. -/
structure Faulting (σ : Type) where
  kernel : Kernel σ
  nested : Int
  frames : ThreadId → Option Frame

/-! ## Handlers -/

/-- `regs->cs & 3` -/
def fromUser (regs : Regs) : Bool := regs.cs &&& 3 ≠ 0

def withSyscallRegs (regs : Regs) (thread : Thread) : Thread := { thread with syscallRegs := regs }

/-- What `vm_map_handle_fault` leaves behind. -/
def afterFault (kernel : Kernel σ) (self : ThreadId) (dev : σ) (vmMap : VmMap) : Kernel σ :=
  { kernel with dev }.setTask (kernel.thread self).parent fun task => { task with vmMap }

/-- `pf`, with the address in `cr2`: the signal to be sent, if any -/
def pf (machine : Machine σ) (kernel : Kernel σ) (self : ThreadId) (regs : Regs) (cr2 : Nat) :
    Option (Kernel σ × Option Nat) :=
  if ¬ fromUser regs then none
  else if cr2 < 0x8000000000 then
    (vmMapHandleFault machine kernel.dev (kernel.task (kernel.thread self).parent).vmMap cr2).map
      fun (dev, vmMap, ret) =>
        if ret = -1 then
          ((afterFault kernel self dev vmMap).setThread self (withRegs regs), some 14)
        else (afterFault kernel self dev vmMap, none)
  else some (kernel, none)

/-- A handler that sends a signal to a task that was in user mode, and panics otherwise. -/
def sendFromUser (kernel : Kernel σ) (regs : Regs) (signo : Nat) : Option (Kernel σ × Option Nat) :=
  if fromUser regs then some (kernel, some signo) else none

/-- `handlers[n](regs)`, up to the `task_send` that some of them end with; `none` where it
panics or there is no handler. -/
def handlers (machine : Machine σ) (kernel : Kernel σ) (self : ThreadId) (n : Nat) (regs : Regs)
    (cr2 : Nat) : Option (Kernel σ × Option Nat) :=
  match n with
  | 0 | 16 | 19 => sendFromUser kernel regs 5
  | 1 | 2 | 3 | 4 | 20 => some (kernel, none)
  | 6 => sendFromUser kernel regs 7
  | 13 => sendFromUser (kernel.setThread self (withSyscallRegs regs)) regs 14
  | 14 => pf machine kernel self regs cr2
  | _ => none

/-! ## The call -/

/-- `task_send(task_curr(), signo)` up to its yield -/
def sendSelf (kernel : Kernel σ) (self : ThreadId) (signo : Nat) : Option (Kernel σ) :=
  taskSend kernel (kernel.thread self).parent signo

section

variable (machine : Machine σ) (fuel : Nat) (state : Faulting σ) (self : ThreadId)

/-- The thread comes to a point of the call. -/
def Faulting.goto (frame : Frame) : Faulting σ :=
  { state with frames := Function.update state.frames self (some frame) }

/-- `except()` up to the call of the handler, or to the yield for a nested exception -/
def except (n : Nat) (regs : Regs) : Option (Faulting σ) :=
  let state := { state with nested := state.nested + 1 }
  if state.nested > 1 then
    (sendSelf state.kernel self 7).map fun sent =>
      { state with kernel := sent }.goto self ⟨n, regs, .nestedSend⟩
  else some (state.goto self ⟨n, regs, .handler⟩)

/-- `except()` from where a thread is to the next point, or to its return.  The handler of a
nested exception finds in `cr2` what was put there last. -/
def exceptResume (frame : Frame) (cr2 : Nat) : Option (Faulting σ) :=
  match frame.point with
  | .nestedSend => some ({ state with nested := 0 }.goto self { frame with point := .nestedYield })
  | .nestedYield => some (state.goto self { frame with point := .handler })
  | .handler => do
      let (kernel, signal) ← handlers machine state.kernel self frame.n frame.regs cr2
      match signal with
      | some signo =>
          let sent ← sendSelf kernel self signo
          some ({ state with kernel := sent }.goto self { frame with point := .send })
      | none => some ({ state with kernel }.goto self { frame with point := .handled })
  | .send => some (state.goto self { frame with point := .handled })
  | .handled =>
      some ({ state with nested := state.nested - 1 }.goto self { frame with point := .leaving })
  | .leaving => some { state with frames := Function.update state.frames self none }
  | .abandoned => none

/-! ## Interleavings -/

/-- What the processors do: a thread takes an exception, goes on inside `except()`, or anything
else that the scheduler does.  The last registers of the first two are those of the kernel code
that yields. -/
inductive FaultCall where
  | trap (cpu : CpuId) (n : Nat) (regs saved : Regs)
  | resume (cpu : CpuId) (cr2 : Nat) (saved : Regs)
  | sched (call : SchedCall)

/-- The thread was sent into a signal handler. -/
def enteredHandler (events : List Event) (thread : ThreadId) : Bool :=
  events.any fun
    | .entered entered _ => entered = thread
    | _ => false

/-- A step of the scheduler; a thread that is sent into a signal handler does not come back to
the call of `except()` it was in. -/
def reschedule (call : SchedCall) : Option (Faulting σ) :=
  (schedCall machine fuel (clearEvents state.kernel) call).map fun kernel =>
    { state with
      kernel
      frames := fun thread =>
        if enteredHandler kernel.events thread then (state.frames thread).bind Frame.abandon
        else state.frames thread }

/-- The yield at the end of a step, if there is one. -/
def yieldAt (cpu : CpuId) (saved : Regs) : Option (Faulting σ) :=
  if (state.frames self).any fun frame => frame.point.yields then
    reschedule machine fuel state (.switchTask cpu saved)
  else some state

def faultCall : FaultCall → Option (Faulting σ)
  | .trap cpu n regs saved => do
      let self ← (state.kernel.cpu cpu).current
      if (state.frames self).any fun frame => frame.point ≠ .abandoned then none
      else
        let entered ← except state self n regs
        yieldAt machine fuel entered self cpu saved
  | .resume cpu cr2 saved => do
      let self ← (state.kernel.cpu cpu).current
      let frame ← state.frames self
      let resumed ← exceptResume machine state self frame cr2
      yieldAt machine fuel resumed self cpu saved
  | .sched call => reschedule machine fuel state call

end

/-- A step, with as much fuel as it needs. -/
def FaultStep (machine : Machine σ) (state : Faulting σ) (call : FaultCall) (next : Faulting σ) :
    Prop :=
  ∃ fuel, faultCall machine fuel state call = some next

/-- No exception enters while another one is in progress, be it on another processor: whoever was
in `except()` has lowered the counter. -/
def Apart (state : Faulting σ) : FaultCall → Prop
  | .trap _ _ _ _ => ∀ thread frame, state.frames thread = some frame → frame.point = .leaving
  | _ => True

/-! ## Page faults that are resolved -/

variable {state next : Faulting σ} {kernel : Kernel σ} {machine : Machine σ} {fuel cr2 n : Nat}
  {regs : Regs} {self : ThreadId}

/-- `vm_map_handle_fault` resolves a fault of the thread at an address. -/
def Resolves (machine : Machine σ) (kernel : Kernel σ) (self : ThreadId) (cr2 : Nat) : Prop :=
  ∃ dev vmMap ret,
    vmMapHandleFault machine kernel.dev (kernel.task (kernel.thread self).parent).vmMap cr2 =
      some (dev, vmMap, ret) ∧ ret ≠ -1

theorem pf_resolved (user : fromUser regs) (low : cr2 < 0x8000000000)
    (resolves : Resolves machine kernel self cr2) :
    ∃ handled, pf machine kernel self regs cr2 = some (handled, none) ∧
      handled.thread = kernel.thread := by
  obtain ⟨dev, vmMap, _, faulted, resolved⟩ := resolves
  refine ⟨afterFault kernel self dev vmMap, ?_, rfl⟩
  simp [pf, user, low, faulted, resolved]

/-- No call was taken for a nested one. -/
def Plain (point : Point) : Prop := point ≠ .nestedSend ∧ point ≠ .nestedYield

/-- The counter is raised only while a call is in progress, and no call was taken for a nested
one. -/
structure Tallied (state : Faulting σ) : Prop where
  counted : state.nested ≤ 0 ∨ state.nested = 1 ∧
    ∃ thread frame, state.frames thread = some frame ∧ frame.point ≠ .leaving
  plain : ∀ thread frame, state.frames thread = some frame → Plain frame.point

namespace Tallied

variable (tallied : Tallied state)
include tallied

theorem goto {frame : Frame} (same : next.frames = state.frames)
    (counted : next.nested ≤ 0 ∨ next.nested = 1 ∧ frame.point ≠ .leaving)
    (plain : Plain frame.point) : Tallied (next.goto self frame) where
  counted := counted.imp_right fun raised => ⟨raised.1, self, frame, update_self _ _ _, raised.2⟩
  plain := by
    intro thread other isFrame
    simp only [Faulting.goto, update_apply, same] at isFrame
    split at isFrame
    · cases isFrame
      exact plain
    · exact tallied.plain thread other isFrame

theorem reschedule {call : SchedCall} (stepped : reschedule machine fuel state call = some next) :
    Tallied next := by
  obtain ⟨kernel, -, rfl⟩ := map_eq_some_iff.mp stepped
  constructor
  · refine tallied.counted.imp_right fun ⟨one, thread, frame, isFrame, raised⟩ => ⟨one, thread, ?_⟩
    dsimp only
    rw [isFrame]
    split
    · exact ⟨_, if_neg raised, by simp⟩
    · exact ⟨frame, rfl, raised⟩
  · intro thread frame isFrame
    dsimp only at isFrame
    split at isFrame
    · obtain ⟨_, -, abandoned⟩ := bind_eq_some_iff.mp isFrame
      rw [Frame.abandon] at abandoned
      split at abandoned
      · cases abandoned
      · cases abandoned
        simp [Plain]
    · exact tallied.plain thread frame isFrame

theorem yieldAt {cpu : CpuId} {saved : Regs}
    (stepped : yieldAt machine fuel state self cpu saved = some next) : Tallied next := by
  unfold Proc.yieldAt at stepped
  split at stepped
  · exact tallied.reschedule stepped
  · cases stepped
    exact tallied

theorem except (apart : ∀ thread frame, state.frames thread = some frame → frame.point = .leaving)
    (n : Nat) (regs : Regs) :
    ∃ entered, Proc.except state self n regs = some entered ∧ Tallied entered := by
  have low : state.nested ≤ 0 :=
    tallied.counted.resolve_right fun ⟨_, thread, frame, isFrame, raised⟩ =>
      raised (apart thread frame isFrame)
  unfold Proc.except
  dsimp only
  rw [if_neg (by omega)]
  refine ⟨_, rfl, tallied.goto rfl ?_ (by simp [Plain])⟩
  dsimp only
  simp only [ne_eq, reduceCtorEq, not_false_eq_true, and_true]
  omega

/-- Step lemma: one case for each point of `except()`. -/
theorem exceptResume {frame : Frame} (isFrame : state.frames self = some frame)
    (resumed : exceptResume machine state self frame cr2 = some next) : Tallied next := by
  have plain := tallied.plain self frame isFrame
  have kept : ∀ point, point ≠ Point.leaving →
      state.nested ≤ 0 ∨ state.nested = 1 ∧ point ≠ .leaving :=
    fun _ raised => tallied.counted.imp_right fun one => ⟨one.1, raised⟩
  unfold Proc.exceptResume at resumed
  split at resumed
  · rename_i nested
    exact absurd nested plain.1
  · rename_i nested
    exact absurd nested plain.2
  · obtain ⟨⟨_, signal⟩, -, rest⟩ := bind_eq_some_iff.mp resumed
    cases signal with
    | none =>
      cases rest
      exact tallied.goto rfl (kept _ (by simp)) (by simp [Plain])
    | some signo =>
      obtain ⟨_, -, rest⟩ := bind_eq_some_iff.mp rest
      cases rest
      exact tallied.goto rfl (kept _ (by simp)) (by simp [Plain])
  · cases resumed
    exact tallied.goto rfl (kept _ (by simp)) (by simp [Plain])
  · cases resumed
    refine tallied.goto rfl (.inl ?_) (by simp [Plain])
    have upTo := tallied.counted
    dsimp only
    omega
  · rename_i isLeaving
    cases resumed
    constructor
    · refine tallied.counted.imp_right fun ⟨one, thread, other, isOther, raised⟩ =>
        ⟨one, thread, other, (update_of_ne ?_ _ _).trans isOther, raised⟩
      rintro rfl
      rw [isFrame] at isOther
      cases isOther
      exact raised isLeaving
    · intro thread other isOther
      simp only [update_apply] at isOther
      split at isOther
      · cases isOther
      · exact tallied.plain thread other isOther
  · cases resumed

theorem step {call : FaultCall} (stepped : Restricted (FaultStep machine) Apart state call next) :
    Tallied next := by
  obtain ⟨⟨_, stepped⟩, apart⟩ := stepped
  cases call with
  | trap _ n regs _ =>
    obtain ⟨self, -, stepped⟩ := bind_eq_some_iff.mp stepped
    split at stepped
    · cases stepped
    · obtain ⟨entered, entering, talliedEntered⟩ := tallied.except apart n regs
      rw [entering] at stepped
      exact talliedEntered.yieldAt stepped
  | resume =>
    obtain ⟨self, -, stepped⟩ := bind_eq_some_iff.mp stepped
    obtain ⟨frame, isFrame, stepped⟩ := bind_eq_some_iff.mp stepped
    obtain ⟨_, resuming, stepped⟩ := bind_eq_some_iff.mp stepped
    exact (tallied.exceptResume isFrame resuming).yieldAt stepped
  | sched _ => exact tallied.reschedule stepped

end Tallied

/-- In every interleaving in which no exception enters while another one is in progress, no
exception is taken for a nested one; and the handler of a page fault of a user task that
`vm_map_handle_fault` resolves is called, returns, and queues no signal to any thread. -/
theorem resolved_fault_unsignalled (machine : Machine σ) (start : Kernel σ)
    (calls : List FaultCall) (final : Faulting σ)
    (run : Run (Restricted (FaultStep machine) Apart) ⟨start, 0, fun _ => none⟩ calls final)
    (self : ThreadId) (frame : Frame) (inside : final.frames self = some frame) :
    frame.point ≠ .nestedSend ∧ frame.point ≠ .nestedYield ∧
      (frame.point = .handler → frame.n = 14 → fromUser frame.regs →
        ∀ cr2 < 0x8000000000, Resolves machine final.kernel self cr2 →
          ∃ next, exceptResume machine final self frame cr2 = some next ∧
            next.frames self = some { frame with point := .handled } ∧
            next.kernel.thread = final.kernel.thread) := by
  have preserved : ∀ state call next, Tallied state →
      Restricted (FaultStep machine) Apart state call next → Tallied next :=
    fun _ _ _ tallied stepped => tallied.step stepped
  have tallied : Tallied final := run.invariant preserved ⟨.inl le_rfl, by simp⟩
  obtain ⟨notSend, notYield⟩ := tallied.plain self frame inside
  refine ⟨notSend, notYield, ?_⟩
  intro atHandler isFault user cr2 low resolves
  obtain ⟨handled, handling, threads⟩ := pf_resolved user low resolves
  refine ⟨{ final with kernel := handled }.goto self { frame with point := .handled }, ?_,
    update_self _ _ _, threads⟩
  simp only [exceptResume, atHandler, isFault, handlers, handling]
  rfl

/-- Two tasks with a thread each, the first one running, and an area without frames in both. -/
def twoThreads : Kernel Unit :=
  { oneTask with
    task := fun task =>
      { oneTask.task 0 with
        main := some task
        threads := [task]
        vmMap := { (oneTask.task 0).vmMap with
          vmAreas := ⟨[⟨0x2000, 0x3000, some (.anon 1 fun _ => 0)⟩], 1⟩ } }
    thread := fun thread =>
      { oneTask.thread 0 with parent := thread, state := if thread = 0 then .running else .ready }
    cpu := fun _ => { current := some 0, idle := 2 }
    readyQueue := [1] }

/-- Registers of user code. -/
def userRegs : Regs := { cs := 3 }

/-- A fault of the first thread is resolved, and then the second one takes one. -/
theorem resolved_fault_unsignalled_second :
    ∃ final next, Run (Restricted (FaultStep (oneFile 0)) Apart) ⟨twoThreads, 0, fun _ => none⟩
        [.trap 0 14 userRegs {}, .resume 0 0x2000 {}, .resume 0 0 {}, .trap 0 14 userRegs {}]
        final ∧
      exceptResume (oneFile 0) final 1 ⟨14, userRegs, .handler⟩ 0x2000 = some next ∧
      next.kernel.thread = final.kernel.thread := by
  have run : ∃ final, Run (Restricted (FaultStep (oneFile 0)) Apart)
      ⟨twoThreads, 0, fun _ => none⟩
      [.trap 0 14 userRegs {}, .resume 0 0x2000 {}, .resume 0 0 {}, .trap 0 14 userRegs {}]
      final ∧ final.frames 1 = some ⟨14, userRegs, .handler⟩ ∧
        Resolves (oneFile 0) final.kernel 1 0x2000 := by
    refine ⟨_, .cons ⟨⟨0, rfl⟩, by simp [Apart]⟩ (.cons ⟨⟨0, rfl⟩, trivial⟩
      (.cons ⟨⟨3, rfl⟩, trivial⟩ (.cons ⟨⟨0, rfl⟩, ?_⟩ (.nil _)))), rfl, _, _, 0, rfl, by decide⟩
    intro thread frame isFrame
    have isFirst : update (update (update (fun _ => none) 0 (some ⟨14, userRegs, .handler⟩)) 0
        (some ⟨14, userRegs, .handled⟩)) 0 (some ⟨14, userRegs, .leaving⟩) thread = some frame :=
      isFrame
    rw [update_idem, update_idem, update_apply] at isFirst
    split at isFirst
    · cases isFirst
      rfl
    · cases isFirst
  obtain ⟨final, run, inside, resolves⟩ := run
  obtain ⟨-, -, unsignalled⟩ := resolved_fault_unsignalled _ _ _ _ run 1 _ inside
  obtain ⟨next, resumed, -, threads⟩ := unsignalled rfl rfl (by decide) 0x2000 (by decide) resolves
  exact ⟨final, next, run, resumed, threads⟩

/-- The first task divides by zero and is sent a signal; the next fault of the second one, which
can be resolved, ends with `SIGILL` in its queue. -/
theorem resolvable_fault_signalled :
    ∃ state entered, Run (FaultStep (oneFile 0)) ⟨twoThreads, 0, fun _ => none⟩
        [.trap 0 0 userRegs {}, .resume 0 0 {}] state ∧
      (state.kernel.cpu 0).current = some 1 ∧ state.frames 1 = none ∧
      Resolves (oneFile 0) state.kernel 1 0x2000 ∧ except state 1 14 userRegs = some entered ∧
      (state.kernel.thread 1).sigqueue = [] ∧ (entered.kernel.thread 1).sigqueue = [7] :=
  ⟨_, _, .cons ⟨0, rfl⟩ (.cons ⟨3, rfl⟩ (.nil _)), rfl, rfl, ⟨_, _, 0, rfl, by decide⟩, rfl, rfl,
    rfl⟩

end Micro.Proc
