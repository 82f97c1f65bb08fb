import Micro.Mm.Clone
import Micro.Proc.Credentials
import Micro.Proc.Links

/-!
# Sessions and process groups

`fork` hands the session and the group of a task on, `setpgid` moves a task that does not
lead its session to another group, and `setsid` starts a session with a group of its own.  No
call looks for the number it is given among the groups there are.  That the leader of a
session leads its group rests on the numbers of new tasks being fresh: they are counted here
without a limit, as `s_pid` counts them until 2^31 tasks have been made.
-/

namespace Micro.Proc

open Kern Mm Lib Fs List Option

variable {change : Task → Task} {old : Task} {σ : Type} {machine : Machine σ}
  {kernel next : Kernel σ}

def esrch : Int := 3

def withPgid (pgid : Int) (task : Task) : Task := { task with pgid }

/-- `task->sid = task->pid` and `task->pgid = task->pid` -/
def withSession (task : Task) : Task := { task with sid := task.pid, pgid := task.pid }

def sysSetpgid (kernel : Kernel σ) (self : ThreadId) (pid pgid : Int) : Kernel σ × Int :=
  if pgid < 0 then (kernel, -einval)
  else
    let pid := if pid = 0 then (current kernel self).pid else pid
    match schedTaskFromid kernel pid with
    | none => (kernel, -esrch)
    | some task =>
        if task ≠ currentId kernel self ∧
            (kernel.task task).parent ≠ some (currentId kernel self) then (kernel, -esrch)
        else if (kernel.task task).sid = (kernel.task task).pid then (kernel, -eperm)
        else (kernel.setTask task (withPgid (if pgid = 0 then pid else pgid)), 0)

def sysSetsid (kernel : Kernel σ) (self : ThreadId) : Kernel σ × Int :=
  if (current kernel self).pgid = (current kernel self).pid then (kernel, -eperm)
  else (kernel.setTask (currentId kernel self) withSession, (current kernel self).pid)

inductive SessionCall where
  | fork
  | setpgid (pid pgid : Int)
  | setsid
  deriving DecidableEq, Repr

def sessionCall (machine : Machine σ) (kernel : Kernel σ) (label : ThreadId × SessionCall) :
    Option (Kernel σ) :=
  match label.2 with
  | .fork => (sysFork machine kernel label.1).map Prod.fst
  | .setpgid pid pgid => some (sysSetpgid kernel label.1 pid pgid).1
  | .setsid => some (sysSetsid kernel label.1).1

/-- The thread belongs to a task in the table. -/
def listed (kernel : Kernel σ) (label : ThreadId × SessionCall) : Bool :=
  decide (currentId kernel label.1 ∈ kernel.tasks)

/-- A call by a thread of a task in the table. -/
def SessionStep (machine : Machine σ) : Kernel σ → ThreadId × SessionCall → Kernel σ → Prop :=
  Restricted (fun kernel label next => sessionCall machine kernel label = some next)
    fun kernel label => listed kernel label = true

/-! ## The numbers of a task -/

def sessionIds (task : Task) : Int × Int × Int := (task.pid, task.pgid, task.sid)

/-- Every task has the numbers it had, and no number was given out. -/
def SameIds (before after : Kernel σ) : Prop :=
  (∀ task, sessionIds (after.task task) = sessionIds (before.task task)) ∧ after.sPid = before.sPid

section Fork

variable {src task : TaskId}

theorem SameIds.trans {middle : Kernel σ} (first : SameIds kernel middle)
    (second : SameIds middle next) : SameIds kernel next :=
  ⟨fun task => (second.1 task).trans (first.1 task), second.2.trans first.2⟩

theorem sameIds_setTask (kernel : Kernel σ) (task : TaskId)
    (kept : ∀ old, sessionIds (change old) = sessionIds old) :
    SameIds kernel (kernel.setTask task change) :=
  ⟨kernel.setTask_read sessionIds task change kept, rfl⟩

theorem threadClone_sameIds {thread main : ThreadId}
    (cloned : threadClone machine kernel task thread = some (next, main)) : SameIds kernel next := by
  rcases bind_eq_some_iff.mp cloned with ⟨_, initialised, result⟩
  cases result
  rcases bind_eq_some_iff.mp initialised with ⟨stack, _, result⟩
  cases result
  exact @sameIds_setTask (fun task => { task with vmMap := stack.2.1 }) _ (allocThread kernel
      (kernel.thread thread)).1 task fun _ => rfl

theorem cloneFds_sameIds (kernel : Kernel σ) (src dst : TaskId) :
    SameIds kernel (cloneFds kernel src dst) := by
  unfold cloneFds
  apply foldlRecOn (motive := SameIds kernel) _ _ ⟨fun _ => rfl, rfl⟩
  intro after same slot _
  unfold cloneFd
  cases (after.task src).fds slot with
  | none => exact same
  | some _ => exact same.trans (sameIds_setTask _ dst fun _ => rfl)

theorem schedStart_sameIds (kernel : Kernel σ) (task : TaskId) :
    SameIds kernel (schedStart kernel task) := by
  exact foldlRecOn (motive := SameIds kernel) _ _ ⟨fun _ => rfl, rfl⟩ fun _ same _ _ => same

theorem forkRegs_sameIds {regs : Regs} (given : forkRegs kernel task regs = some next) :
    SameIds kernel next := by
  unfold forkRegs at given
  split at given
  · cases given
    exact ⟨fun _ => rfl, rfl⟩
  · cases given

/-- `fork` gives the child the next number, and the group and the session of its parent. -/
theorem sysFork_sessionIds {self : ThreadId} {ret : Int}
    (created : currentId kernel self < kernel.nextTask)
    (forked : sysFork machine kernel self = some (next, ret)) :
    (∀ task, task ≠ kernel.nextTask → sessionIds (next.task task) = sessionIds (kernel.task task)) ∧
      sessionIds (next.task kernel.nextTask) =
        ((kernel.sPid : Int), (current kernel self).pgid, (current kernel self).sid) ∧
      next.sPid = kernel.sPid + 1 := by
  rcases bind_eq_some_iff.mp forked with ⟨⟨_, _⟩, cloning, rest⟩
  rcases bind_eq_some_iff.mp rest with ⟨ready, regs, result⟩
  rcases taskClone_inv cloning with ⟨copy, made, main, _, rfl, threaded, rfl⟩
  cases result
  have ne := Nat.ne_of_lt created
  -- only `mktask` and the last assignments of `task_clone` concern the numbers
  have mained : SameIds made (setMain made kernel.nextTask main) := sameIds_setTask _ _ fun _ => rfl
  have copied := ((threadClone_sameIds threaded).trans mained).trans
    (cloneFds_sameIds _ (currentId kernel self) kernel.nextTask)
  have started := (forkRegs_sameIds regs).trans (schedStart_sameIds ready kernel.nextTask)
  refine ⟨fun task apart => ?_, ?_, started.2.trans copied.2⟩
  · rw [started.1, inheritAll, Kernel.setTask_task_of_ne _ _ apart]
    refine (copied.1 task).trans (((sameIds_setTask _ _ ?_).1 task).trans ?_)
    · exact fun _ => rfl
    · exact congrArg sessionIds (Function.update_of_ne apart _ _)
  · rw [started.1, inheritAll, Kernel.setTask_task_self]
    have ofChild := (copied.1 kernel.nextTask).trans
      (congrArg sessionIds (mktask_child (by exact ne)))
    have ofParent := (copied.1 _).trans (congrArg sessionIds (mktask_parent (by exact ne)))
    have pid := congrArg Prod.fst ofChild
    have rest := congrArg Prod.snd ofParent
    exact Prod.ext pid rest

end Fork

/-! ## Leaders -/

/-- The kernel has one task, which belongs to no session and no group. -/
structure OnlyInit (kernel : Kernel σ) (init : TaskId) : Prop where
  tasks : kernel.tasks = [init]
  created : init < kernel.nextTask
  pid : 0 < (kernel.task init).pid ∧ (kernel.task init).pid < kernel.sPid
  pgid : (kernel.task init).pgid = 0
  sid : (kernel.task init).sid = 0

/-- A task that leads its session also leads its group. -/
def LeadsGroup (task : Task) : Prop := task.sid = task.pid → task.pgid = task.pid

/-- The sessions of the tasks in the table are led by tasks made before now, so that the next
task is in a session it does not lead. -/
structure Sessions (kernel : Kernel σ) : Prop where
  created : ∀ task ∈ kernel.tasks, task < kernel.nextTask
  numbered : ∀ task ∈ kernel.tasks, (kernel.task task).pid < kernel.sPid
  older : ∀ task ∈ kernel.tasks, (kernel.task task).sid < kernel.sPid
  leads : ∀ task ∈ kernel.tasks, LeadsGroup (kernel.task task)

theorem OnlyInit.sessions {init : TaskId} (start : OnlyInit kernel init) : Sessions kernel := by
  constructor
  all_goals
    intro _ mem
    rw [start.tasks, mem_singleton] at mem
    subst mem
  · exact start.created
  · exact start.pid.2
  · rw [start.sid]
    exact Int.lt_trans start.pid.1 start.pid.2
  · intro _
    have notZero := start.pid.1
    have isZero := start.sid
    omega

section Steps

variable {label : ThreadId × SessionCall}

theorem sessionIds_eq {task : Task} (same : sessionIds task = sessionIds old) :
    task.pid = old.pid ∧ task.pgid = old.pgid ∧ task.sid = old.sid :=
  ⟨congrArg Prod.fst same, congrArg (·.2.1) same, congrArg (·.2.2) same⟩

/-- What a call does: it forks, or it assigns to one task of the table that is no leader of a
session, keeping its number and giving it no session but the one it then leads. -/
inductive SessionEffect (kernel : Kernel σ) : Kernel σ → Prop where
  | refused : SessionEffect kernel kernel
  | forked {src : TaskId} {next : Kernel σ} (source : src ∈ kernel.tasks)
      (tasks : next.tasks = kernel.tasks ++ [kernel.nextTask])
      (nextTask : next.nextTask = kernel.nextTask + 1)
      (others : ∀ task, task ≠ kernel.nextTask →
        sessionIds (next.task task) = sessionIds (kernel.task task))
      (child : sessionIds (next.task kernel.nextTask) =
        ((kernel.sPid : Int), (kernel.task src).pgid, (kernel.task src).sid))
      (sPid : next.sPid = kernel.sPid + 1) : SessionEffect kernel next
  | regrouped {task : TaskId} (pgid : Int)
      (follows : (kernel.task task).sid ≠ (kernel.task task).pid) :
      SessionEffect kernel (kernel.setTask task (withPgid pgid))
  | started {task : TaskId} (member : task ∈ kernel.tasks)
      (noLeader : (kernel.task task).pgid ≠ (kernel.task task).pid) :
      SessionEffect kernel (kernel.setTask task withSession)

theorem SessionStep.effect (stepped : SessionStep machine kernel label next)
    (created : ∀ task ∈ kernel.tasks, task < kernel.nextTask) : SessionEffect kernel next := by
  rcases stepped with ⟨called, isListed⟩
  have mem := of_decide_eq_true isListed
  rcases label with ⟨_, call⟩
  cases call with
  | fork =>
    rcases map_eq_some_iff.mp called with ⟨⟨_, _⟩, forked, same⟩
    subst same
    have linked := sysFork_links forked
    rcases sysFork_sessionIds (created _ mem) forked with ⟨others, child, sPid⟩
    exact .forked mem (congrArg Links.tasks linked) (congrArg Links.nextTask linked) others
      child sPid
  | setpgid _ _ =>
    cases called
    unfold sysSetpgid
    split
    · exact .refused
    · dsimp only
      split
      · exact .refused
      · split
        · exact .refused
        · split
          · exact .refused
          · exact .regrouped _ ‹_›
  | setsid =>
    cases called
    unfold sysSetsid
    split
    · exact .refused
    · exact .started mem ‹_›

/-- What is known of a task of the table, from the next number on. -/
structure KnownIds (sPid : Nat) (task : Task) : Prop where
  numbered : task.pid < sPid
  older : task.sid < sPid
  leads : LeadsGroup task

namespace KnownIds

variable {sPid : Nat} {task : Task}

theorem same (known : KnownIds sPid old) (ids : sessionIds task = sessionIds old) {later : Nat}
    (grown : sPid ≤ later) : KnownIds later task := by
  rcases sessionIds_eq ids with ⟨pid, pgid, sid⟩
  rcases known with ⟨_, _, leads⟩
  constructor
  · omega
  · omega
  · intro leader
    rw [sid, pid] at leader
    rw [pgid, pid]
    exact leads leader

theorem child {pgid sid : Int} (ids : sessionIds task = ((sPid : Int), pgid, sid))
    (older : sid < sPid) : KnownIds (sPid + 1) task := by
  rcases Prod.mk.inj ids with ⟨_, rest⟩
  rcases Prod.mk.inj rest with ⟨_, _⟩
  constructor
  · omega
  · omega
  · intro _
    omega

theorem regrouped (known : KnownIds sPid task) (pgid : Int) (follows : task.sid ≠ task.pid) :
    KnownIds sPid (withPgid pgid task) :=
  ⟨known.numbered, known.older, fun leader => absurd leader follows⟩

theorem started (known : KnownIds sPid task) : KnownIds sPid (withSession task) :=
  ⟨known.numbered, known.numbered, fun _ => rfl⟩

end KnownIds

theorem Sessions.known (holds : Sessions kernel) {task : TaskId} (mem : task ∈ kernel.tasks) :
    KnownIds kernel.sPid (kernel.task task) :=
  ⟨holds.numbered task mem, holds.older task mem, holds.leads task mem⟩

theorem Sessions.of_known (created : ∀ task ∈ kernel.tasks, task < kernel.nextTask)
    (known : ∀ task ∈ kernel.tasks, KnownIds kernel.sPid (kernel.task task)) : Sessions kernel where
  created := created
  numbered := fun task mem => (known task mem).numbered
  older := fun task mem => (known task mem).older
  leads := fun task mem => (known task mem).leads

theorem Sessions.setTask (holds : Sessions kernel) (target : TaskId)
    (changed : target ∈ kernel.tasks → KnownIds kernel.sPid (change (kernel.task target))) :
    Sessions (kernel.setTask target change) := by
  apply Sessions.of_known
  · exact holds.created
  · intro task mem
    by_cases same : task = target
    · subst same
      rw [Kernel.setTask_task_self]
      exact changed mem
    · rw [Kernel.setTask_task_of_ne _ _ same]
      exact holds.known mem

variable (effect : SessionEffect kernel next) (holds : Sessions kernel)
include effect holds

theorem SessionEffect.sessions : Sessions next := by
  cases effect with
  | refused => exact holds
  | @forked src _ source tasks nextTask others child sPid =>
    have oldOrNew : ∀ task ∈ next.tasks, task ∈ kernel.tasks ∨ task = kernel.nextTask := by
      intro task mem
      rw [tasks, mem_append, mem_singleton] at mem
      exact mem
    apply Sessions.of_known
    · intro task mem
      rw [nextTask]
      rcases oldOrNew task mem with before | rfl
      · exact Nat.lt_succ_of_lt (holds.created task before)
      · exact Nat.lt_succ_self _
    · intro task mem
      rw [sPid]
      rcases oldOrNew task mem with before | rfl
      · have apart : task ≠ kernel.nextTask := Nat.ne_of_lt (holds.created task before)
        exact (holds.known before).same (others task apart) (Nat.le_succ _)
      · exact .child child (holds.older src source)
  | @regrouped target pgid follows =>
    exact holds.setTask target fun mem => (holds.known mem).regrouped pgid follows
  | @started target mem _ => exact holds.setTask target fun _ => (holds.known mem).started

theorem SessionEffect.sid_kept {task : TaskId} (mem : task ∈ kernel.tasks)
    (leader : (kernel.task task).sid = (kernel.task task).pid) :
    (next.task task).sid = (kernel.task task).sid := by
  cases effect with
  | refused => rfl
  | forked _ _ _ others _ _ =>
    exact (sessionIds_eq (others task (Nat.ne_of_lt (holds.created task mem)))).2.2
  | regrouped =>
    apply kernel.setTask_read Task.sid
    exact fun _ => rfl
  | @started target _ noLeader =>
    -- `setsid` fails for a leader of a group, which a leader of a session is
    have apart : task ≠ target := by
      intro same
      subst same
      exact noLeader (holds.leads task mem leader)
    rw [Kernel.setTask_task_of_ne _ _ apart]

end Steps

/-- In every run of `fork`, `setpgid` and `setsid` from a kernel with `init` alone, the leader of
a session leads its group, and no call takes it out of its session. -/
theorem session_leaders_lead {machine : Machine σ} {start final : Kernel σ} {init : TaskId}
    {labels : List (ThreadId × SessionCall)} (first : OnlyInit start init)
    (run : Run (SessionStep machine) start labels final) :
    (∀ task ∈ final.tasks, (final.task task).sid = (final.task task).pid →
      (final.task task).pgid = (final.task task).pid) ∧
      ∀ label next, SessionStep machine final label next → ∀ task ∈ final.tasks,
        (final.task task).sid = (final.task task).pid →
          (next.task task).sid = (final.task task).sid := by
  have holds : Sessions final := by
    apply run.invariant _ first.sessions
    intro _ label next known stepped
    exact (stepped.effect known.created).sessions known
  constructor
  · exact holds.leads
  · intro label next stepped task member leader
    exact (stepped.effect holds.created).sid_kept holds member leader

/-- `init` with nothing mapped. -/
def freshInit : Kernel Unit :=
  oneTask.setTask 0 fun task => { task with vmMap := (mmuCreateVmmap (oneFile 0) ()).2 }

/-- `init` forks and the child starts a session; `init` cannot move it to another group. -/
theorem session_leaders_lead_fork :
    ∃ final, Run (SessionStep (oneFile 0)) freshInit
      [(0, .fork), (1, .setsid), (0, .setpgid 2 1)] final ∧
      (final.tasks, (final.task 1).sid, (final.task 1).pgid) = ([0, 1], 2, 2) ∧
      ∀ task ∈ final.tasks, (final.task task).sid = (final.task task).pid →
        (final.task task).pgid = (final.task task).pid := by
  have driven : ((drive (guarded (sessionCall (oneFile 0)) listed) freshInit
      [(0, .fork), (1, .setsid), (0, .setpgid 2 1)]).map fun final =>
        (final.tasks, (final.task 1).sid, (final.task 1).pgid)) = some ([0, 1], 2, 2) := by
    rw [drive, guarded]
    simp only [sessionCall]
    rw [sysFork, taskClone, mmuCloneVmmap_of_noTables]
    · decide +kernel
    · exact (mmuCreateVmmap_clear (oneFile 0) ()).2
  rcases map_eq_some_iff.mp driven with ⟨final, reached, observed⟩
  have run := Run.of_drive guarded_restricted reached
  have first : OnlyInit freshInit 0 := ⟨rfl, by decide, by decide, rfl, rfl⟩
  exact ⟨final, run, observed, (session_leaders_lead first run).1⟩

end Micro.Proc
