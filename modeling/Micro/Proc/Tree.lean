import Mathlib.Data.List.Nodup
import Micro.Lib.Run
import Micro.Mm.Clone
import Micro.Proc.Links

/-!
# The table of tasks and the process tree

Histories of process calls from a kernel that only runs `init`.  The table and the
links stay in order as long as no image is replaced, no child is reaped, and no task
exits that has children.
-/

namespace Micro.Proc

open Kern Mm Lib Fs List

variable {σ : Type}

/-- A task that has been created and not been freed, and is not a processor's idle
task.  A task that has exited and waits to be reaped is one of them. -/
def Live (kernel : Kernel σ) (task : TaskId) : Prop :=
  task < kernel.nextTask ∧ task ∉ kernel.freed ∧
    ∀ cpu, (kernel.thread (kernel.cpu cpu).idle).parent ≠ task

/-- The table holds each live task once and no freed one, and children and parents
agree. -/
structure ProcessTree (kernel : Kernel σ) : Prop where
  notFreed : ∀ task ∈ kernel.tasks, task ∉ kernel.freed
  once : ∀ task, Live kernel task → kernel.tasks.count task = 1
  linked : ∀ parent child, Live kernel parent → Live kernel child →
    (child ∈ (kernel.task parent).children.items ↔ (kernel.task child).parent = some parent)

/-! ## The invariant -/

variable {kernel : Kernel σ}

/-- The invariant on the links: nothing has been freed, and the links only mention
tasks that have been created. -/
structure Tree (links : Links) : Prop where
  nodup : links.tasks.Nodup
  unfreed : links.freed = []
  created : ∀ task ∈ links.tasks, task < links.nextTask
  listed : ∀ task < links.nextTask, (∀ cpu, links.owner (links.idle cpu) ≠ task) →
    task ∈ links.tasks
  idle : ∀ cpu, links.idle cpu < links.nextThread
  owner : ∀ thread, links.owner thread < links.nextTask
  parent : ∀ child < links.nextTask, ∀ parent, links.parent child = some parent →
    parent < links.nextTask
  below : ∀ parent < links.nextTask, ∀ child ∈ (links.children parent).items, child < links.nextTask
  linked : ∀ parent < links.nextTask, ∀ child < links.nextTask,
    (child ∈ (links.children parent).items ↔ links.parent child = some parent)

theorem processTree_of_tree (tree : Tree (links kernel)) : ProcessTree kernel where
  notFreed := by
    intro task _ freed
    rw [show kernel.freed = [] from tree.unfreed] at freed
    cases freed
  once := fun task live =>
    count_eq_one_of_mem tree.nodup (tree.listed task live.1 live.2.2)
  linked := fun parent child liveParent liveChild =>
    tree.linked parent liveParent.1 child liveChild.1

namespace Tree

variable {links : Links}

theorem latch (tree : Tree links) (task : TaskId) (stopped : Bool) :
    Tree (links.latch task stopped) :=
  { tree with }

theorem fork (tree : Tree links) {src : TaskId} (caller : src < links.nextTask) :
    Tree (links.fork src) := by
  have older : ∀ {task}, task < links.nextTask + 1 → task ≠ links.nextTask → task < links.nextTask :=
    fun bound notNew => Nat.lt_of_le_of_ne (Nat.le_of_lt_succ bound) notNew
  constructor
  case nodup =>
    rw [Links.fork, Links.enlist, ← concat_eq_append]
    exact .concat (fun listed => Nat.lt_irrefl _ (tree.created _ listed)) tree.nodup
  case unfreed => exact tree.unfreed
  case created =>
    exact forall_mem_append.mpr ⟨fun task old => Nat.lt_succ_of_lt (tree.created task old),
      forall_mem_singleton.mpr (Nat.lt_succ_self _)⟩
  case listed =>
    intro task bound notIdle
    by_cases isNew : task = links.nextTask
    · exact mem_append_right _ (mem_singleton.mpr isNew)
    · refine mem_append_left _ (tree.listed task (older bound isNew) fun cpu => ?_)
      have kept : (links.fork src).owner (links.idle cpu) ≠ task := notIdle cpu
      rwa [Links.fork_owner, if_neg (Nat.ne_of_lt (tree.idle cpu))] at kept
  case idle => exact fun cpu => Nat.lt_succ_of_lt (tree.idle cpu)
  case owner =>
    intro thread
    rw [Links.fork_owner]
    split
    · exact Nat.lt_succ_self _
    · exact Nat.lt_succ_of_lt (tree.owner thread)
  case parent =>
    intro child bound parent isParent
    rw [Links.fork_parent] at isParent
    split at isParent
    · cases isParent
      exact Nat.lt_succ_of_lt caller
    · rename_i old
      exact Nat.lt_succ_of_lt (tree.parent child (older bound old) parent isParent)
  case below =>
    intro parent bound child mem
    rcases (Links.mem_fork caller).mp mem with ⟨before, old⟩ | ⟨added, _⟩
    · exact Nat.lt_succ_of_lt (tree.below parent (older bound old) child before)
    · rw [added]
      exact Nat.lt_succ_self _
  case linked =>
    intro parent boundParent child boundChild
    rw [Links.mem_fork caller, Links.fork_parent]
    by_cases newChild : child = links.nextTask
    · -- The new task is in the list of the caller only.
      have unlisted : parent ≠ links.nextTask → child ∉ (links.children parent).items := by
        intro old mem
        exact Nat.lt_irrefl _ (newChild ▸ tree.below parent (older boundParent old) child mem)
      rw [if_pos newChild, Option.some.injEq]
      constructor
      · rintro (⟨mem, old⟩ | ⟨_, isSrc⟩)
        · exact absurd mem (unlisted old)
        · exact isSrc.symm
      · exact fun isSrc => .inr ⟨newChild, isSrc.symm⟩
    · have oldChild := older boundChild newChild
      rw [if_neg newChild]
      by_cases newParent : parent = links.nextTask
      · subst newParent
        simp only [newChild, ne_eq, not_true_eq_false, and_false, false_and, or_self, false_iff]
        exact fun isParent => Nat.lt_irrefl _ (tree.parent child oldChild _ isParent)
      · rw [← tree.linked parent (older boundParent newParent) child oldChild]
        simp [newChild, newParent]

end Tree

/-! ## Steps -/

variable {label : CpuId × ProcCall} {before : Kernel σ} {machine : Machine σ}

/-- A childless exit, or something that does not concern the tree. -/
def treeEvent : Event → Bool
  | .exited _ children => children.isEmpty
  | .reaped _ => false
  | .entered _ _ => true
  | .continued _ => true

theorem Move.links_eq {after : Kernel σ} (move : Move before after)
    (quiet : Recorded treeEvent after) : Proc.links after = Proc.links before := by
  rcases move.links with same | ⟨task, _, cleared, noted, changed⟩
  · exact same
  · have empty := isEmpty_iff.mp (quiet _ noted)
    have sameKept := clear_nil empty cleared
    rw [sameKept] at changed
    rcases changed with ⟨_, result⟩ | ⟨init, _, result⟩
    · exact result.trans (Links.setChildren_self _ task)
    · have gained := Links.setChildren_self (Proc.links before) init
      rw [result, Links.adopt, show ((Proc.links before).children task).items = [] from empty,
        append_nil, length_nil, Nat.add_zero, gained]
      exact Links.setChildren_self _ task

theorem Moves.tree {after : Kernel σ} (moves : Moves before after)
    (quiet : Recorded treeEvent after) (tree : Tree (links before)) : Tree (links after) := by
  have kept : ∀ {before after : Kernel σ}, Move before after → Recorded treeEvent after →
      Tree (links before) → Tree (links after) := by
    intro before after move quiet tree
    rw [move.links_eq quiet]
    exact tree
  exact Moves.invariant kept moves quiet tree

/-- The call is no `execve` that gets as far as reading an image. -/
def KeepsImage (machine : Machine σ) (kernel : Kernel σ) : CpuId × ProcCall → Prop
  | (cpu, .execve _ _ path _ _) => ∀ self, (kernel.cpu cpu).current = some self →
      ∀ image data, loadImage machine kernel (some (current kernel self))
        (currentId kernel self) (vfsMkcanon path (current kernel self).workd) ≠
          some (.read image data)
  | _ => True

/-- A step in which no image is replaced, no child is reaped, and every task that exits
is childless. -/
def TreeStep (machine : Machine σ) (system : System σ) (label : CpuId × ProcCall)
    (next : System σ) : Prop :=
  (∃ report, ProcStep machine system label next report) ∧
    KeepsImage machine system.clear.kernel label ∧ Recorded treeEvent next.kernel

theorem Reported.tree {next : Kernel σ} {caller child : TaskId} {wstatus : Nat} {ret : Int}
    (reported : Reported machine kernel caller wstatus child next ret)
    (quiet : Recorded treeEvent next) (tree : Tree (links kernel)) : Tree (links next) := by
  rcases reported.spec with ⟨_, _, _, result⟩
  rw [result, afterReport_links]
  split
  · rename_i dead
    rw [result, afterReport, if_pos dead] at quiet
    exact absurd (quiet (.reaped child) mem_concat_self) Bool.false_ne_true
  · exact tree.latch child _

theorem treeStep_tree {system next : System σ} (tree : Tree (links system.kernel))
    (step : TreeStep machine system label next) : Tree (links next.kernel) := by
  rcases step with ⟨⟨_, _, stepped⟩, keeps, quiet⟩
  rcases label with ⟨_, _⟩
  have before := tree
  cases procCall_cases stepped with
  | moved moves => exact Moves.tree moves quiet before
  | forked forked => exact (congrArg Tree forked).mpr (before.fork (before.owner _))
  | refused same => exact (congrArg Tree same).mpr before
  | executed current loaded _ _ => exact absurd loaded (keeps _ current _ _)
  | returned _ ends =>
    cases ends with
    | nothing => exact before
    | one _ _ reported => exact reported.tree quiet before
    | any _ _ reported => exact reported.tree quiet before
  | blocked _ ends moves =>
    refine Moves.tree moves quiet ?_
    cases ends with
    | blockAny =>
      rw [links_withWaiting]
      exact before
    | blockOne =>
      rw [links_withWaiting]
      exact before
  | resumed _ _ resumed =>
    have woken : ∀ task, Tree (links (system.clear.kernel.setTask task (withWaiting 0))) := by
      intro task
      rw [links_withWaiting]
      exact before
    rcases waitResume_cases resumed with ⟨_, _, result⟩ | ⟨_, _, _, _, _, reported⟩ | ⟨_, _, _, _, result⟩
    · exact (congrArg (fun kernel => Tree (links kernel)) result).mpr (woken _)
    · exact reported.tree quiet (woken _)
    · exact (congrArg (fun kernel => Tree (links kernel)) result).mpr (woken _)

/-! ## Histories -/

/-- Only `init` has been started; every other task is a processor's idle task. -/
structure InitOnly (kernel : Kernel σ) (init : TaskId) : Prop where
  tasks : kernel.tasks = [init]
  freed : kernel.freed = []
  created : init < kernel.nextTask
  others : ∀ task < kernel.nextTask, task ≠ init →
    ∃ cpu, (kernel.thread (kernel.cpu cpu).idle).parent = task
  idle : ∀ cpu, (kernel.cpu cpu).idle < kernel.nextThread
  threads : ∀ thread, (kernel.thread thread).parent < kernel.nextTask
  parent : ∀ task, (kernel.task task).parent = none
  children : ∀ task, (kernel.task task).children = KList.create

theorem InitOnly.tree {init : TaskId} (start : InitOnly kernel init) : Tree (links kernel) := by
  have tasks : (links kernel).tasks = [init] := start.tasks
  have parents : ∀ task, (links kernel).parent task = none := start.parent
  have lists : ∀ task, (links kernel).children task = KList.create := start.children
  constructor
  case nodup =>
    rw [tasks]
    exact nodup_singleton init
  case unfreed => exact start.freed
  case created =>
    rw [tasks]
    exact forall_mem_singleton.mpr start.created
  case listed =>
    intro task bound notIdle
    rw [tasks]
    refine mem_singleton.mpr (Decidable.byContradiction fun other => ?_)
    rcases start.others task bound other with ⟨cpu, isIdle⟩
    exact notIdle cpu isIdle
  case idle => exact start.idle
  case owner => exact start.threads
  case parent => simp [parents]
  case below => simp [lists, KList.create]
  case linked => simp [lists, parents, KList.create]

/-- Along every history whose steps replace no image, reap no child and let no task
with children exit, the table and the tree are in order. -/
theorem process_tree_kept (machine : Machine σ) (start final : System σ) (init : TaskId)
    (history : List (CpuId × ProcCall)) (initOnly : InitOnly start.kernel init)
    (run : Run (TreeStep machine) start history final) : ProcessTree final.kernel := by
  have preserved : ∀ system label next, Tree (links system.kernel) →
      TreeStep machine system label next → Tree (links next.kernel) :=
    fun _ _ _ => treeStep_tree
  exact processTree_of_tree (run.invariant preserved initOnly.tree)

/-- `init` running on the first processor, and a task with an idle thread. -/
def onlyInit (vmMap : VmMap) : System Unit where
  kernel :=
    { oneTask with
      task := fun id =>
        if id = 0 then { oneTask.task 0 with main := some 0, threads := [0], vmMap }
        else oneTask.task 0
      thread := fun id =>
        if id = 0 then oneTask.thread 0
        else { oneTask.thread 0 with state := .ready, parent := 1 }
      cpu := fun cpu => { current := if cpu = 0 then some 0 else none, idle := 1 }
      nextTask := 2
      nextThread := 2 }
  frames := fun _ => none
  reported := fun _ => .running

theorem onlyInit_initOnly (vmMap : VmMap) : InitOnly (onlyInit vmMap).kernel 0 where
  tasks := rfl
  freed := rfl
  created := (by decide : 0 < 2)
  others := by
    intro task bound other
    have one : task = 1 := Nat.le_antisymm (Nat.le_of_lt_succ bound) (Nat.pos_of_ne_zero other)
    subst one
    exact ⟨0, rfl⟩
  idle := fun _ => Nat.lt_succ_self 1
  threads := by
    intro thread
    simp only [onlyInit]
    split <;> decide
  parent := by
    intro task
    simp only [onlyInit]
    split <;> rfl
  children := by
    intro task
    simp only [onlyInit]
    split <;> rfl

/-- A step other than `execve`, if it turns out to leave the tree alone. -/
def treeCall (system : System Unit) (label : CpuId × ProcCall) : Option (System Unit) :=
  match label.2 with
  | .execve _ _ _ _ _ => none
  | _ => ((procCall (oneFile 0) 5 system.clear label.1 label.2).map Prod.fst).filter fun next =>
      next.kernel.events.all treeEvent

theorem treeCall_step {system next : System Unit} (called : treeCall system label = some next) :
    TreeStep (oneFile 0) system label next := by
  rcases label with ⟨cpu, call⟩
  have stepped : ((procCall (oneFile 0) 5 system.clear cpu call).map Prod.fst).filter
      (fun next => next.kernel.events.all treeEvent) = some next ∧
      KeepsImage (oneFile 0) system.clear.kernel (cpu, call) := by
    cases call with
    | execve => cases called
    | tick | fork | exit | waitpid | resume | kill | ptrace => exact ⟨called, trivial⟩
  rcases Option.filter_eq_some_iff.mp stepped.1 with ⟨mapped, quiet⟩
  rcases Option.map_eq_some_iff.mp mapped with ⟨⟨_, report⟩, calls, same⟩
  subst same
  exact ⟨⟨report, 5, calls⟩, stepped.2, all_eq_true.mp quiet⟩

/-- `init`, with nothing mapped, forks; the child runs and exits.  It is in the table and among
the children of `init`. -/
theorem process_tree_kept_exit :
    ∃ final, Run (TreeStep (oneFile 0)) (onlyInit (mmuCreateVmmap (oneFile 0) ()).2)
      [(0, .fork), (0, .tick {}), (0, .exit 0)] final ∧
      final.kernel.tasks = [0, 2] ∧ (final.kernel.task 0).children.items = [2] ∧
      ProcessTree final.kernel := by
  let start := onlyInit (mmuCreateVmmap (oneFile 0) ()).2
  have calling : start.clear.calling 0 = some 0 := by
    decide +kernel
  have driven : ((drive treeCall start [(0, .fork), (0, .tick {}), (0, .exit 0)]).map fun final =>
      (final.kernel.tasks, (final.kernel.task 0).children.items)) = some ([0, 2], [2]) := by
    rw [drive, treeCall]
    simp only [procCall]
    rw [calling, Option.bind_eq_bind, Option.bind_some, sysFork, taskClone, mmuCloneVmmap_of_noTables]
    · decide +kernel
    · exact (mmuCreateVmmap_clear (oneFile 0) ()).2
  rcases Option.map_eq_some_iff.mp driven with ⟨final, reached, observed⟩
  rcases Prod.mk.inj observed with ⟨tasks, children⟩
  have run := Run.of_drive treeCall_step reached
  exact ⟨final, run, tasks, children,
    process_tree_kept (oneFile 0) start final 0 _ (onlyInit_initOnly _) run⟩

/-- `init` replaces its image and is in the table twice. -/
theorem execve_lists_init_twice :
    InitOnly (onlyInit (oneTask.task 0).vmMap).kernel 0 ∧ ∃ final report,
      ProcStep (oneFile 0) (onlyInit (oneTask.task 0).vmMap)
        (0, .execve {} (0x1000, 0x1000, 0x1000) [47, 102] [] []) final report ∧
      ¬ ProcessTree final.kernel := by
  have stepped : ((procCall (oneFile 0) 5 (onlyInit (oneTask.task 0).vmMap).clear 0
      (.execve {} (0x1000, 0x1000, 0x1000) [47, 102] [] [])).map fun result =>
        (result.1.kernel.tasks, result.1.kernel.freed, result.1.kernel.nextTask)) =
      some ([0, 0], [], 2) := by
    decide +kernel
  rcases Option.map_eq_some_iff.mp stepped with ⟨⟨final, report⟩, calls, observed⟩
  rcases Prod.mk.inj observed with ⟨tasks, rest⟩
  rcases Prod.mk.inj rest with ⟨freed, created⟩
  refine ⟨onlyInit_initOnly _, final, report, ⟨5, calls⟩, fun ordered => ?_⟩
  -- Whatever the call did, the idle threads still belong to the second task.
  have idle : ∀ cpu, (links final.kernel).owner ((links final.kernel).idle cpu) = 1 := by
    intro cpu
    cases procCall_cases calls with
    | moved moves =>
      rw [(Moves.owners moves).1, (Moves.owners moves).2]
      rfl
    | refused same =>
      rw [same]
      rfl
    | executed _ _ entered moves =>
      rw [(Moves.owners moves).1, (Moves.owners moves).2, entered]
      rfl
  have live : Live final.kernel 0 := by
    refine ⟨by rw [created]; decide, by rw [freed]; exact not_mem_nil, fun cpu isInit => ?_⟩
    cases (idle cpu).symm.trans isInit
  have once := ordered.once 0 live
  rw [tasks] at once
  exact absurd once (by decide)

end Micro.Proc
