import Micro.Proc.Moves
import Micro.Proc.Wait

/-!
# The process tree

The part of the kernel that says which tasks there are and how they are related,
and what each operation on tasks does to it.  Moves of the scheduler leave it
alone, except that an exiting task hands its children to `init`.
-/

namespace Micro.Proc

open Kern Fs Function Option

variable {parent child : TaskId} {main : ThreadId} {argv envp : List CStr} {σ : Type}
  {after : Kernel σ}

/-- The scheduler's table of tasks and the links between tasks. -/
@[ext] structure Links where
  tasks : List TaskId
  freed : List TaskId
  nextTask : TaskId
  nextThread : ThreadId
  idle : CpuId → ThreadId
  owner : ThreadId → TaskId
  parent : TaskId → Option TaskId
  children : TaskId → KList TaskId
  wasStop : TaskId → Bool

def links (kernel : Kernel σ) : Links where
  tasks := kernel.tasks
  freed := kernel.freed
  nextTask := kernel.nextTask
  nextThread := kernel.nextThread
  idle := fun cpu => (kernel.cpu cpu).idle
  owner := fun thread => (kernel.thread thread).parent
  parent := fun task => (kernel.task task).parent
  children := fun task => (kernel.task task).children
  wasStop := fun task => (kernel.task task).wasStop

namespace Links

section

variable (links : Links)

/-- A new task, the child of `src`. -/
def addTask (src : TaskId) : Links :=
  let fresh := Function.update links.children links.nextTask KList.create
  { links with
    nextTask := links.nextTask + 1
    parent := Function.update links.parent links.nextTask (some src)
    children := Function.update fresh src ((fresh src).enqueue links.nextTask)
    wasStop := Function.update links.wasStop links.nextTask false }

/-- A new thread of a task. -/
def addThread (task : TaskId) : Links :=
  { links with
    nextThread := links.nextThread + 1
    owner := Function.update links.owner links.nextThread task }

/-- A task is entered into the table. -/
def enlist (task : TaskId) : Links :=
  { links with tasks := links.tasks ++ [task] }

/-- `fork`: a new task with a new thread in the table. -/
def fork (src : TaskId) : Links :=
  ((links.addTask src).addThread links.nextTask).enlist links.nextTask

/-- `execve`: a new thread, and the task in the table once more. -/
def restart (task : TaskId) : Links := (links.addThread task).enlist task

/-- A task gets other children. -/
def setChildren (task : TaskId) (children : KList TaskId) : Links :=
  { links with children := Function.update links.children task children }

/-- A task hands its children over and keeps `kept`. -/
def adopt (task init : TaskId) (kept : KList TaskId) : Links :=
  (links.setChildren init
    ⟨(links.children init).items ++ (links.children task).items,
      (links.children init).size + (links.children task).items.length⟩).setChildren task kept

/-- The stop latch of a task. -/
def latch (task : TaskId) (stopped : Bool) : Links :=
  { links with wasStop := Function.update links.wasStop task stopped }

/-- A task is taken from its parent and freed. -/
def reap (task : TaskId) : Links :=
  let unlinked := match links.parent task with
    | some parent => links.setChildren parent
        ((links.children parent).remove ((links.children parent).items.idxOf task))
    | none => links
  { unlinked with freed := links.freed ++ [task] }

end

theorem setChildren_self (links : Links) (task : TaskId) :
    links.setChildren task (links.children task) = links := by
  ext1 <;> try rfl
  exact update_eq_self task _

theorem mem_fork {links : Links} {src : TaskId} (caller : src < links.nextTask) :
    child ∈ ((links.fork src).children parent).items ↔
      child ∈ (links.children parent).items ∧ parent ≠ links.nextTask ∨
        child = links.nextTask ∧ parent = src := by
  have ne : src ≠ links.nextTask := Nat.ne_of_lt caller
  simp only [fork, enlist, addThread, addTask]
  by_cases isSrc : parent = src
  · simp [isSrc, ne]
  · by_cases isNew : parent = links.nextTask <;> simp [isSrc, isNew, KList.create, ne.symm]

theorem fork_parent (links : Links) (src task : TaskId) :
    (links.fork src).parent task = if task = links.nextTask then some src else links.parent task :=
  update_apply _ _ _ _

theorem fork_owner (links : Links) (src : TaskId) (thread : ThreadId) :
    (links.fork src).owner thread =
      if thread = links.nextThread then links.nextTask else links.owner thread :=
  update_apply _ _ _ _

end Links

/-! ## Assignments -/

section Assign

variable (kernel : Kernel σ)

theorem links_setThread (thread : ThreadId) (change : Thread → Thread) :
    links (kernel.setThread thread change) = { links kernel with
        owner := update (links kernel).owner thread
          (change (kernel.thread thread)).parent } := by
  ext1 <;> try rfl
  exact comp_update Thread.parent kernel.thread thread _

theorem links_setThread_same (thread : ThreadId) (change : Thread → Thread)
    (owner : ∀ old, (change old).parent = old.parent) :
    links (kernel.setThread thread change) = links kernel := by
  rw [links_setThread, owner]
  ext1 <;> try rfl
  exact update_eq_self thread _

section

variable (task : TaskId)
include task

theorem links_setTask (change : Task → Task) :
    links (kernel.setTask task change) = { links kernel with
        parent := update (links kernel).parent task (change (kernel.task task)).parent
        children := update (links kernel).children task
          (change (kernel.task task)).children
        wasStop := update (links kernel).wasStop task
          (change (kernel.task task)).wasStop } := by
  ext1 <;> try rfl
  · exact comp_update Task.parent kernel.task task _
  · exact comp_update Task.children kernel.task task _
  · exact comp_update Task.wasStop kernel.task task _

theorem links_setTask_same (change : Task → Task) (parent : ∀ old, (change old).parent = old.parent)
    (children : ∀ old, (change old).children = old.children)
    (wasStop : ∀ old, (change old).wasStop = old.wasStop) :
    links (kernel.setTask task change) = links kernel := by
  rw [links_setTask, parent, children, wasStop]
  ext1 <;> try rfl
  · exact update_eq_self task _
  · exact update_eq_self task _
  · exact update_eq_self task _

@[simp] theorem links_withChildren (children : KList TaskId) :
    links (kernel.setTask task (withChildren children)) =
      (links kernel).setChildren task children := by
  rw [links_setTask]
  ext1 <;> try rfl
  · exact update_eq_self task _
  · exact update_eq_self task _

@[simp] theorem links_withWasStop (stopped : Bool) :
    links (kernel.setTask task (withWasStop stopped)) = (links kernel).latch task stopped := by
  rw [links_setTask]
  ext1 <;> try rfl
  · exact update_eq_self task _
  · exact update_eq_self task _

@[simp] theorem links_withWaiting (pid : Int) :
    links (kernel.setTask task (withWaiting pid)) = links kernel :=
  links_setTask_same kernel task (withWaiting pid) (fun _ => rfl) (fun _ => rfl) fun _ => rfl

end

@[simp] theorem links_schedSpawnthread (thread : ThreadId) :
    links (schedSpawnthread kernel thread) = links kernel :=
  links_setThread_same kernel thread (withState .ready) fun _ => rfl

end Assign

/-! ## Moves -/

variable {before : Kernel σ}

theorem clear_nil {children kept : KList TaskId} (empty : children.items = [])
    (cleared : children.clear = some kept) : kept = children := by
  rcases children with ⟨_, size⟩
  subst empty
  unfold KList.clear at cleared
  split at cleared
  · rename_i bound
    have zero : size = 0 := Nat.le_zero.mp bound
    subst zero
    exact (some.inj cleared).symm
  · cases cleared

/-- A move leaves the links alone or hands the children of an exiting task over. -/
theorem Move.links (move : Move before after) :
    links after = links before ∨ ∃ task kept,
      (before.task task).children.clear = some kept ∧
      .exited task (before.task task).children.items ∈ after.events ∧
      ((before.task task).children.items = [] ∧
          Proc.links after = (Proc.links before).setChildren task kept ∨
        ∃ init, init ≠ task ∧ Proc.links after = (Proc.links before).adopt task init kept) := by
  cases move with
  | thread thread change kept => exact .inl (links_setThread_same _ _ _ kept)
  | task task change kept =>
    exact .inl (links_setTask_same _ _ _ (fun old => (kept old).parent)
      (fun old => (kept old).children) fun old => (kept old).wasStop)
  | queue => exact .inl rfl
  | run cpu thread =>
    refine Or.inl ?_
    ext1 <;> try rfl
    refine (comp_update Cpu.idle before.cpu cpu _).trans ?_
    exact update_eq_self cpu _
  | dev => exact .inl rfl
  | event => exact .inl rfl
  | adopt adopted cleared =>
    rename_i adopted task
    rcases adopt_inv adopted cleared with ⟨kept, clear, ⟨empty, result⟩ | ⟨init, _, other, result⟩⟩
    · refine Or.inr ⟨task, kept, clear, ?_, .inl ⟨empty, ?_⟩⟩
      · rw [result]
        exact List.mem_concat_self
      · rw [result, links_withChildren]
        rfl
    · refine Or.inr ⟨task, kept, clear, ?_, .inr ⟨init, other, ?_⟩⟩
      · rw [result]
        exact List.mem_concat_self
      · rw [result, links_withChildren, links_withChildren]
        rfl

theorem Moves.owners (moves : Moves before after) :
    (links after).idle = (links before).idle ∧ (links after).owner = (links before).owner := by
  induction moves with
  | refl => exact ⟨rfl, rfl⟩
  | tail _ move ih =>
    rcases move.links with same | ⟨_, _, _, _, ⟨_, changed⟩ | ⟨_, _, changed⟩⟩
    · rw [same]
      exact ih
    · rw [changed]
      exact ih
    · rw [changed]
      exact ih

/-! ## Creating tasks and threads -/

variable {ret : Int} {next : Kernel σ} {machine : Machine σ} {regs : Regs} {self : ThreadId}

section

variable {kernel : Kernel σ}

theorem mktask_links (kernel : Kernel σ) (dev : σ) (src : TaskId) (map : VmMap) :
    links (mktask { kernel with dev } (some src) map).1 = (links kernel).addTask src := by
  let task := newTask kernel.sPid (some src) map
  let created : Kernel σ := { kernel with
    dev
    task := update kernel.task kernel.nextTask task
    sPid := kernel.sPid + 1
    nextTask := kernel.nextTask + 1 }
  have children : (links created).children =
      update (links kernel).children kernel.nextTask KList.create :=
    comp_update Task.children kernel.task kernel.nextTask _
  change links (created.setTask src (withChild kernel.nextTask)) = _
  rw [links_setTask]
  ext1 <;> try rfl
  · refine (update_eq_self src (links created).parent).trans ?_
    exact comp_update Task.parent kernel.task kernel.nextTask _
  · change update (links created).children src
      (((links created).children src).enqueue kernel.nextTask) = _
    rw [children]
    rfl
  · refine (update_eq_self src (links created).wasStop).trans ?_
    exact comp_update Task.wasStop kernel.task kernel.nextTask _

theorem allocThread_links {contents : Thread}
    (initialised : initThreadMeta machine (allocThread kernel contents).1
      (allocThread kernel contents).2 parent = some next) :
    links next = (links kernel).addThread parent := by
  rcases bind_eq_some_iff.mp initialised with ⟨stack, _, result⟩
  cases result
  rw [links_setThread, links_setTask_same _ parent (fun task => { task with vmMap := stack.2.1 })
    (fun _ => rfl) (fun _ => rfl) fun _ => rfl]
  ext1 <;> try rfl
  have alloc : (links (allocThread kernel contents).1).owner =
      update (links kernel).owner kernel.nextThread contents.parent :=
    comp_update Thread.parent kernel.thread kernel.nextThread _
  refine (congrArg (fun owner => update owner kernel.nextThread parent) alloc).trans ?_
  exact update_idem _ _ _

theorem threadClone_links {src : ThreadId}
    (cloned : threadClone machine kernel parent src = some (next, main)) :
    links next = (links kernel).addThread parent := by
  rcases bind_eq_some_iff.mp cloned with ⟨_, initialised, result⟩
  cases result
  exact allocThread_links initialised

theorem threadCreat_links {entry : Nat} {usr : Bool}
    (created : threadCreat machine kernel parent entry usr = some (next, main)) :
    links next = (links kernel).addThread parent := by
  rcases bind_eq_some_iff.mp created with ⟨_, initialised, result⟩
  cases result
  refine (links_setThread_same _ _ _ ?_).trans (allocThread_links initialised)
  exact fun _ => rfl

theorem setMain_links (kernel : Kernel σ) (task : TaskId) (thread : ThreadId) :
    links (setMain kernel task thread) = links kernel :=
  links_setTask_same kernel task _ (fun _ => rfl) (fun _ => rfl) fun _ => rfl

theorem cloneFds_links (kernel : Kernel σ) (src dst : TaskId) :
    links (cloneFds kernel src dst) = links kernel := by
  unfold cloneFds
  apply List.foldlRecOn (motive := fun after => links after = links kernel) _ _ rfl
  intro after same slot _
  rw [← same]
  unfold cloneFd
  cases (after.task src).fds slot with
  | none => rfl
  | some _ =>
    exact links_setTask_same _ dst _ (fun _ => rfl) (fun _ => rfl) fun _ => rfl

theorem inheritAll_links (kernel : Kernel σ) (src task : TaskId) (main : ThreadId) :
    links (inheritAll kernel src task main) = links kernel := by
  refine (links_setTask_same _ _ (inherit _) ?_ ?_ ?_).trans ?_
  · exact fun _ => rfl
  · exact fun _ => rfl
  · exact fun _ => rfl
  · rw [cloneFds_links, setMain_links]

theorem forkRegs_links (given : forkRegs kernel child regs = some next) :
    links next = links kernel := by
  unfold forkRegs at given
  split at given
  · cases given
    exact links_setThread_same _ _ _ fun _ => rfl
  · cases given

theorem schedStart_links (kernel : Kernel σ) (task : TaskId) :
    links (schedStart kernel task) = (links kernel).enlist task := by
  apply List.foldlRecOn (motive := fun after => links after = (links kernel).enlist task) _ _ rfl
  exact fun after same thread _ => (links_schedSpawnthread after thread).trans same

theorem sysFork_links (forked : sysFork machine kernel self = some (next, ret)) :
    links next = (links kernel).fork (currentId kernel self) := by
  rcases bind_eq_some_iff.mp forked with ⟨⟨_, child⟩, cloning, rest⟩
  rcases bind_eq_some_iff.mp rest with ⟨ready, regs, result⟩
  rcases taskClone_inv cloning with ⟨_, _, _, _, isChild, threaded, inherited⟩
  have same : schedStart ready child = next := (Prod.mk.inj (some.inj result)).1
  rw [← same, schedStart_links, forkRegs_links regs, inherited, inheritAll_links,
    threadClone_links threaded, mktask_links, isChild]
  rfl

end

/-! ## Replacing an image -/

variable {path : CStr} {cpu : CpuId} {fuel : Nat} {taskCurr : Option Task} {task : TaskId}

theorem vfsOpen_links {kernel : Kernel σ} {flags : Nat} {opened : VfsOpen σ}
    (opens : vfsOpen machine kernel taskCurr path flags = some opened) :
    links opened.kernel = links kernel := by
  unfold vfsOpen at opens
  dsimp only at opens
  split at opens
  · cases opens
  · cases opens
    rfl
  · split at opens
    · cases opens
      rfl
    · cases opens
      rfl

/-- The kernel in which the first half of `do_exec` ends. -/
def Image.kernel : Image σ → Kernel σ
  | .refused kernel _ => kernel
  | .read kernel _ => kernel

variable {kernel : Kernel σ}

theorem readImage_links (machine : Machine σ) (kernel : Kernel σ) (map : VmMap) (file : File)
    (data size : Nat) : links (readImage machine kernel map file data size) = links kernel := by
  unfold readImage vfsClose
  dsimp only
  cases file.ops.read with
  | none =>
    cases file.ops.release with
    | none => rfl
    | some release => rfl
  | some _ =>
    cases file.ops.release with
    | none => rfl
    | some release => rfl

theorem loadImage_links {image : Image σ}
    (loaded : loadImage machine kernel taskCurr task path = some image) :
    links image.kernel = links kernel := by
  rcases bind_eq_some_iff.mp loaded with ⟨_, opens, rest⟩
  split at rest
  · cases rest
    exact vfsOpen_links opens
  · rcases bind_eq_some_iff.mp rest with ⟨_, _, rest⟩
    dsimp only at rest
    split at rest
    · cases rest
      exact vfsOpen_links opens
    · cases rest
      exact (readImage_links _ _ _ _ _ _).trans (vfsOpen_links opens)

theorem freeThreads_links (kernel : Kernel σ) (task : TaskId) :
    links (freeThreads kernel task) = links kernel := by
  have killed : links (killThreads kernel (kernel.task task).threads) = links kernel := by
    apply List.foldlRecOn (motive := fun after => links after = links kernel) _ _ rfl
    exact fun after same thread _ =>
      (links_setThread_same after thread (withState .dead) fun _ => rfl).trans same
  refine (links_setTask_same _ task _ ?_ ?_ ?_).trans killed
  · exact fun _ => rfl
  · exact fun _ => rfl
  · exact fun _ => rfl

theorem replaceImage_links {data : Nat}
    (replaced : replaceImage machine kernel task data argv envp = some (next, ret)) :
    links next = (links kernel).addThread task := by
  rcases bind_eq_some_iff.mp replaced with ⟨_, _, rest⟩
  rcases bind_eq_some_iff.mp rest with ⟨_, _, rest⟩
  rcases bind_eq_some_iff.mp rest with ⟨_, _, rest⟩
  rcases bind_eq_some_iff.mp rest with ⟨image, _, rest⟩
  rcases bind_eq_some_iff.mp rest with ⟨⟨_, main⟩, created, rest⟩
  rcases bind_eq_some_iff.mp rest with ⟨_, _, result⟩
  rw [← (Prod.mk.inj (some.inj result)).1]
  have elsewhere : ∀ (kernel : Kernel σ) (dev : σ), links { kernel with dev } = links kernel :=
    fun _ _ => rfl
  refine (links_setThread_same _ main _ ?_).trans ?_
  · exact fun _ => rfl
  refine (elsewhere _ _).trans ?_
  refine (links_setTask_same _ task (fun task => { task with brk := image.1.brk }) (fun _ => rfl)
    (fun _ => rfl) fun _ => rfl).trans ?_
  refine (links_setThread_same _ main (entryRegs image.2) fun _ => rfl).trans ?_
  rw [setMain_links, threadCreat_links created, freeThreads_links]
  apply congrArg fun links => Links.addThread links task
  apply links_setTask_same <;> exact fun _ => rfl

/-- `execve` leaves the links alone, or enters the task into the table again and
switches. -/
theorem sysExecve_links {ptrs : Nat × Nat × Nat}
    (executed : sysExecve machine fuel kernel cpu regs self ptrs path argv envp = some (next, ret)) :
    links next = links kernel ∨
      (∃ image data, loadImage machine kernel (some (current kernel self))
        (currentId kernel self) (vfsMkcanon path (current kernel self).workd) =
          some (.read image data)) ∧
      ∃ started, links started = (links kernel).restart (currentId kernel self) ∧
        Moves started next := by
  unfold sysExecve at executed
  split at executed
  · cases executed
    exact .inl rfl
  · split at executed
    · cases executed
    · rcases bind_eq_some_iff.mp executed with ⟨⟨_, error⟩, doing, rest⟩
      rcases bind_eq_some_iff.mp doing with ⟨image, loaded, doing⟩
      have imageLinks := loadImage_links loaded
      cases image with
      | refused image _ =>
        cases doing
        have negative := (loadImage_refused loaded).1
        simp only [negative, if_true, some.injEq, Prod.mk.injEq] at rest
        rw [← rest.1]
        exact .inl imageLinks
      | read image data =>
        rcases bind_eq_some_iff.mp doing with ⟨valid, _, doing⟩
        have passes : tryElfValid valid = none := by
          cases valid <;> rfl
        rw [passes] at doing
        have replaced := replaceImage_links doing
        have zero : error = 0 := replaceImage_ret doing
        subst zero
        rcases bind_eq_some_iff.mp rest with ⟨_, switching, result⟩
        cases result
        refine Or.inr ⟨⟨image, data, loaded⟩, _, ?_, switchTask_moves switching⟩
        rw [schedStart_links, replaced]
        exact congrArg (fun links => Links.restart links (currentId kernel self)) imageLinks

/-! ## Reporting and reaping -/

section

variable (machine : Machine σ) (kernel : Kernel σ)

theorem freeTask_links (task : TaskId) :
    links (freeTask machine kernel task) =
      { links kernel with freed := (links kernel).freed ++ [task] } := rfl

theorem taskDelete_links (task : TaskId) :
    links (taskDelete machine kernel task) = (links kernel).reap task := by
  unfold taskDelete unlinkChild Links.reap
  rw [freeTask_links, show (links kernel).parent task = (kernel.task task).parent from rfl]
  cases (kernel.task task).parent with
  | none => rfl
  | some _ =>
    rw [links_withChildren]
    rfl

theorem afterReport_links (child : TaskId) (dev : σ) :
    links (afterReport machine kernel child dev) =
      if (kernel.task child).state = .dead then
        ((links kernel).latch child (latchAfter (kernel.task child))).reap child
      else (links kernel).latch child (latchAfter (kernel.task child)) := by
  have stored : links { kernel.setTask child (withWasStop (latchAfter (kernel.task child))) with
      dev } = (links kernel).latch child (latchAfter (kernel.task child)) :=
    links_withWasStop kernel child _
  unfold afterReport
  split
  · rw [taskDelete_links, stored]
  · exact stored

end

/-! ## Steps of the system -/

variable {system : System σ} {result : System σ × Option Report}

/-- What a step of the system does to the links, and which report it makes. -/
inductive ProcCase (machine : Machine σ) (system : System σ) (cpu : CpuId) :
    ProcCall → System σ × Option Report → Prop where
  | moved {call : ProcCall} {next : Kernel σ} : Moves system.kernel next →
      ProcCase machine system cpu call (system.run next)
  | forked {self : ThreadId} {next : Kernel σ} :
      links next = (links system.kernel).fork (currentId system.kernel self) →
      ProcCase machine system cpu .fork (system.run next)
  | refused {call : ProcCall} {next : Kernel σ} : links next = links system.kernel →
      ProcCase machine system cpu call (system.run next)
  | executed {regs : Regs} {ptrs : Nat × Nat × Nat} {path : CStr} {argv envp : List CStr}
      {self : ThreadId} {image started next : Kernel σ} {data : Nat} :
      (system.kernel.cpu cpu).current = some self →
      loadImage machine system.kernel (some (current system.kernel self))
        (currentId system.kernel self) (vfsMkcanon path (current system.kernel self).workd) =
          some (.read image data) →
      links started = (links system.kernel).restart (currentId system.kernel self) →
      Moves started next →
      ProcCase machine system cpu (.execve regs ptrs path argv envp) (system.run next)
  | returned {regs : Regs} {pid : Int} {wstatus : Nat} {options : Int} {self : ThreadId}
      {next : Kernel σ} {ret : Int} {child : Option TaskId} :
      (system.kernel.cpu cpu).current = some self →
      WaitCase machine system.kernel (currentId system.kernel self) pid wstatus options
        (.returned next ret child) →
      ProcCase machine system cpu (.waitpid regs pid wstatus options)
        (system.report next ⟨currentId system.kernel self, wstatus, ret, child⟩)
  | blocked {regs : Regs} {pid : Int} {wstatus : Nat} {options : Int} {self : ThreadId}
      {waits next : Kernel σ} {frame : WaitFrame} :
      (system.kernel.cpu cpu).current = some self →
      WaitCase machine system.kernel (currentId system.kernel self) pid wstatus options
        (.blocks waits frame) →
      Moves waits next →
      ProcCase machine system cpu (.waitpid regs pid wstatus options) ({ system with
          kernel := next
          frames := Function.update system.frames self (some frame) }, none)
  | resumed {self : ThreadId} {frame : WaitFrame} {next : Kernel σ} {ret : Int}
      {child : Option TaskId} :
      (system.kernel.cpu cpu).current = some self → system.frames self = some frame →
      waitResume machine system.kernel (currentId system.kernel self) frame =
        some (next, ret, child) →
      ProcCase machine system cpu .resume
        ({ system with frames := Function.update system.frames self none }.report next
          ⟨currentId system.kernel self, frame.wstatus, ret, child⟩)

theorem calling_current (calls : system.calling cpu = some self) :
    (system.kernel.cpu cpu).current = some self :=
  (filter_eq_some_iff.mp calls).1

theorem waitpidCall_cases {pid : Int} {wstatus : Nat} {options : Int}
    (current : (system.kernel.cpu cpu).current = some self)
    (waited : waitpidCall machine fuel system cpu regs self pid wstatus options = some result) :
    ProcCase machine system cpu (.waitpid regs pid wstatus options) result := by
  rcases bind_eq_some_iff.mp waited with ⟨ended, waiting, rest⟩
  have ends := sysWaitpid_cases waiting
  cases ended with
  | returned kernel _ _ =>
    cases rest
    exact .returned current ends
  | blocks kernel _ =>
    rcases bind_eq_some_iff.mp rest with ⟨_, blocking, result⟩
    cases result
    exact .blocked current ends (threadBlock_moves blocking)

theorem procCall_cases {call : ProcCall}
    (stepped : procCall machine fuel system cpu call = some result) :
    ProcCase machine system cpu call result := by
  cases call with
  | tick regs =>
    rcases map_eq_some_iff.mp stepped with ⟨next, switched, same⟩
    subst same
    exact .moved (switchTask_moves switched)
  | fork =>
    rcases bind_eq_some_iff.mp stepped with ⟨self, _, rest⟩
    rcases map_eq_some_iff.mp rest with ⟨⟨next, ret⟩, forked, same⟩
    subst same
    exact .forked (sysFork_links forked)
  | execve regs _ _ _ _ =>
    rcases bind_eq_some_iff.mp stepped with ⟨self, calls, rest⟩
    rcases map_eq_some_iff.mp rest with ⟨⟨next, ret⟩, executed, same⟩
    subst same
    rcases sysExecve_links executed with unchanged | ⟨⟨_, _, loaded⟩, _, entered, moves⟩
    · exact .refused unchanged
    · exact .executed (calling_current calls) loaded entered moves
  | exit _ =>
    rcases bind_eq_some_iff.mp stepped with ⟨self, _, rest⟩
    rcases map_eq_some_iff.mp rest with ⟨next, exited, same⟩
    subst same
    exact .moved (taskExit_moves switchNext_moves exited)
  | waitpid regs pid _ _ =>
    rcases bind_eq_some_iff.mp stepped with ⟨self, calls, rest⟩
    exact waitpidCall_cases (calling_current calls) rest
  | resume =>
    rcases bind_eq_some_iff.mp stepped with ⟨self, current, rest⟩
    rcases bind_eq_some_iff.mp rest with ⟨_, waits, rest⟩
    rcases bind_eq_some_iff.mp rest with ⟨⟨next, ret, _⟩, resumed, result⟩
    cases result
    exact .resumed current waits resumed
  | kill regs pid _ =>
    rcases bind_eq_some_iff.mp stepped with ⟨self, _, rest⟩
    rcases map_eq_some_iff.mp rest with ⟨⟨next, ret⟩, killed, same⟩
    subst same
    exact .moved (sysKill_moves killed)
  | ptrace regs _ pid =>
    rcases bind_eq_some_iff.mp stepped with ⟨self, _, rest⟩
    rcases map_eq_some_iff.mp rest with ⟨⟨next, ret⟩, traced, same⟩
    subst same
    exact .moved (sysPtrace_moves traced)

end Micro.Proc
