import Micro.Mm.Clone
import Micro.Proc.Task

/-!
# What `fork` copies

`sys_fork` assembles the child from `mktask`, `thread_clone`, `mmu_clone_vmmap`
and the assignments of `task_clone`.  The module computes every part of the child
that a process can observe and compares it with the parent.
-/

namespace Micro.Proc

open Kern Mm Lib Fs Option Function List

variable {src dst : TaskId} {calling : ThreadId} {σ : Type} {before after : Kernel σ}

def areaKind (area : VmArea) : Nat × Nat × Option VmObjectType :=
  (area.base, area.end_, area.obj.map VmObject.type)

/-- The objects the calling thread refers to have been allocated. -/
structure Allocated (kernel : Kernel σ) (calling : ThreadId) : Prop where
  task : currentId kernel calling < kernel.nextTask
  thread : calling < kernel.nextThread
  files : ∀ slot id, (current kernel calling).fds slot = some id → id < kernel.nextFile

/-! ## The signal stack -/

/-- In an address space without areas the signal stack is the page at `0x1000`. -/
theorem mapSigstack_spec (machine : Machine σ) (dev : σ) (map : VmMap)
    (noAreas : map.vmAreas = KList.create) (backed : Backed map 0 0) :
    ∃ dev' map', mapSigstack machine dev map = some (dev', map', 0x2000) ∧
      map'.vmAreas.items.map areaKind = [(0x1000, 0x2000, some .vmoAnon)] ∧
      ∀ i j k, (i, j, k) ≠ (0, 0, 1) → userPage map' i j k = userPage map i j k := by
  rcases map with ⟨pml4Phys, pdptPhys, physPds, pds, pts, _⟩
  subst noAreas
  let withArea (pages : Nat → Nat) : VmMap :=
    ⟨pml4Phys, pdptPhys, physPds, pds, pts, ⟨[⟨0x1000, 0x2000, some (.anon 1 pages)⟩], 1⟩⟩
  let frame := machine.mmuAllocPhys dev
  rcases mmuMap_spec machine frame.1 (withArea (update (fun _ => 0) 0 frame.2)) 0x1000
    frame.2 3 backed with ⟨dev', map', mapped, areas, pages⟩
  have allocated : vmMapAnonAlloc machine dev (withArea fun _ => 0) 0 0x1000
      (subWord 0x2000 0x1000) = some (dev', map') := by
    have page : anonAllocPage machine 0x1000 0 (dev, withArea fun _ => 0) 0 =
        some (dev', map') := mapped
    change (anonAllocPage machine 0x1000 0 (dev, withArea fun _ => 0) 0).bind _ = _
    rw [page]
    rfl
  refine ⟨dev', map', ?_, ?_, pages⟩
  · change (vmMapAnonAlloc machine dev (withArea fun _ => 0) 0 0x1000
      (subWord 0x2000 0x1000)).bind _ = _
    rw [allocated]
    rfl
  · rw [areas]
    rfl

/-- The kernel after a thread has been cloned into a task, given what became of the
machine, the task's address space and the new kernel stack. -/
def cloneInto (kernel : Kernel σ) (parent : TaskId) (src : ThreadId) (dev : σ) (map : VmMap)
    (kstack : Nat) : Kernel σ :=
  (({ (allocThread kernel (kernel.thread src)).1 with dev }).setTask parent
    fun task => { task with vmMap := map }).setThread kernel.nextThread
      (resetThread parent kstack 0x2000)

theorem threadClone_spec (machine : Machine σ) (kernel : Kernel σ) (parent : TaskId)
    (src : ThreadId) (noAreas : (kernel.task parent).vmMap.vmAreas = KList.create)
    (backed : Backed (kernel.task parent).vmMap 0 0) :
    ∃ dev map kstack, threadClone machine kernel parent src =
        some (cloneInto kernel parent src dev map kstack, kernel.nextThread) ∧
      map.vmAreas.items.map areaKind = [(0x1000, 0x2000, some .vmoAnon)] ∧
      ∀ i j k, (i, j, k) ≠ (0, 0, 1) →
        userPage map i j k = userPage (kernel.task parent).vmMap i j k := by
  let kstack := machine.mmuKalloc kernel.dev
  rcases mapSigstack_spec machine (machine.mmuAllocPhys kstack.1).1
    (kernel.task parent).vmMap noAreas backed with ⟨dev, map, mapped, areas, pages⟩
  refine ⟨dev, map, addWord kstack.2 0x1000, ?_, areas, pages⟩
  simp only [threadClone, initThreadMeta, allocThread]
  rw [mapped]
  rfl

/-! ## Descriptors -/

/-- What a loop over descriptor slots has done to the destination `dst`: its table
has become `fds`, with a copy of the source's open file in every slot visited. -/
structure FdsCloned (src dst : TaskId) (slots : List Nat) (before after : Kernel σ)
    (fds : Nat → Option FileId) : Prop where
  task : after.task = Function.update before.task dst { before.task dst with fds := fds }
  thread : after.thread = before.thread
  readyQueue : after.readyQueue = before.readyQueue
  nextFile : before.nextFile ≤ after.nextFile
  file : ∀ id < before.nextFile, after.file id = before.file id
  skipped : ∀ slot, slot ∉ slots ∨ (before.task src).fds slot = none →
    fds slot = (before.task dst).fds slot
  copied : ∀ slot ∈ slots, ∀ file, (before.task src).fds slot = some file →
    ∃ id, fds slot = some id ∧ after.file id = before.file file

theorem cloneFd_spec (kernel : Kernel σ) (slot : Nat) :
    ∃ fds, FdsCloned src dst [slot] kernel (cloneFd src dst kernel slot) fds ∧
      ∀ id, fds slot = some id → (kernel.task src).fds slot ≠ none →
        id < (cloneFd src dst kernel slot).nextFile := by
  unfold cloneFd
  cases used : (kernel.task src).fds slot with
  | none =>
    refine ⟨(kernel.task dst).fds, ⟨by simp, rfl, rfl, Nat.le_refl _, fun _ _ => rfl,
      fun _ _ => rfl, ?_⟩, by simp⟩
    intro other visited file held
    rw [mem_singleton.mp visited, used] at held
    cases held
  | some file =>
    refine ⟨update (kernel.task dst).fds slot (some kernel.nextFile),
      ⟨rfl, rfl, rfl, Nat.le_succ _, ?_, ?_, ?_⟩, ?_⟩
    · intro id old
      exact update_of_ne (Nat.ne_of_lt old) _ _
    · intro other untouched
      apply update_of_ne
      intro _
      subst other
      rcases untouched with notListed | empty
      · exact notListed (mem_singleton.mpr rfl)
      · rw [used] at empty
        cases empty
    · intro other visited held otherFile
      rw [mem_singleton.mp visited] at otherFile ⊢
      rw [used] at otherFile
      cases otherFile
      exact ⟨kernel.nextFile, update_self _ _ _, update_self _ _ _⟩
    · intro id assigned _
      rw [update_self] at assigned
      cases assigned
      exact Nat.lt_succ_self _

/-- The loop as a whole, by induction on the slots still to be visited. -/
theorem cloneFdLoop_spec (ne : src ≠ dst) (slots : List Nat) (kernel : Kernel σ)
    (distinct : slots.Nodup)
    (old : ∀ slot id, (kernel.task src).fds slot = some id → id < kernel.nextFile) :
    ∃ fds, FdsCloned src dst slots kernel (slots.foldl (cloneFd src dst) kernel) fds := by
  induction slots generalizing kernel with
  | nil =>
    exact ⟨(kernel.task dst).fds, by simp, rfl, rfl, Nat.le_refl _, fun _ _ => rfl,
      fun _ _ => rfl, fun _ visited => absurd visited not_mem_nil⟩
  | cons slot slots ih =>
    rcases nodup_cons.mp distinct with ⟨notLater, distinctRest⟩
    rcases cloneFd_spec kernel slot with ⟨fds₁, first, fresh⟩
    have sameSrc : ((cloneFd src dst kernel slot).task src).fds = (kernel.task src).fds := by
      rw [first.task, update_of_ne ne]
    have oldStill : ∀ other id, ((cloneFd src dst kernel slot).task src).fds other = some id →
        id < (cloneFd src dst kernel slot).nextFile := by
      intro other id held
      rw [sameSrc] at held
      exact Nat.lt_of_lt_of_le (old other id held) first.nextFile
    rcases ih (cloneFd src dst kernel slot) distinctRest oldStill with ⟨fds, rest⟩
    have dstFds : ((cloneFd src dst kernel slot).task dst).fds = fds₁ := by
      rw [first.task, update_self]
    refine ⟨fds, ?_, rest.thread.trans first.thread, rest.readyQueue.trans first.readyQueue,
      Nat.le_trans first.nextFile rest.nextFile, ?_, ?_, ?_⟩
    · rw [foldl_cons, rest.task, first.task]
      simp
    · intro id bound
      rw [foldl_cons, rest.file id (Nat.lt_of_lt_of_le bound first.nextFile), first.file id bound]
    · intro other untouched
      rw [mem_cons, not_or, and_or_right] at untouched
      rw [rest.skipped other (by rw [sameSrc]; exact untouched.2), dstFds,
        first.skipped other (by rw [mem_singleton]; exact untouched.1)]
    · intro other visited file held
      rcases mem_cons.mp visited with _ | later
      · subst other
        rcases first.copied slot (mem_singleton.mpr rfl) file held with ⟨id, put, same⟩
        refine ⟨id, ?_, ?_⟩
        · rw [rest.skipped slot (.inl notLater), dstFds, put]
        · rw [foldl_cons, rest.file id (fresh id put (by simp [held])), same]
      · rcases rest.copied other later file (by rw [sameSrc]; exact held) with ⟨id, put, same⟩
        refine ⟨id, put, ?_⟩
        rw [foldl_cons, same, first.file file (old other file held)]

/-! ## The child -/

/-- The child a fork leaves in the fresh task, with the fresh thread. -/
structure Forked (before : Kernel σ) (calling : ThreadId) (after : Kernel σ) : Prop where
  task : ∃ fds map, after.task before.nextTask =
      { inherit (current before calling)
          (newTask before.sPid (some (currentId before calling)) map) with
        main := some before.nextThread
        threads := [before.nextThread]
        fds := fds } ∧
    map.vmAreas.items.map areaKind = [(0x1000, 0x2000, some .vmoAnon)] ∧
    (∀ i j k, i < 512 → j < 512 → k < 512 → (i, j, k) ≠ (0, 0, 1) →
      userPage map i j k = userPage (current before calling).vmMap i j k) ∧
    ∀ slot < 256, match (current before calling).fds slot with
      | none => fds slot = none
      | some file => ∃ id, fds slot = some id ∧ after.file id = before.file file
  thread : ∃ kstack, after.thread before.nextThread =
    withForkRegs (before.thread calling).syscallRegs
      (resetThread before.nextTask kstack 0x2000 (before.thread calling))

section Child

variable {kernel : Kernel σ} {copy : σ × VmMap} {dev : σ} {map : VmMap} {kstack : Nat}

/-- The kernel between `mktask` and `thread_clone`, for a copied address space. -/
def withTask (kernel : Kernel σ) (calling : ThreadId) (copy : σ × VmMap) : Kernel σ :=
  (mktask { kernel with dev := copy.1 } (some (currentId kernel calling)) copy.2).1

/-- The kernel when `task_clone` comes to the descriptors. -/
def withMain (kernel : Kernel σ) (calling : ThreadId) (copy : σ × VmMap) (dev : σ)
    (map : VmMap) (kstack : Nat) : Kernel σ :=
  setMain (cloneInto (withTask kernel calling copy) kernel.nextTask calling dev map kstack)
    kernel.nextTask kernel.nextThread

theorem withMain_thread : (withMain kernel calling copy dev map kstack).thread kernel.nextThread =
    resetThread kernel.nextTask kstack 0x2000 (kernel.thread calling) :=
  (Kernel.setThread_thread_self _ _ _).trans
    (congrArg (resetThread kernel.nextTask kstack 0x2000) (update_self _ _ _))

section

variable (allocated : Allocated kernel calling)
include allocated

theorem withMain_parent :
    (withMain kernel calling copy dev map kstack).task (currentId kernel calling) =
      withChild kernel.nextTask (current kernel calling) := by
  have ne := Nat.ne_of_lt allocated.task
  rw [withMain, setMain, Kernel.setTask_task_of_ne _ _ ne, cloneInto,
    Kernel.setThread_task, Kernel.setTask_task_of_ne _ _ ne]
  exact mktask_parent ne

theorem withMain_child :
    (withMain kernel calling copy dev map kstack).task kernel.nextTask =
      { newTask kernel.sPid (some (currentId kernel calling)) map with
        main := some kernel.nextThread
        threads := [kernel.nextThread] } := by
  have base : (allocThread (withTask kernel calling copy)
      ((withTask kernel calling copy).thread calling)).1.task kernel.nextTask =
      newTask kernel.sPid (some (currentId kernel calling)) copy.2 :=
    mktask_child (Nat.ne_of_lt allocated.task)
  rw [withMain, setMain, Kernel.setTask_task_self, cloneInto, Kernel.setThread_task,
    Kernel.setTask_task_self, base]
  rfl

theorem inheritAll_spec (copy : σ × VmMap) (dev : σ) (map : VmMap) (kstack : Nat) :
    ∃ fds next, next = inheritAll
        (cloneInto (withTask kernel calling copy) kernel.nextTask calling dev map kstack)
        (currentId kernel calling) kernel.nextTask kernel.nextThread ∧
      next.task kernel.nextTask =
        { inherit (current kernel calling)
            (newTask kernel.sPid (some (currentId kernel calling)) map) with
          main := some kernel.nextThread
          threads := [kernel.nextThread]
          fds := fds } ∧
      next.thread = (withMain kernel calling copy dev map kstack).thread ∧
      ∀ slot < 256, match (current kernel calling).fds slot with
        | none => fds slot = none
        | some file => ∃ id, fds slot = some id ∧ next.file id = kernel.file file := by
  have ne := Nat.ne_of_lt allocated.task
  obtain ⟨start, isStart⟩ : ∃ start, start = withMain kernel calling copy dev map kstack := ⟨_, rfl⟩
  have parent : start.task (currentId kernel calling) =
      withChild kernel.nextTask (current kernel calling) := by
    rw [isStart, withMain_parent allocated]
  have looped : ∃ fds, FdsCloned (currentId kernel calling) kernel.nextTask (range 256) start
      (cloneFds start (currentId kernel calling) kernel.nextTask) fds := by
    unfold cloneFds
    refine cloneFdLoop_spec ne (range 256) _ nodup_range fun slot id held => ?_
    rw [parent] at held
    rw [isStart]
    exact allocated.files slot id held
  rcases looped with ⟨fds, loop⟩
  have unfolded : inheritAll
      (cloneInto (withTask kernel calling copy) kernel.nextTask calling dev map kstack)
      (currentId kernel calling) kernel.nextTask kernel.nextThread =
      (cloneFds start (currentId kernel calling) kernel.nextTask).setTask kernel.nextTask
        (inherit ((cloneFds start (currentId kernel calling) kernel.nextTask).task
          (currentId kernel calling))) := by
    rw [isStart, inheritAll, withMain]
  refine ⟨fds, _, unfolded.symm, ?_, isStart ▸ loop.thread, ?_⟩
  · rw [Kernel.setTask_task_self, loop.task, update_self, update_of_ne ne, parent, isStart,
      withMain_child allocated]
    rfl
  · intro slot bound
    cases used : (current kernel calling).fds slot with
    | none =>
      rw [loop.skipped slot (.inr (by rw [parent]; exact used)), isStart, withMain_child allocated]
      rfl
    | some file =>
      rcases loop.copied slot (mem_range.mpr bound) file (by rw [parent]; exact used) with
        ⟨id, put, same⟩
      exact ⟨id, put, same.trans (by rw [isStart]; rfl)⟩

end

/-- From a copied address space on, `task_clone` and the rest of `sys_fork` succeed
and leave the child. -/
theorem forked_of_copy (machine : Machine σ) (allocated : Allocated kernel calling)
    (noAreas : copy.2.vmAreas = KList.create)
    (cells : ∀ i j, i < 512 → j < 512 → CellCopied (current kernel calling).vmMap copy.2 i j) :
    ∃ threaded next, threadClone machine (withTask kernel calling copy) kernel.nextTask calling =
        some (threaded, kernel.nextThread) ∧
      forkRegs (inheritAll threaded (currentId kernel calling) kernel.nextTask
        kernel.nextThread) kernel.nextTask (kernel.thread calling).syscallRegs = some next ∧
      Forked kernel calling (schedStart next kernel.nextTask) := by
  have child : (withTask kernel calling copy).task kernel.nextTask =
      newTask kernel.sPid (some (currentId kernel calling)) copy.2 :=
    mktask_child (Nat.ne_of_lt allocated.task)
  rcases threadClone_spec machine (withTask kernel calling copy) kernel.nextTask calling
    (by rw [child]; exact noAreas)
    (by rw [child]; exact (cells 0 0 (by decide) (by decide)).1) with
    ⟨dev, map, kstack, threaded, areas, pages⟩
  rcases inheritAll_spec allocated copy dev map kstack with
    ⟨fds, inherited, same, task, thread, descriptors⟩
  have threads : (inherited.task kernel.nextTask).threads = [kernel.nextThread] := by
    rw [task]
  have reset : inherited.thread kernel.nextThread =
      resetThread kernel.nextTask kstack 0x2000 (kernel.thread calling) := by
    rw [thread]
    exact withMain_thread
  refine ⟨_, inherited.setThread kernel.nextThread
    (withForkRegs (kernel.thread calling).syscallRegs), threaded, ?_, ?_⟩
  · rw [← same, forkRegs, threads]
  · rw [schedStart_single (by rw [Kernel.setThread_task]; exact threads)]
    refine ⟨⟨fds, map, task, areas, ?_, descriptors⟩, kstack, ?_⟩
    · intro i j k row column entry other
      rw [pages i j k other, child]
      exact (cells i j row column).userPage entry
    · refine (Kernel.setThread_thread_self _ _ _).trans ?_
      refine (congrArg (withState .ready) (Kernel.setThread_thread_self _ _ _)).trans ?_
      rw [reset]
      rfl

end Child

theorem sysFork_spec (machine : Machine σ) (kernel : Kernel σ) (self : ThreadId)
    (allocated : Allocated kernel self) :
    ∃ next, sysFork machine kernel self = some (next, (next.task kernel.nextTask).pid) ∧
      Forked kernel self next := by
  rcases forked_of_copy machine allocated
    (mmuCloneVmmap_vmAreas machine kernel.dev (current kernel self).vmMap)
    (fun i j => mmuCloneVmmap_copied machine kernel.dev (current kernel self).vmMap) with
    ⟨_, next, cloned, regs, forked⟩
  refine ⟨schedStart next kernel.nextTask, ?_, forked⟩
  simp only [sysFork, taskClone, mktask_snd]
  rw [show kernel.task (currentId kernel self) = current kernel self from rfl]
  change (((threadClone machine (withTask kernel self _) kernel.nextTask self).bind _).bind _) = _
  rw [cloned]
  simp only [bind_some, Option.pure_def]
  rw [regs]
  rfl

/-! ## Comparing the child with its parent -/

/-- The child's task and thread duplicate the parent and the calling thread: they
agree in everything the process can observe except its identity, the value
`fork` returns and the page of its signal stack. -/
structure Duplicated (before : Kernel σ) (calling : ThreadId) (after : Kernel σ)
    (child : TaskId) (thread : ThreadId) : Prop where
  parent : (after.task child).parent = some (currentId before calling)
  workd : (after.task child).workd = (current before calling).workd
  umask : (after.task child).umask = (current before calling).umask
  brk : (after.task child).brk = (current before calling).brk
  ruid : (after.task child).ruid = (current before calling).ruid
  euid : (after.task child).euid = (current before calling).euid
  rgid : (after.task child).rgid = (current before calling).rgid
  egid : (after.task child).egid = (current before calling).egid
  groups : (after.task child).groups = (current before calling).groups
  pgid : (after.task child).pgid = (current before calling).pgid
  sid : (after.task child).sid = (current before calling).sid
  signals : (after.task child).signals = (current before calling).signals
  sigmask : (after.thread thread).sigmask = (before.thread calling).sigmask
  fds : ∀ slot < 256, match (current before calling).fds slot with
    | none => (after.task child).fds slot = none
    | some file => ∃ id, (after.task child).fds slot = some id ∧
        (after.file id).inode = (before.file file).inode ∧
        (after.file id).off = (before.file file).off ∧
        (after.file id).flags = (before.file file).flags
  areas : (after.task child).vmMap.vmAreas.items.map areaKind =
    (current before calling).vmMap.vmAreas.items.map areaKind
  pages : ∀ i j k, i < 512 → j < 512 → k < 512 → (i, j, k) ≠ (0, 0, 1) →
    userPage (after.task child).vmMap i j k = userPage (current before calling).vmMap i j k
  regs : (after.thread thread).regs = { (before.thread calling).syscallRegs with rax := 0 }

/-- `fork` returns the pid of a duplicate of the caller. -/
def ForkDuplicates (machine : Machine σ) (kernel : Kernel σ) (self : ThreadId) : Prop :=
  ∃ next thread, sysFork machine kernel self =
      some (next, (next.task kernel.nextTask).pid) ∧
    (next.task kernel.nextTask).main = some thread ∧
    Duplicated kernel self next kernel.nextTask thread

/-- The parts of a process that `fork` gives to the child anew have their initial
values in the parent: the mask and break of `mktask`, the signal mask of
`init_thread_meta`, and the signal stack as the only area. -/
def InitialValues (kernel : Kernel σ) (self : ThreadId) : Prop :=
  (current kernel self).umask = 0o022 ∧ (current kernel self).brk = 0 ∧
    (kernel.thread self).sigmask = 0 ∧
    (current kernel self).vmMap.vmAreas.items.map areaKind = [(0x1000, 0x2000, some .vmoAnon)]

/-- What a duplicate says about the values `fork` does not copy. -/
theorem Forked.initialValues {thread : ThreadId} (forked : Forked before calling after)
    (main : (after.task before.nextTask).main = some thread)
    (same : Duplicated before calling after before.nextTask thread) :
    InitialValues before calling := by
  rcases forked.task with ⟨_, _, task, areas, _, _⟩
  rcases forked.thread with ⟨_, reset⟩
  rw [task] at main
  have thread_eq : before.nextThread = thread := some.inj main
  subst thread_eq
  refine ⟨?_, ?_, ?_, ?_⟩
  · rw [← same.umask, task]
    rfl
  · rw [← same.brk, task]
    rfl
  · rw [← same.sigmask, reset]
    rfl
  · rw [← same.areas, task]
    exact areas

theorem Forked.duplicated (forked : Forked before calling after)
    (initial : InitialValues before calling) :
    (after.task before.nextTask).main = some before.nextThread ∧
      Duplicated before calling after before.nextTask before.nextThread := by
  rcases forked.task with ⟨fds, _, task, areas, pages, descriptors⟩
  rcases forked.thread with ⟨_, reset⟩
  rcases initial with ⟨umask, brk, sigmask, parentAreas⟩
  refine ⟨by rw [task], ?_⟩
  constructor <;> try (rw [task]; rfl)
  case umask =>
    rw [task, umask]
    rfl
  case brk =>
    rw [task, brk]
    rfl
  case sigmask =>
    rw [reset, sigmask]
    rfl
  case fds =>
    intro slot bound
    have copied := descriptors slot bound
    rw [task]
    split
    · rename_i free
      rw [free] at copied
      exact copied
    · rename_i file used
      rw [used] at copied
      rcases copied with ⟨id, put, contents⟩
      exact ⟨id, put, by rw [contents], by rw [contents], by rw [contents]⟩
  case areas =>
    rw [task, parentAreas]
    exact areas
  case pages =>
    rw [task]
    exact pages
  case regs =>
    rw [reset]
    rfl

/-- `fork` duplicates the process exactly when the values it does not copy are the
initial ones. -/
theorem fork_duplicates_iff (machine : Machine σ) (kernel : Kernel σ) (self : ThreadId)
    (allocated : Allocated kernel self) :
    ForkDuplicates machine kernel self ↔ InitialValues kernel self := by
  rcases sysFork_spec machine kernel self allocated with ⟨next, returned, forked⟩
  constructor
  · rintro ⟨other, _, returnedOther, main, same⟩
    rw [returned] at returnedOther
    have equal : next = other := (Prod.mk.inj (some.inj returnedOther)).1
    subst equal
    exact forked.initialValues main same
  · intro initial
    exact ⟨next, kernel.nextThread, returned, forked.duplicated initial⟩

/-- The kernel of `oneTask` when its task is itself a fresh child of a fork: the
signal stack is its only area. -/
def oneChild : Kernel Unit :=
  { oneTask with task := fun id =>
      { oneTask.task id with vmMap :=
          { (oneTask.task id).vmMap with
            vmAreas := ⟨[⟨0x1000, 0x2000, some (.anon 1 fun _ => 0)⟩], 1⟩ } } }

theorem oneChild_forks : ForkDuplicates (oneFile 0) oneChild 0 :=
  (fork_duplicates_iff (oneFile 0) oneChild 0
    ⟨by decide, by decide, nofun⟩).mpr ⟨rfl, rfl, rfl, rfl⟩

/-- The same task after `umask(0)`. -/
def openUmask : Kernel Unit :=
  { oneChild with task := fun id => { oneChild.task id with umask := 0 } }

/-- The child of a process with umask 0 gets umask 022. -/
theorem fork_resets_umask : ¬ ForkDuplicates (oneFile 0) openUmask 0 := by
  rintro ⟨other, _, returnedOther, main, same⟩
  rcases sysFork_spec (oneFile 0) openUmask 0
    ⟨by decide, by decide, nofun⟩ with ⟨next, returned, forked⟩
  rw [returned] at returnedOther
  have equal : next = other := (Prod.mk.inj (some.inj returnedOther)).1
  subst equal
  exact absurd (forked.initialValues main same).1 (by decide)

end Micro.Proc
