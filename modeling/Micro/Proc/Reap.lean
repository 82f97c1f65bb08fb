import Mathlib.Data.List.Nodup
import Micro.Lib.Run
import Micro.Proc.Links

/-!
# Reporting and reaping children

What a return of `waitpid` says about the child it names, along every interleaving
of the processes' steps.  The history `System.reported` holds the state in which
each task was last reported; a return that names a child finds it in another state,
so no change is reported twice.
-/

namespace Micro.Proc

open Kern Mm Lib Fs List Option Function

variable {reported : TaskId → TaskState} {σ : Type}

/-- A return of `waitpid` that names a child is right about it. -/
structure Faithful (machine : Machine σ) (before after : System σ) (report : Report)
    (child : TaskId) : Prop where
  pid : (before.kernel.task child).pid = report.ret
  listed : child ∈ (before.kernel.task report.caller).children.items
  parent : (before.kernel.task child).parent = some report.caller
  status : ∃ dev, storeStatus machine before.kernel report.caller report.wstatus child =
      some dev ∧
    after.kernel.dev = if (before.kernel.task child).state = .dead then
      mmuDestroyVmmap machine dev (before.kernel.task child).vmMap else dev
  changed : (before.kernel.task child).state ≠ before.reported child
  noted : after.reported child = (before.kernel.task child).state
  reaped : (before.kernel.task child).state = .dead →
    child ∉ (after.kernel.task report.caller).children.items ∧
      child ∉ before.kernel.freed ∧ after.kernel.freed.count child = 1

/-! ## The invariant -/

/-- Every task is in at most one list of children and at most once, freed tasks are in
none, and the stop latch of a task says whether it was last reported as stopped. -/
structure Family (links : Links) (reported : TaskId → TaskState) : Prop where
  nodup : ∀ parent, (links.children parent).items.Nodup
  disjoint : ∀ parent other child, child ∈ (links.children parent).items →
    child ∈ (links.children other).items → parent = other
  created : ∀ parent, ∀ child ∈ (links.children parent).items, child < links.nextTask
  size : ∀ parent, (links.children parent).items.length ≤ (links.children parent).size
  owner : ∀ thread, links.owner thread < links.nextTask
  freedOnce : links.freed.Nodup
  freedCreated : ∀ child ∈ links.freed, child < links.nextTask
  freedOut : ∀ child ∈ links.freed, ∀ parent, child ∉ (links.children parent).items
  fresh : ∀ task, links.nextTask ≤ task → reported task = .running
  latch : ∀ task < links.nextTask, task ∉ links.freed →
    reported task ≠ .dead ∧ (reported task = .stopped ↔ links.wasStop task = true)

namespace Family

variable {links : Links} {child task : TaskId} (family : Family links reported)
include family

/-- `fork` adds an empty list and a new entry to the caller's. -/
theorem fork {src : TaskId} (caller : src < links.nextTask) : Family (links.fork src) reported := by
  -- The new task is in no list yet.
  have absent : ∀ parent, links.nextTask ∉ (links.children parent).items :=
    fun parent mem => Nat.lt_irrefl _ (family.created parent _ mem)
  have members := fun {parent child} => @Links.mem_fork parent child links src caller
  have lists : ∀ parent, (links.fork src).children parent =
      if parent = src then (links.children src).enqueue links.nextTask
      else if parent = links.nextTask then KList.create else links.children parent := by
    intro parent
    have ne : src ≠ links.nextTask := Nat.ne_of_lt caller
    simp only [Links.fork, Links.enlist, Links.addThread, Links.addTask, update_apply, ne, if_false]
  constructor
  case nodup =>
    intro parent
    rw [lists]
    split
    · rw [KList.enqueue, ← concat_eq_append]
      exact .concat (absent src) (family.nodup src)
    · split
      · exact nodup_nil
      · exact family.nodup parent
  case disjoint =>
    intro parent other child here there
    rcases members.mp here with ⟨old, _⟩ | ⟨isNew, isSrc⟩
    · rcases members.mp there with ⟨oldThere, _⟩ | ⟨isNew, _⟩
      · exact family.disjoint parent other child old oldThere
      · exact absurd (isNew ▸ old) (absent parent)
    · rcases members.mp there with ⟨oldThere, _⟩ | ⟨_, isSrcThere⟩
      · exact absurd (isNew ▸ oldThere) (absent other)
      · exact isSrc.trans isSrcThere.symm
  case created =>
    intro parent child mem
    rcases members.mp mem with ⟨old, _⟩ | ⟨isNew, _⟩
    · exact Nat.lt_succ_of_lt (family.created parent child old)
    · rw [isNew]
      exact Nat.lt_succ_self _
  case size =>
    intro parent
    rw [lists]
    split
    · rw [KList.enqueue, length_append]
      exact Nat.succ_le_succ (family.size src)
    · split
      · exact Nat.le_refl 0
      · exact family.size parent
  case owner =>
    intro thread
    rw [Links.fork_owner]
    split
    · exact Nat.lt_succ_self _
    · exact Nat.lt_succ_of_lt (family.owner thread)
  case freedOnce => exact family.freedOnce
  case freedCreated => exact fun child freed => Nat.lt_succ_of_lt (family.freedCreated child freed)
  case freedOut =>
    intro child freed parent mem
    rcases members.mp mem with ⟨old, _⟩ | ⟨isNew, _⟩
    · exact family.freedOut child freed parent old
    · exact Nat.lt_irrefl _ (isNew ▸ family.freedCreated child freed)
  case fresh => exact fun task later => family.fresh task (Nat.le_of_succ_le later)
  case latch =>
    intro task bound notFreed
    have isLatch : (links.fork src).wasStop task =
        if task = links.nextTask then false else links.wasStop task := update_apply _ _ _ _
    rw [isLatch]
    split
    · rename_i new
      rw [new, family.fresh _ (Nat.le_refl _)]
      decide
    · rename_i old
      exact family.latch task (Nat.lt_of_le_of_ne (Nat.le_of_lt_succ bound) old) notFreed

theorem restart (caller : task < links.nextTask) : Family (links.restart task) reported := by
  refine { family with owner := ?_ }
  intro thread
  have isOwner : (links.restart task).owner thread =
      if thread = links.nextThread then task else links.owner thread := update_apply _ _ _ _
  rw [isOwner]
  split
  · exact caller
  · exact family.owner thread

theorem adopt {init : TaskId} {kept : KList TaskId} (ne : init ≠ task)
    (cleared : (links.children task).clear = some kept) :
    Family (links.adopt task init kept) reported := by
  have empty : kept.items = [] := by
    unfold KList.clear at cleared
    split at cleared
    · rw [← some.inj cleared]
      exact drop_eq_nil_of_le (family.size task)
    · cases cleared
  have lists : ∀ parent, (links.adopt task init kept).children parent =
      if parent = task then kept
      else if parent = init then ⟨(links.children init).items ++ (links.children task).items,
        (links.children init).size + (links.children task).items.length⟩
      else links.children parent := by
    intro parent
    simp only [Links.adopt, Links.setChildren, update_apply]
  -- Every entry comes from the same list, or moved from the task to `init`.
  have members : ∀ {parent child}, child ∈ ((links.adopt task init kept).children parent).items →
      parent ≠ task ∧ (child ∈ (links.children parent).items ∨
        parent = init ∧ child ∈ (links.children task).items) := by
    intro parent child mem
    rw [lists] at mem
    split at mem
    · simp [empty] at mem
    · split at mem
      · simp_all
      · exact ⟨‹_›, .inl mem⟩
  refine { family with nodup := ?_, disjoint := ?_, created := ?_, size := ?_, freedOut := ?_ }
  · intro parent
    rw [lists]
    split
    · rw [empty]
      exact nodup_nil
    · split
      · refine nodup_append.mpr ⟨family.nodup init, family.nodup task, ?_⟩
        rintro child own _ adopted rfl
        exact ne (family.disjoint init task child own adopted)
      · exact family.nodup parent
  · intro parent other child here there
    rcases members here with ⟨notTask, own | ⟨isInit, adopted⟩⟩
    · rcases members there with ⟨_, ownThere | ⟨_, adoptedThere⟩⟩
      · exact family.disjoint parent other child own ownThere
      · exact absurd (family.disjoint parent task child own adoptedThere) notTask
    · rcases members there with ⟨notTaskThere, ownThere | ⟨isInitThere, _⟩⟩
      · exact absurd (family.disjoint other task child ownThere adopted) notTaskThere
      · exact isInit.trans isInitThere.symm
  · intro parent child mem
    rcases members mem with ⟨_, own | ⟨_, adopted⟩⟩
    · exact family.created parent child own
    · exact family.created task child adopted
  · intro parent
    rw [lists]
    split
    · rw [empty]
      exact Nat.zero_le _
    · split
      · rw [length_append]
        exact Nat.add_le_add_right (family.size init) _
      · exact family.size parent
  · intro child freed parent mem
    rcases members mem with ⟨_, own | ⟨_, adopted⟩⟩
    · exact family.freedOut child freed parent own
    · exact family.freedOut child freed task adopted

theorem fresh_update (created : child < links.nextTask) (state : TaskState)
    (later : links.nextTask ≤ task) : update reported child state task = .running := by
  rw [update_of_ne (Nat.ne_of_gt (Nat.lt_of_lt_of_le created later))]
  exact family.fresh task later

theorem latched {state : TaskState} {stopped : Bool} (alive : state ≠ .dead)
    (agrees : state = .stopped ↔ stopped = true) (created : child < links.nextTask) :
    Family (links.latch child stopped) (update reported child state) := by
  refine { family with fresh := fun task => family.fresh_update created state, latch := ?_ }
  intro task bound notFreed
  simp only [Links.latch, update_apply]
  split
  · exact ⟨alive, agrees⟩
  · exact family.latch task bound notFreed

/-- A dead child is taken from its parent and freed, for the first time. -/
theorem reap {parent : TaskId} (listed : child ∈ (links.children parent).items)
    (isParent : links.parent child = some parent) (state : TaskState) (stopped : Bool) :
    Family ((links.latch child stopped).reap child) (update reported child state) ∧
      child ∉ (((links.latch child stopped).reap child).children parent).items := by
  have created := family.created parent child listed
  have notFreed : child ∉ links.freed := fun freed => family.freedOut child freed parent listed
  have reaped : (links.latch child stopped).reap child = { links with
        wasStop := update links.wasStop child stopped
        children := update links.children parent
          ⟨(links.children parent).items.erase child, (links.children parent).size⟩
        freed := links.freed ++ [child] } := by
    unfold Links.reap
    rw [show (links.latch child stopped).parent child = some parent from isParent,
      ← eraseIdx_idxOf_eq_erase]
    rfl
  rw [reaped]
  have members : ∀ {other task}, task ∈ (update links.children parent
      ⟨(links.children parent).items.erase child, (links.children parent).size⟩ other).items →
      task ∈ (links.children other).items ∧ (task = child → other ≠ parent) := by
    intro other task mem
    rw [update_apply] at mem
    split at mem
    · rename_i isParent
      rw [isParent]
      refine ⟨mem_of_mem_erase mem, fun isChild _ => ?_⟩
      exact (family.nodup parent).not_mem_erase (isChild ▸ mem)
    · exact ⟨mem, fun _ => ‹_›⟩
  refine ⟨?_, fun stays => (members stays).2 rfl rfl⟩
  constructor
  case nodup =>
    intro other
    simp only [update_apply]
    split
    · exact (family.nodup parent).erase child
    · exact family.nodup other
  case disjoint => exact fun one other task here there =>
    family.disjoint one other task (members here).1 (members there).1
  case created => exact fun other task mem => family.created other task (members mem).1
  case size =>
    intro other
    simp only [update_apply]
    split
    · exact Nat.le_trans length_erase_le (family.size parent)
    · exact family.size other
  case owner => exact family.owner
  case freedOnce =>
    rw [← concat_eq_append]
    exact .concat notFreed family.freedOnce
  case freedCreated =>
    exact forall_mem_append.mpr ⟨family.freedCreated, forall_mem_singleton.mpr created⟩
  case freedOut =>
    intro task mem other listedThere
    obtain ⟨wasListed, elsewhere⟩ := members listedThere
    rcases mem_append.mp mem with before | last
    · exact family.freedOut task before other wasListed
    · have isChild := mem_singleton.mp last
      exact elsewhere isChild (family.disjoint other parent child (isChild ▸ wasListed) listed)
  case fresh => exact fun task => family.fresh_update created state
  case latch =>
    intro task bound notFreedNow
    have ne : task ≠ child := fun same =>
      notFreedNow (mem_append_right _ (mem_singleton.mpr same))
    simp only [update_of_ne ne]
    exact family.latch task bound fun before => notFreedNow (mem_append_left _ before)

end Family

/-! ## Steps -/

variable {ret : Int} {before next : Kernel σ} {machine : Machine σ} {wstatus : Nat}
  {system : System σ} {caller child : TaskId}

theorem Move.family {after : Kernel σ} (move : Move before after)
    (family : Family (Proc.links before) reported) : Family (Proc.links after) reported := by
  rcases move.links with same | ⟨task, kept, cleared, _, ⟨empty, changed⟩ | ⟨_, ne, changed⟩⟩
  · rw [same]
    exact family
  · have sameKept := clear_nil empty cleared
    rw [changed, sameKept]
    exact (Links.setChildren_self _ task).symm ▸ family
  · rw [changed]
    exact family.adopt ne cleared

theorem Moves.family {after : Kernel σ} (moves : Moves before after)
    (family : Family (links before) reported) : Family (links after) reported := by
  induction moves with
  | refl => exact family
  | tail _ move ih => exact move.family ih

/-- The families, and no call of `waitpid` that waits for one child. -/
structure Reaping (system : System σ) : Prop where
  family : Family (links system.kernel) system.reported
  frames : ∀ thread wstatus child, system.frames thread ≠ some (.child wstatus child)

/-- The task that a call of `waitpid` finds is a child of the caller in both directions,
and the call does not come to block on it. -/
def attentive (kernel : Kernel σ) (label : CpuId × ProcCall) : Bool :=
  (kernel.cpu label.1).current.all fun self =>
    let caller := currentId kernel self
    let own := fun child => (kernel.task child).parent == some caller
    match label.2 with
    | .waitpid _ pid _ options =>
        if 0 < pid then
          (schedTaskFromid kernel pid).all fun child =>
            (kernel.task caller).children.items.contains child && own child &&
              ((hasChildChanged kernel child).2 || options.toNat &&& 1 != 0)
        else (firstChanged kernel (kernel.task caller).children.items).all own
    | .resume => (firstChanged kernel (kernel.task caller).children.items).all own
    | _ => true

theorem unlinkChild_vmMap (kernel : Kernel σ) (task : TaskId) :
    ((unlinkChild kernel task).task task).vmMap = (kernel.task task).vmMap := by
  unfold unlinkChild
  cases (kernel.task task).parent with
  | none => rfl
  | some parent => exact kernel.setTask_read Task.vmMap parent (withChildren _) (fun _ => rfl) task

/-- A report stores the status and destroys the address space of a dead child. -/
theorem afterReport_dev (machine : Machine σ) (kernel : Kernel σ) (child : TaskId) (dev : σ) :
    (afterReport machine kernel child dev).dev =
      if (kernel.task child).state = .dead then
        mmuDestroyVmmap machine dev (kernel.task child).vmMap
      else dev := by
  have sameMap : ∀ stored : Kernel σ, (unlinkChild stored child).dev = stored.dev := by
    intro stored
    unfold unlinkChild
    cases (stored.task child).parent with
    | none => rfl
    | some _ => rfl
  unfold afterReport
  split
  · change mmuDestroyVmmap machine (unlinkChild _ child).dev ((unlinkChild _ child).task child).vmMap = _
    rw [sameMap, unlinkChild_vmMap]
    exact congrArg (mmuDestroyVmmap machine dev)
      (kernel.setTask_read Task.vmMap child (withWasStop _) (fun _ => rfl) child)
  · rfl

/-- A report of a child is right about it, and keeps the families. -/
theorem Reported.faithful (reported : Reported machine system.kernel caller wstatus child next ret)
    (family : Family (links system.kernel) system.reported)
    (listed : child ∈ (system.kernel.task caller).children.items)
    (isParent : (system.kernel.task child).parent = some caller) :
    Faithful machine system (system.report next ⟨caller, wstatus, ret, some child⟩).1
        ⟨caller, wstatus, ret, some child⟩ child ∧
      Family (links next) (update system.reported child (system.kernel.task child).state) := by
  have created := family.created caller child listed
  have notFreed : child ∉ system.kernel.freed :=
    fun freed => family.freedOut child freed caller listed
  rcases family.latch child created notFreed with ⟨notDead, latch⟩
  rcases hasChildChanged_changed reported.1 with ⟨_, state⟩
  rcases reported.spec with ⟨pid, dev, stored, result⟩
  have linked := afterReport_links machine system.kernel child dev
  rw [← result] at linked
  have agrees : (system.kernel.task child).state ≠ .dead →
      ((system.kernel.task child).state = .stopped ↔
        latchAfter (system.kernel.task child) = true) := by
    unfold latchAfter
    cases (system.kernel.task child).state with
    | dead => exact fun alive => absurd rfl alive
    | stopped => exact fun _ => ⟨fun _ => rfl, fun _ => rfl⟩
    | running => exact fun _ => ⟨fun same => TaskState.noConfusion same, fun same => Bool.noConfusion same⟩
  have reaped := family.reap listed isParent (system.kernel.task child).state
    (latchAfter (system.kernel.task child))
  constructor
  · constructor
    case pid => exact pid.symm
    case listed => exact listed
    case parent => exact isParent
    case status =>
      refine ⟨dev, stored, ?_⟩
      rw [← afterReport_dev]
      exact congrArg Kernel.dev result
    case changed =>
      rcases state with dead | ⟨stopped, unlatched⟩ | ⟨running, latched⟩
      · rw [dead]
        exact notDead.symm
      · rw [stopped]
        intro same
        exact absurd (latch.mp same.symm) (ne_true_of_eq_false unlatched)
      · rw [running]
        intro same
        cases same.trans (latch.mpr latched)
    case noted => exact update_self _ _ _
    case reaped =>
      intro dead
      rw [if_pos dead] at linked
      refine ⟨?_, notFreed, ?_⟩
      · have gone := reaped.2
        rw [← linked] at gone
        exact gone
      · have once := reaped.1.freedOnce
        rw [← linked] at once
        refine count_eq_one_of_mem once ?_
        change child ∈ (links next).freed
        rw [linked]
        exact mem_concat_self
  · rw [linked]
    split
    · exact reaped.1
    · rename_i alive
      exact family.latched alive (agrees alive) created

theorem hasChildChanged_congr {kernel other : Kernel σ}
    (state : (other.task child).state = (kernel.task child).state)
    (latch : (other.task child).wasStop = (kernel.task child).wasStop) :
    (hasChildChanged other child).2 = (hasChildChanged kernel child).2 := by
  unfold hasChildChanged
  rw [state, latch]
  cases (kernel.task child).state with
  | dead => rfl
  | stopped => cases (kernel.task child).wasStop <;> rfl
  | running => cases (kernel.task child).wasStop <;> rfl

section Woken

variable (kernel : Kernel σ) (caller : TaskId)

theorem firstChanged_woken (children : List TaskId) :
    firstChanged (kernel.setTask caller (withWaiting 0)) children =
      firstChanged kernel children := by
  have state := kernel.setTask_read Task.state caller (withWaiting 0) fun _ => rfl
  have latch := kernel.setTask_read Task.wasStop caller (withWaiting 0) fun _ => rfl
  have changed := fun child => hasChildChanged_congr (state child) (latch child)
  exact congrArg (fun test => children.find? test) (funext changed)

theorem storeStatus_woken (machine : Machine σ) (wstatus : Nat) (child : TaskId) :
    storeStatus machine (kernel.setTask caller (withWaiting 0)) caller wstatus child =
      storeStatus machine kernel caller wstatus child := by
  unfold storeStatus
  rw [kernel.setTask_read Task.vmMap caller (withWaiting 0) fun _ => rfl,
    kernel.setTask_read Task.status caller (withWaiting 0) fun _ => rfl]
  rfl

end Woken

variable {cpu : CpuId} {label : CpuId × ProcCall}

/-- That the caller no longer waits makes no difference to what a report says. -/
theorem Faithful.of_woken {before after : System σ} {report : Report} (faithful : Faithful machine
      { before with kernel := before.kernel.setTask report.caller (withWaiting 0) }
      after report child) : Faithful machine before after report child := by
  have field {α : Type} (read : Task → α) (kept : ∀ old, read (withWaiting 0 old) = read old) :=
    before.kernel.setTask_read read report.caller (withWaiting 0) kept
  have pid := field Task.pid fun _ => rfl
  have children := field Task.children fun _ => rfl
  have parent := field Task.parent fun _ => rfl
  have state := field Task.state fun _ => rfl
  have map := field Task.vmMap fun _ => rfl
  constructor
  case pid => exact (pid child).symm.trans faithful.pid
  case listed => exact children report.caller ▸ faithful.listed
  case parent => exact (parent child).symm.trans faithful.parent
  case status =>
    rcases faithful.status with ⟨dev, stored, result⟩
    refine ⟨dev, (storeStatus_woken _ _ _ _ _).symm.trans stored, ?_⟩
    rw [← state child, ← map child]
    exact result
  case changed => exact state child ▸ faithful.changed
  case noted => exact faithful.noted.trans (state child)
  case reaped => exact fun dead => faithful.reaped ((state child).trans dead)

theorem attentive_clear (kernel : Kernel σ) (label : CpuId × ProcCall) :
    attentive (clearEvents kernel) label = attentive kernel label := by
  have changed : ∀ child, (hasChildChanged (clearEvents kernel) child).2 =
      (hasChildChanged kernel child).2 := fun _ => hasChildChanged_congr rfl rfl
  unfold attentive firstChanged
  simp only [changed]
  rfl

/-- The report of a step, if it names a task, is right. -/
def Reports (machine : Machine σ) (before after : System σ) (report : Option Report) : Prop :=
  ∀ made, report = some made → 0 < made.ret →
    ∃ child, made.child = some child ∧ Faithful machine before after made child

section

variable (reaping : Reaping system)
include reaping

theorem Reaping.frames_update {self : ThreadId} {frame : Option WaitFrame}
    (other : ∀ wstatus child, frame ≠ some (.child wstatus child)) (thread : ThreadId) :
    ∀ wstatus child, update system.frames self frame thread ≠ some (.child wstatus child) := by
  rw [update_apply]
  split
  · exact other
  · exact reaping.frames thread

theorem Reaping.run (family : Family (links next) system.reported) :
    Reaping (system.run next).1 ∧ Reports machine system (system.run next).1 (system.run next).2 :=
  ⟨⟨family, reaping.frames⟩, nofun⟩

theorem Reaping.report (reported : Reported machine system.kernel caller wstatus child next ret)
    (listed : child ∈ (system.kernel.task caller).children.items)
    (isParent : (system.kernel.task child).parent = some caller) :
    Reaping (system.report next ⟨caller, wstatus, ret, some child⟩).1 ∧
      Reports machine system (system.report next ⟨caller, wstatus, ret, some child⟩).1
        (some ⟨caller, wstatus, ret, some child⟩) := by
  rcases reported.faithful reaping.family listed isParent with ⟨faithful, family⟩
  refine ⟨⟨family, reaping.frames⟩, fun _ isMade _ => ?_⟩
  cases isMade
  exact ⟨child, rfl, faithful⟩

theorem Reaping.nothing (family : Family (links next) system.reported) (none : ret ≤ 0) :
    Reaping (system.report next ⟨caller, wstatus, ret, Option.none⟩).1 ∧
      Reports machine system (system.report next ⟨caller, wstatus, ret, Option.none⟩).1
        (some ⟨caller, wstatus, ret, Option.none⟩) := by
  refine ⟨⟨family, reaping.frames⟩, fun _ isMade pos => ?_⟩
  cases isMade
  exact absurd pos (Int.not_lt.mpr none)

/-- A call that blocked has nothing to say, or reports the first child that changed. -/
theorem Reaping.resume {self : ThreadId} {frame : WaitFrame} {child : Option TaskId}
    (current : (system.kernel.cpu cpu).current = some self)
    (attends : attentive system.kernel (cpu, .resume) = true)
    (waits : system.frames self = some frame)
    (resumed : waitResume machine system.kernel (currentId system.kernel self) frame =
      some (next, ret, child)) :
    let report := ⟨currentId system.kernel self, frame.wstatus, ret, child⟩
    let after := { system with frames := update system.frames self none }.report next report
    Reaping after.1 ∧ Reports machine system after.1 (some report) := by
  generalize isCaller : currentId system.kernel self = caller at resumed
  have frames : ∀ thread wstatus child,
      update system.frames self none thread ≠ some (.child wstatus child) :=
    reaping.frames_update nofun
  have woken : Family (links (system.kernel.setTask caller (withWaiting 0))) system.reported := by
    rw [links_withWaiting]
    exact reaping.family
  rcases waitResume_cases resumed with
    ⟨isRet, isChild, result⟩ | ⟨wstatus, found, isFrame, isChild, first, reported⟩ |
    ⟨wstatus, found, isFrame, _, _⟩
  · subst isRet isChild result
    refine ⟨⟨woken, frames⟩, fun made isMade pos => ?_⟩
    cases isMade
    exact absurd pos (Int.lt_irrefl 0)
  · subst isFrame isChild
    -- The report is made once the caller no longer waits.
    let waking : System σ :=
      { system with
        kernel := system.kernel.setTask caller (withWaiting 0)
        frames := update system.frames self none }
    have base : Reaping waking := ⟨woken, frames⟩
    have children := system.kernel.setTask_read Task.children caller (withWaiting 0) (fun _ => rfl)
    have parent := system.kernel.setTask_read Task.parent caller (withWaiting 0) (fun _ => rfl)
    have state := system.kernel.setTask_read Task.state caller (withWaiting 0) (fun _ => rfl)
    have isParent : (waking.kernel.task found).parent = some caller := by
      unfold attentive at attends
      rw [firstChanged_woken, children caller] at first
      rw [current, all_some] at attends
      dsimp only at attends
      rw [isCaller, first] at attends
      exact (parent found).trans (eq_of_beq attends)
    rcases base.report reported (mem_of_find?_eq_some first) isParent with ⟨kept, reports⟩
    have same : (waking.report next ⟨caller, wstatus, ret, some found⟩).1 =
        ({ system with frames := update system.frames self none }.report next
          ⟨caller, wstatus, ret, some found⟩).1 := by
      unfold System.report
      dsimp only
      rw [state found]
    rw [same] at kept reports
    refine ⟨kept, fun made isMade pos => ?_⟩
    rcases reports made isMade pos with ⟨named, isNamed, faithful⟩
    cases isMade
    have faithfulWoken : Faithful machine
        { system with kernel := system.kernel.setTask caller (withWaiting 0) } _ _ named :=
      { faithful with }
    exact ⟨named, isNamed, faithfulWoken.of_woken⟩
  · subst isFrame
    exact absurd waits (reaping.frames self wstatus found)

theorem Reaping.step {next : System σ} {call : ProcCall} {report : Option Report}
    (attends : attentive system.kernel (cpu, call) = true)
    (done : ProcCase machine system cpu call (next, report)) :
    Reaping next ∧ Reports machine system next report := by
  have family := reaping.family
  cases done with
  | moved moves => exact reaping.run (Moves.family moves family)
  | forked forked =>
    exact reaping.run ((congrArg (Family · _) forked).mpr (family.fork (family.owner _)))
  | refused same => exact reaping.run ((congrArg (Family · _) same).mpr family)
  | executed _ _ entered moves =>
    refine reaping.run (Moves.family moves ?_)
    exact (congrArg (Family · _) entered).mpr (family.restart (family.owner _))
  | returned current ends =>
    unfold attentive at attends
    rw [current, all_some] at attends
    dsimp only at attends
    cases ends with
    | nothing _ none => exact reaping.nothing family none
    | one pos found reported =>
      rw [if_pos pos, found, all_some, Bool.and_eq_true, Bool.and_eq_true] at attends
      exact reaping.report reported (contains_iff_mem.mp attends.1.1) (eq_of_beq attends.1.2)
    | any isAny first reported =>
      subst isAny
      rw [first] at attends
      exact reaping.report reported (mem_of_find?_eq_some first) (eq_of_beq attends)
  | blocked current ends moves =>
    refine ⟨⟨Moves.family moves ?_, ?_⟩, nofun⟩
    · cases ends with
      | blockAny => exact (congrArg (Family · _) (links_withWaiting _ _ _)).mpr family
      | blockOne => exact (congrArg (Family · _) (links_withWaiting _ _ _)).mpr family
    · cases ends with
      | blockAny =>
        exact reaping.frames_update nofun
      | blockOne pos found unchanged blocking =>
        unfold attentive at attends
        rw [current, all_some] at attends
        dsimp only at attends
        rw [if_pos pos, found, all_some, unchanged, blocking] at attends
        simp at attends
  | resumed current waits resumed =>
    exact reaping.resume current attends waits resumed

theorem attentive_step {next : System σ} {report : Option Report}
    (step : ProcStep machine system label next report)
    (attends : attentive system.kernel label = true) :
    Reaping next ∧ Reports machine system next report := by
  rcases step with ⟨_, stepped⟩
  have cleared : Reaping system.clear := ⟨reaping.family, reaping.frames⟩
  have attendsCleared := (attentive_clear _ _).trans attends
  rcases cleared.step attendsCleared (procCall_cases stepped) with ⟨kept, reports⟩
  refine ⟨kept, fun made isMade pos => ?_⟩
  rcases reports made isMade pos with ⟨child, isChild, faithful⟩
  exact ⟨child, isChild, { faithful with }⟩

end

/-! ## Histories -/

/-- Tasks may have children; nothing has happened to any of them yet. -/
structure Unreported (system : System σ) : Prop where
  nodup : ∀ parent, (system.kernel.task parent).children.items.Nodup
  disjoint : ∀ parent other child, child ∈ (system.kernel.task parent).children.items →
    child ∈ (system.kernel.task other).children.items → parent = other
  created : ∀ parent, ∀ child ∈ (system.kernel.task parent).children.items,
    child < system.kernel.nextTask
  size : ∀ parent, (system.kernel.task parent).children.size =
    (system.kernel.task parent).children.items.length
  threads : ∀ thread, (system.kernel.thread thread).parent < system.kernel.nextTask
  freed : system.kernel.freed = []
  wasStop : ∀ task, (system.kernel.task task).wasStop = false
  reported : ∀ task, system.reported task = .running
  frames : ∀ thread, system.frames thread = none

theorem Unreported.reaping (unreported : Unreported system) : Reaping system := by
  have noneFreed : (links system.kernel).freed = [] := unreported.freed
  have unlatched : ∀ task, (links system.kernel).wasStop task = false := unreported.wasStop
  constructor
  case family =>
    constructor
    case nodup => exact unreported.nodup
    case disjoint => exact unreported.disjoint
    case created => exact unreported.created
    case size => exact fun parent => Nat.le_of_eq (unreported.size parent).symm
    case owner => exact unreported.threads
    case freedOnce => simp [noneFreed]
    case freedCreated => simp [noneFreed]
    case freedOut => simp [noneFreed]
    case fresh => exact fun task _ => unreported.reported task
    case latch => simp [unreported.reported, unlatched]
  case frames => simp [unreported.frames]

/-- A step of a process, with some report or none, at which `waitpid` is attentive. -/
def AttentiveStep (machine : Machine σ) (system : System σ) (label : CpuId × ProcCall)
    (next : System σ) : Prop :=
  (∃ report, ProcStep machine system label next report) ∧ attentive system.kernel label = true

/-- In every interleaving in which `waitpid` finds children of the caller only and does
not block on one of them, every report is right. -/
theorem waitpid_reports (machine : Machine σ) (start system next : System σ)
    (history : List (CpuId × ProcCall)) (label : CpuId × ProcCall) (report : Option Report)
    (unreported : Unreported start) (run : Run (AttentiveStep machine) start history system)
    (step : ProcStep machine system label next report)
    (attends : attentive system.kernel label = true) : Reports machine system next report := by
  have preserved : ∀ system label next, Reaping system →
      AttentiveStep machine system label next → Reaping next :=
    fun _ _ _ reaping ⟨⟨_, stepped⟩, attends⟩ => (attentive_step reaping stepped attends).1
  exact (attentive_step (run.invariant preserved unreported.reaping) step attends).2

/-- A parent running on the first processor, with one child that is ready to run. -/
def parentAndChild : System Unit where
  kernel :=
    { oneTask with
      task := fun id =>
        if id = 0 then
          { oneTask.task 0 with main := some 0, threads := [0], children := ⟨[2], 1⟩ }
        else if id = 2 then
          { oneTask.task 0 with pid := 2, main := some 2, threads := [2], parent := some 0 }
        else oneTask.task 0
      thread := fun id =>
        if id = 0 then oneTask.thread 0
        else if id = 2 then { oneTask.thread 0 with state := .ready, parent := 2 }
        else { oneTask.thread 0 with state := .ready, parent := 1 }
      cpu := fun cpu => { current := if cpu = 0 then some 0 else none, idle := 1 }
      tasks := [0, 2]
      readyQueue := [2]
      sPid := 3
      nextTask := 3
      nextThread := 3 }
  frames := fun _ => none
  reported := fun _ => .running

theorem parentAndChild_children (task : TaskId) :
    (parentAndChild.kernel.task task).children = if task = 0 then ⟨[2], 1⟩ else KList.create := by
  unfold parentAndChild
  dsimp only
  split
  · rfl
  · split <;> rfl

theorem parentAndChild_unreported : Unreported parentAndChild where
  nodup := by
    intro parent
    rw [parentAndChild_children]
    split <;> decide
  disjoint := by
    intro parent _ _
    rw [parentAndChild_children, parentAndChild_children]
    split
    · split
      · simp_all
      · exact fun _ mem => absurd mem not_mem_nil
    · exact fun mem => absurd mem not_mem_nil
  created := by
    intro parent
    rw [parentAndChild_children]
    split <;> decide
  size := by
    intro parent
    rw [parentAndChild_children]
    split <;> rfl
  threads := by
    intro _
    unfold parentAndChild
    dsimp only
    split
    · decide
    · split <;> decide
  freed := rfl
  wasStop := by
    intro _
    unfold parentAndChild
    dsimp only
    split
    · rfl
    · split <;> rfl
  reported := fun _ => rfl
  frames := fun _ => rfl

/-- A step of the sample, without its report. -/
def sampleCall (system : System Unit) (label : CpuId × ProcCall) : Option (System Unit) :=
  (procCall (oneFile 0) 5 system.clear label.1 label.2).map Prod.fst

theorem sampleCall_step {system next : System Unit} (called : sampleCall system label = some next) :
    ∃ report, ProcStep (oneFile 0) system label next report := by
  rcases map_eq_some_iff.mp called with ⟨⟨_, report⟩, calls, same⟩
  subst same
  exact ⟨report, 5, calls⟩

/-- The child exits, and the parent then reaps it. -/
theorem waitpid_reports_exit :
    ∃ system next, Run (AttentiveStep (oneFile 0)) parentAndChild
        [(0, .tick {}), (0, .exit 7)] system ∧
      ProcStep (oneFile 0) system (0, .waitpid {} (-1) 0x1000 0) next
        (some ⟨0, 0x1000, 2, some 2⟩) ∧
      Faithful (oneFile 0) system next ⟨0, 0x1000, 2, some 2⟩ 2 := by
  have driven : ((drive (guarded sampleCall fun system label => attentive system.kernel label)
      parentAndChild [(0, .tick {}), (0, .exit 7)]).bind fun system =>
        (procCall (oneFile 0) 5 system.clear 0 (.waitpid {} (-1) 0x1000 0)).map fun result =>
          (attentive system.kernel (0, .waitpid {} (-1) 0x1000 0), result.2)) =
      some (true, some ⟨0, 0x1000, 2, some 2⟩) := by
    decide +kernel
  rcases bind_eq_some_iff.mp driven with ⟨system, reached, stepped⟩
  rcases map_eq_some_iff.mp stepped with ⟨⟨next, _⟩, calls, observed⟩
  rcases Prod.mk.inj observed with ⟨attends, isReport⟩
  subst isReport
  have run : Run (AttentiveStep (oneFile 0)) parentAndChild
      [(0, .tick {}), (0, .exit 7)] system := by
    refine Run.of_drive (fun stepped => ?_) reached
    rcases guarded_restricted stepped with ⟨called, attends⟩
    exact ⟨sampleCall_step called, attends⟩
  have step : ProcStep (oneFile 0) system (0, .waitpid {} (-1) 0x1000 0) next _ := ⟨5, calls⟩
  rcases waitpid_reports (oneFile 0) parentAndChild system next _ _ _ parentAndChild_unreported
    run step attends _ rfl (by decide) with ⟨_, isChild, faithful⟩
  cases isChild
  exact ⟨system, next, run, step, faithful⟩

/-- The parent waits for the child by its pid, the child exits, and the parent's call
returns without having reaped it. -/
theorem waitpid_blocked_does_not_reap :
    Unreported parentAndChild ∧ ∃ system next,
      Run (fun system label next => ∃ report, ProcStep (oneFile 0) system label next report)
        parentAndChild [(0, .waitpid {} 2 0x1000 0), (0, .exit 7)] system ∧
      ProcStep (oneFile 0) system (0, .resume) next (some ⟨0, 0x1000, 2, some 2⟩) ∧
      ¬ Reports (oneFile 0) system next (some ⟨0, 0x1000, 2, some 2⟩) := by
  have driven : ((drive sampleCall parentAndChild
      [(0, .waitpid {} 2 0x1000 0), (0, .exit 7)]).bind fun system =>
        (procCall (oneFile 0) 5 system.clear 0 .resume).map fun result =>
          ((system.kernel.task 2).state, (result.1.kernel.task 0).children.items, result.2)) =
      some (.dead, [2], some ⟨0, 0x1000, 2, some 2⟩) := by
    decide +kernel
  rcases bind_eq_some_iff.mp driven with ⟨system, reached, stepped⟩
  rcases map_eq_some_iff.mp stepped with ⟨⟨next, report⟩, calls, observed⟩
  rcases Prod.mk.inj observed with ⟨dead, rest⟩
  rcases Prod.mk.inj rest with ⟨children, isReport⟩
  subst isReport
  refine ⟨parentAndChild_unreported, system, next, .of_drive sampleCall_step reached,
    ⟨5, calls⟩, fun reports => ?_⟩
  rcases reports _ rfl (by decide) with ⟨_, isChild, faithful⟩
  cases isChild
  have gone := (faithful.reaped dead).1
  rw [children] at gone
  exact gone (mem_singleton.mpr rfl)

end Micro.Proc
