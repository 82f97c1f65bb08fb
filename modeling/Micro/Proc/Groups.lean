import Mathlib.Tactic.Common
import Micro.Fs.Path

/-!
# Supplementary groups

A task has a pointer to an array of group ids and their number.  `setgroups` frees the array and
makes another one, `fork` copies it, and the permission check reads it.  The pointer starts as
`NULL`, and the first `setgroups` of any task frees that.
-/

namespace Micro.Proc

open Kern

variable {id : Nat}

/-- Why a program that uses memory stops. -/
inductive Fault where
  | badFree
  | badAccess
  | noMemory
  deriving DecidableEq, Repr

/-- The contents of the allocated arrays; the pointers from `next` on were not given out yet. -/
structure Arrays (α : Type) where
  contents : Nat → Option (List α)
  next : Nat
  fresh : ∀ id, next ≤ id → contents id = none

namespace Arrays

variable {α : Type}

/-- An array gets other contents. -/
def assign (arrays : Arrays α) (id : Nat) (given : id < arrays.next) (xs : Option (List α)) :
    Arrays α where
  contents := Function.update arrays.contents id xs
  next := arrays.next
  fresh := by
    intro other above
    have different : other ≠ id := by omega
    rw [Function.update_of_ne different]
    exact arrays.fresh other above

theorem given {arrays : Arrays α} {xs : List α} (allocated : arrays.contents id = some xs) :
    id < arrays.next := by
  by_contra above
  rw [arrays.fresh id (Nat.le_of_not_lt above)] at allocated
  cases allocated

/-- Free an array; `NULL` is none. -/
def free (arrays : Arrays α) (ptr : Option Nat) : Except Fault (Arrays α) :=
  match ptr with
  | none => .error .badFree
  | some id =>
      match allocated : arrays.contents id with
      | none => .error .badFree
      | some _ => .ok (arrays.assign id (given allocated) none)

/-- Allocate an array with some contents. -/
def alloc (arrays : Arrays α) (xs : List α) : Arrays α where
  contents := Function.update arrays.contents arrays.next (some xs)
  next := arrays.next + 1
  fresh := by
    intro other above
    have different : other ≠ arrays.next := by omega
    rw [Function.update_of_ne different]
    exact arrays.fresh other (by omega)

def read (arrays : Arrays α) (ptr : Option Nat) (i : Nat) : Except Fault α :=
  match (ptr.bind arrays.contents).bind (·[i]?) with
  | some x => .ok x
  | none => .error .badAccess

def write (arrays : Arrays α) (ptr : Option Nat) (i : Nat) (x : α) : Except Fault (Arrays α) :=
  match ptr with
  | none => .error .badAccess
  | some id =>
      match allocated : arrays.contents id with
      | none => .error .badAccess
      | some xs =>
          if i < xs.length then .ok (arrays.assign id (given allocated) (some (xs.set i x)))
          else .error .badAccess

/-- Write entries one after the other. -/
def writeAll (arrays : Arrays α) (ptr : Option Nat) : List α → Nat → Except Fault (Arrays α)
  | [], _ => .ok arrays
  | x :: xs, i => do
      let arrays ← arrays.write ptr i x
      writeAll arrays ptr xs (i + 1)

/-- Copy entries from one array to another, one after the other. -/
def copy (arrays : Arrays α) (dst src : Option Nat) : (left i : Nat) → Except Fault (Arrays α)
  | 0, _ => .ok arrays
  | left + 1, i => do
      let x ← arrays.read src i
      let arrays ← arrays.write dst i x
      copy arrays dst src left (i + 1)

/-- Whether one of the entries is equal to a value; the search stops at the first one. -/
def search [DecidableEq α] (arrays : Arrays α) (ptr : Option Nat) (x : α) :
    (left i : Nat) → Except Fault Bool
  | 0, _ => .ok false
  | left + 1, i => do
      if x = (← arrays.read ptr i) then return true
      search arrays ptr x left (i + 1)

end Arrays

/-- The pointers and counts of the tasks, and the arrays they point to. -/
structure Groups where
  arrays : Arrays Nat
  groups : TaskId → Option Nat
  groupcnt : TaskId → Nat
  nextTask : TaskId
  /-- The values that were last set for a task, which the code does not store. -/
  lastSet : TaskId → List Nat

namespace Groups

/-! ## The source -/

/-- A list of a user's group ids; its bytes are memory of the user, fewer than `2 ^ 64`. -/
abbrev UserList := { list : List Nat // list.length < 2 ^ 62 }

/-- `kmalloc(cnt * sizeof(gid_t))`: nothing for no bytes, and the kernel stops when there is no
memory left.  The size of the array wraps. -/
def kmalloc (arrays : Arrays Nat) (room : Bool) (cnt : Nat) :
    Except Fault (Arrays Nat × Option Nat) :=
  if cnt % 2 ^ 62 = 0 then .ok (arrays, none)
  else if room then
    .ok (arrays.alloc (List.replicate (cnt % 2 ^ 62) 0), some arrays.next)
  else .error .noMemory

/-- `task->groups = groups` and `task->groupcnt = groupcnt` -/
def assign (state : Groups) (task : TaskId) (groups : Option Nat) (groupcnt : Nat)
    (lastSet : List Nat) : Groups :=
  { state with
    groups := Function.update state.groups task groups
    groupcnt := Function.update state.groupcnt task groupcnt
    lastSet := Function.update state.lastSet task lastSet }

/-- `sys_setgroups` with `NULL` or a valid list -/
def sysSetgroups (state : Groups) (task : TaskId) (room : Bool) (size : Nat)
    (list : Option (List Nat)) : Except Fault Groups := do
  let arrays ← state.arrays.free (state.groups task)
  match list with
  | none => return { state with arrays }.assign task (state.groups task) size []
  | some list =>
      let (arrays, groups) ← kmalloc arrays room size
      let arrays ← arrays.writeAll groups list 0
      return { state with arrays }.assign task groups size list

/-- The part of `task_clone` that copies the groups to a new task. -/
def taskClone (state : Groups) (src : TaskId) (room : Bool) : Except Fault Groups := do
  let child := state.nextTask
  let state := { state with nextTask := child + 1 }
  if state.groupcnt src = 0 then return state.assign child none 0 []
  let (arrays, groups) ← kmalloc state.arrays room (state.groupcnt src)
  let arrays ← arrays.copy groups (state.groups src) (state.groupcnt src) 0
  return { state with arrays }.assign child groups (state.groupcnt src) (state.lastSet src)

/-- `vfs_checkperm` by a task with these ids -/
def vfsCheckperm (state : Groups) (task : TaskId) (euid egid : Nat) (file : Inode) (mask : Nat) :
    Except Fault Int :=
  if euid ≠ 0 then
    if euid = file.uid then .ok (if file.mode &&& (mask <<< 6) = 0 then -1 else 0)
    else if egid = file.gid then .ok (if file.mode &&& (mask <<< 3) = 0 then -1 else 0)
    else do
      let member ← state.arrays.search (state.groups task) file.gid (state.groupcnt task) 0
      if member then return if file.mode &&& (mask <<< 3) = 0 then -1 else 0
      return if file.mode &&& mask = 0 then -1 else 0
  else .ok 0

inductive Call where
  | setgroups (room : Bool) (list : UserList)
  | setgroupsNull (size : Nat)
  | fork (room : Bool)
  | checkperm (euid egid : Nat) (file : Inode) (mask : Nat)

def call (state : Groups) (label : TaskId × Call) : Except Fault Groups :=
  match label.2 with
  | .setgroups room list => state.sysSetgroups label.1 room list.1.length (some list.1)
  | .setgroupsNull size => state.sysSetgroups label.1 true size none
  | .fork room => state.taskClone label.1 room
  | .checkperm euid egid file mask => do
      let _ ← state.vfsCheckperm label.1 euid egid file mask
      return state

/-! ## Lifetimes -/

/-- A task with groups points to an allocated array of at least so many entries, which holds the
values last set. -/
def Held (state : Groups) : Prop :=
  ∀ task, 0 < state.groupcnt task → ∃ id xs, state.groups task = some id ∧
    state.arrays.contents id = some xs ∧ state.groupcnt task ≤ xs.length ∧
    xs.take (state.groupcnt task) = state.lastSet task

/-- Along a history the groups are held, and no call frees an array that is not allocated or
touches an entry outside of one.  The kernel may stop for lack of memory. -/
def Kept (state : Groups) : List (TaskId × Call) → Prop
  | [] => state.Held
  | label :: labels =>
      state.Held ∧
        match state.call label with
        | .ok next => next.Kept labels
        | .error fault => fault = .noMemory

def Call.setsGroups : Call → Bool
  | .setgroups _ _ | .setgroupsNull _ => true
  | .fork _ | .checkperm _ _ _ _ => false

structure NoGroups (state : Groups) : Prop where
  groups : ∀ task, state.groups task = none
  groupcnt : ∀ task, state.groupcnt task = 0

section Steps

variable {state : Groups} (noGroups : NoGroups state)
include noGroups

theorem NoGroups.held : Held state := by
  intro task pos
  rw [noGroups.groupcnt] at pos
  exact absurd pos (Nat.lt_irrefl 0)

theorem setgroups_badFree (task : TaskId) (room : Bool) (size : Nat) (list : Option (List Nat)) :
    state.sysSetgroups task room size list = .error .badFree := by
  rw [sysSetgroups, noGroups.groups]
  rfl

theorem fork_noGroups (src : TaskId) (room : Bool) :
    ∃ next, state.taskClone src room = .ok next ∧ NoGroups next := by
  refine ⟨{ state with nextTask := state.nextTask + 1 }.assign state.nextTask none 0 [], ?_, ?_, ?_⟩
  · rw [taskClone, if_pos (noGroups.groupcnt src)]
    rfl
  · intro task
    by_cases child : task = state.nextTask
    · simp [assign, child]
    · simpa [assign, child] using noGroups.groups task
  · intro task
    by_cases child : task = state.nextTask
    · simp [assign, child]
    · simpa [assign, child] using noGroups.groupcnt task

theorem checkperm_noGroups (task : TaskId) (euid egid : Nat) (file : Inode) (mask : Nat) :
    ∃ value, state.vfsCheckperm task euid egid file mask = .ok value := by
  rw [vfsCheckperm, noGroups.groupcnt]
  split_ifs <;> exact ⟨_, rfl⟩

theorem call_noGroups (label : TaskId × Call) :
    label.2.setsGroups = true ∧ state.call label = .error .badFree ∨
      label.2.setsGroups = false ∧ ∃ next, state.call label = .ok next ∧ NoGroups next := by
  rcases label with ⟨task, call⟩
  cases call with
  | setgroups room list =>
    exact .inl ⟨rfl, setgroups_badFree noGroups task room list.1.length (some list.1)⟩
  | setgroupsNull size => exact .inl ⟨rfl, setgroups_badFree noGroups task true size none⟩
  | fork room => exact .inr ⟨rfl, fork_noGroups noGroups task room⟩
  | checkperm euid egid file mask =>
    obtain ⟨_, checked⟩ := checkperm_noGroups noGroups task euid egid file mask
    refine .inr ⟨rfl, state, ?_, noGroups⟩
    simp only [call, checked]
    rfl

theorem kept_iff (history : List (TaskId × Call)) :
    state.Kept history ↔ ∀ label ∈ history, label.2.setsGroups = false := by
  induction history generalizing state with
  | nil => simpa [Kept] using noGroups.held
  | cons label labels ih =>
    simp only [Kept, noGroups.held, true_and, List.forall_mem_cons]
    rcases call_noGroups noGroups label with ⟨sets, called⟩ | ⟨other, next, called, noGroupsNext⟩
    · simp [called, sets]
    · simp [called, other, ih noGroupsNext]

end Steps

/-- Tasks without groups, as they start. -/
def boot : Groups where
  arrays := { contents := fun _ => none, next := 0, fresh := fun _ _ => rfl }
  groups := fun _ => none
  groupcnt := fun _ => 0
  nextTask := 1
  lastSet := fun _ => []

/-- From boot on, groups arrays are freed once and held while they are in use exactly in the
histories in which no task sets its groups. -/
theorem groups_kept_iff (history : List (TaskId × Call)) :
    boot.Kept history ↔ ∀ label ∈ history, label.2.setsGroups = false :=
  kept_iff ⟨fun _ => rfl, fun _ => rfl⟩ history

/-- The child of the first task sets a group, and frees `NULL`. -/
theorem setgroups_breaks_groups :
    ¬ boot.Kept [(0, .fork true), (1, .setgroups true ⟨[7], by decide⟩)] := by
  rintro ⟨-, -, stopped⟩
  cases stopped

end Groups

end Micro.Proc
