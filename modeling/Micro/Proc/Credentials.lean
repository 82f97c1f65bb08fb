import Micro.Lib.Run
import Micro.Mm.Memory
import Micro.Proc.Task

/-!
# The credentials of a task

The calls that set the ids and the supplementary groups of the task that makes them.  Besides
the task itself they use the pointer in its `groups` field, of which the task holds the first
`groupcnt` entries.
-/

namespace Micro.Proc

open Kern Mm Lib Fs List Option

variable {σ : Type}

/-- The calling task and its `groups` pointer, zero for `NULL`. -/
structure Caller where
  task : Task
  groups : Nat

def eperm : Int := 1

/-- `(uid_t)-1` and `(gid_t)-1` -/
def noId : UInt32 := 0xffffffff

/-- The two assignments of `sys_setreuid` and `sys_setregid`, each refused when the effective
id is not zero. -/
def setIds (effective : Task → Nat) (setReal setEffective : Nat → Task → Task)
    (real eff : UInt32) (task : Task) : Task × Int :=
  if real ≠ noId ∧ effective task ≠ 0 then (task, -eperm)
  else
    let task := if real ≠ noId then setReal real.toNat task else task
    if eff ≠ noId then
      if effective task ≠ 0 then (task, -eperm) else (setEffective eff.toNat task, 0)
    else (task, 0)

def sysSetreuid (ruid euid : UInt32) (task : Task) : Task × Int :=
  setIds Task.euid (fun id task => { task with ruid := id }) (fun id task => { task with euid := id })
    ruid euid task

def sysSetregid (rgid egid : UInt32) (task : Task) : Task × Int :=
  setIds Task.egid (fun id task => { task with rgid := id }) (fun id task => { task with egid := id })
    rgid egid task

def sysSetuid (uid : UInt32) (task : Task) : Task × Int :=
  ((sysSetreuid noId uid task).1, 0)

def sysSetgid (gid : UInt32) (task : Task) : Task × Int :=
  ((sysSetregid noId gid task).1, 0)

/-- The loop of `sys_setgroups`: the entries written to a block with room for some, and the
value returned; `none` where memory is accessed that is not mapped or not part of the block. -/
def copyGroups (machine : Machine σ) (dev : σ) (map : VmMap) (list room : Nat) :
    (count i : Nat) → Option (List Nat × Int)
  | 0, _ => some ([], 0)
  | count + 1, i =>
      if mmuVirt2phys map (addWord list (4 * i)) = 0 then some ([], -efault)
      else if room ≤ i then none
      else do
        let gid ← loadWord machine dev map (addWord list (4 * i)) 4
        let rest ← copyGroups machine dev map list room count (i + 1)
        some (gid :: rest.1, rest.2)

/-- The entries a block of `size * sizeof(gid_t)` bytes has room for; the product wraps, and a
request of no bytes gives `NULL`. -/
def groupsRoom (block size : Nat) : Nat := if block = 0 then 0 else size % 2 ^ 62

/-- The task's groups when some entries of the array have been written and the others are what
memory held. -/
def withGroups (written : List Nat) (size : Nat) (memory : Nat → Nat) (task : Task) : Task :=
  { task with groups := written ++ ((List.range size).drop written.length).map memory }

/-- `sys_setgroups`, given the block that `kmalloc` returns and what is in memory where `groups`
points afterwards.  `kfree(NULL)` writes just below the end of the address space and faults. -/
def sysSetgroups (machine : Machine σ) (dev : σ) (size list : UInt64) (block : Nat)
    (memory : Nat → Nat) (caller : Caller) : Option (Caller × Int) :=
  if caller.groups = 0 then none
  else if list = 0 then some ({ caller with task := withGroups [] size.toNat memory caller.task }, 0)
  else if mmuVirt2phys caller.task.vmMap list.toNat = 0 then
    some (⟨withGroups [] size.toNat memory caller.task, block⟩, -efault)
  else do
    let copied ← copyGroups machine dev caller.task.vmMap list.toNat
      (groupsRoom block size.toNat) size.toNat 0
    some (⟨withGroups copied.1 size.toNat memory caller.task, block⟩, copied.2)

/-- A call by the task. -/
inductive Request (σ : Type) where
  | setreuid (ruid euid : UInt32)
  | setuid (uid : UInt32)
  | setregid (rgid egid : UInt32)
  | setgid (gid : UInt32)
  | setgroups (dev : σ) (size list : UInt64) (block : Nat) (memory : Nat → Nat)

/-- A call that changes nothing but the task. -/
def onTask (caller : Caller) (call : Task → Task × Int) : Caller × Int :=
  ({ caller with task := (call caller.task).1 }, (call caller.task).2)

/-- Execute one call. -/
def serve (machine : Machine σ) (caller : Caller) : Request σ → Option (Caller × Int)
  | .setreuid ruid euid => some (onTask caller (sysSetreuid ruid euid))
  | .setuid uid => some (onTask caller (sysSetuid uid))
  | .setregid rgid egid => some (onTask caller (sysSetregid rgid egid))
  | .setgid gid => some (onTask caller (sysSetgid gid))
  | .setgroups dev size list block memory => sysSetgroups machine dev size list block memory caller

/-! ## What is asked for -/

/-- The list a `setgroups` call asks for, if there is one where it says. -/
def userGroups (machine : Machine σ) (dev : σ) (map : VmMap) (list : Nat) :
    (count i : Nat) → Option (List Nat)
  | 0, _ => some []
  | count + 1, i =>
      if mmuVirt2phys map (addWord list (4 * i)) = 0 then none
      else do
        let gid ← loadWord machine dev map (addWord list (4 * i)) 4
        let rest ← userGroups machine dev map list count (i + 1)
        some (gid :: rest)

/-- The list of a `setgroups` call; without a pointer only the empty one can be meant. -/
def wantedGroups (machine : Machine σ) (dev : σ) (map : VmMap) (size list : UInt64) :
    Option (List Nat) :=
  if list = 0 then if size = 0 then some [] else none
  else userGroups machine dev map list.toNat size.toNat 0

/-- The call asks for a value that the task does not have. -/
def Unapplied (machine : Machine σ) (task : Task) : Request σ → Prop
  | .setreuid ruid euid =>
      (ruid ≠ noId ∧ ruid.toNat ≠ task.ruid) ∨ (euid ≠ noId ∧ euid.toNat ≠ task.euid)
  | .setuid uid => uid.toNat ≠ task.euid
  | .setregid rgid egid =>
      (rgid ≠ noId ∧ rgid.toNat ≠ task.rgid) ∨ (egid ≠ noId ∧ egid.toNat ≠ task.egid)
  | .setgid gid => gid.toNat ≠ task.egid
  | .setgroups dev size list _ _ =>
      ∃ wanted, wantedGroups machine dev task.vmMap size list = some wanted ∧ wanted ≠ task.groups

def ids (task : Task) : Nat × Nat × Nat × Nat × List Nat :=
  (task.ruid, task.euid, task.rgid, task.egid, task.groups)

/-- The calls that go right: any `setreuid`, a `setregid` that the effective group id refuses,
and otherwise those that ask for what the task has. -/
def Harmless (machine : Machine σ) (task : Task) : Request σ → Prop
  | .setreuid _ _ => True
  | .setuid uid => uid.toNat = task.euid
  | .setregid rgid egid => task.egid ≠ 0 ∨ ¬ Unapplied machine task (.setregid rgid egid)
  | .setgid gid => gid.toNat = task.egid
  | .setgroups dev size list _ _ =>
      wantedGroups machine dev task.vmMap size list = some task.groups

/-! ## Calls by an unprivileged task -/

section SetIds

variable {effective : Task → Nat} {setReal setEffective : Nat → Task → Task} {task : Task}
  {real eff : UInt32}

theorem setIds_refused (nonzero : effective task ≠ 0) :
    (setIds effective setReal setEffective real eff task).1 = task ∧
      (real ≠ noId ∨ eff ≠ noId →
        (setIds effective setReal setEffective real eff task).2 = -eperm) := by
  unfold setIds
  by_cases isReal : real = noId
  · by_cases isEff : eff = noId
    · simp [isReal, isEff]
    · simp [isReal, isEff, nonzero]
  · simp [isReal, nonzero]

theorem setIds_same (realSame : real ≠ noId → setReal real.toNat task = task)
    (effSame : eff ≠ noId → setEffective eff.toNat task = task) :
    (setIds effective setReal setEffective real eff task).1 = task := by
  have same : (if real ≠ noId then setReal real.toNat task else task) = task := by
    split
    · rename_i isReal
      exact realSame isReal
    · rfl
  unfold setIds
  split
  · rfl
  · simp only [same]
    split
    · rename_i isEff
      split
      · rfl
      · exact effSame isEff
    · rfl

end SetIds

variable {caller : Caller} {ret : Int} {machine : Machine σ} {map : VmMap} {dev : σ}

section

variable {list count i : Nat} {wanted : List Nat}
  (read : userGroups machine dev map list count i = some wanted)
include read

theorem copyGroups_read {room : Nat} {copied : List Nat × Int}
    (copies : copyGroups machine dev map list room count i = some copied) :
    copied = (wanted, 0) := by
  induction count generalizing i wanted copied with
  | zero =>
    cases read
    cases copies
    rfl
  | succ count ih =>
    rw [userGroups] at read
    rw [copyGroups] at copies
    split at read
    · cases read
    · rename_i mapped
      rw [if_neg mapped] at copies
      obtain ⟨_, loaded, read⟩ := bind_eq_some_iff.mp read
      obtain ⟨_, isRest, isWanted⟩ := bind_eq_some_iff.mp read
      split at copies
      · cases copies
      · obtain ⟨_, loaded', copies⟩ := bind_eq_some_iff.mp copies
        obtain ⟨_, isRest', isCopied⟩ := bind_eq_some_iff.mp copies
        obtain rfl := ih isRest isRest'
        rw [loaded, some.injEq] at loaded'
        cases isWanted
        cases isCopied
        rw [loaded']

theorem length_userGroups : wanted.length = count := by
  induction count generalizing i wanted with
  | zero =>
    cases read
    rfl
  | succ count ih =>
    rw [userGroups] at read
    split at read
    · cases read
    · obtain ⟨_, -, read⟩ := bind_eq_some_iff.mp read
      obtain ⟨_, isRest, isWanted⟩ := bind_eq_some_iff.mp read
      cases isWanted
      rw [length_cons, ih isRest]

end

/-- A `setgroups` call that asks for the groups the task has changes none. -/
theorem sysSetgroups_same {size list : UInt64} {block : Nat} {memory : Nat → Nat} {next : Caller}
    (wanted : wantedGroups machine dev caller.task.vmMap size list = some caller.task.groups)
    (done : sysSetgroups machine dev size list block memory caller = some (next, ret)) :
    next.task = caller.task := by
  have kept : ∀ written, written.length = size.toNat → written = caller.task.groups →
      withGroups written size.toNat memory caller.task = caller.task := by
    intro written length isGroups
    subst isGroups
    simp [withGroups, ← length, drop_eq_nil_of_le]
  unfold sysSetgroups at done
  unfold wantedGroups at wanted
  split at done
  · cases done
  · split at done
    · rename_i isNull
      rw [if_pos isNull] at wanted
      split at wanted
      · rename_i isZero
        cases done
        exact kept [] (by simp [isZero]) (some.inj wanted)
      · cases wanted
    · rename_i nonnull
      rw [if_neg nonnull] at wanted
      have length := length_userGroups wanted
      split at done
      · rename_i unmapped
        cases done
        cases isSize : size.toNat with
        | zero =>
          have empty := length_eq_zero_iff.mp (length.trans isSize)
          rw [← isSize]
          exact kept [] isSize.symm empty.symm
        | succ _ =>
          rw [isSize, userGroups, if_pos] at wanted
          · cases wanted
          · simpa [addWord] using unmapped
      · obtain ⟨_, copies, isNext⟩ := bind_eq_some_iff.mp done
        obtain rfl := copyGroups_read wanted copies
        cases isNext
        exact kept _ length rfl

theorem setregid_same {rgid egid : UInt32} {task : Task}
    (applied : ¬ Unapplied machine task (.setregid rgid egid)) :
    (sysSetregid rgid egid task).1 = task := by
  simp only [Unapplied, not_or, not_and, not_not] at applied
  apply setIds_same
  · intro asked
    rw [applied.1 asked]
  · intro asked
    rw [applied.2 asked]

/-- A harmless call by an unprivileged task leaves it as it is, and reports what it did not
do. -/
theorem serve_harmless {next : Caller} {request : Request σ} (unprivileged : caller.task.euid ≠ 0)
    (harmless : Harmless machine caller.task request)
    (served : serve machine caller request = some (next, ret)) :
    next.task = caller.task ∧ (Unapplied machine next.task request → ret < 0) := by
  cases request with
  | setreuid ruid euid =>
    obtain ⟨same, refused⟩ := @setIds_refused Task.euid (fun id task => { task with ruid := id })
      (fun id task => { task with euid := id }) caller.task ruid euid unprivileged
    cases served
    refine ⟨same, fun unapplied => ?_⟩
    have asked : ruid ≠ noId ∨ euid ≠ noId := unapplied.imp And.left And.left
    exact lt_of_eq_of_lt (refused asked) (by decide)
  | setuid uid =>
    obtain ⟨same, -⟩ := @setIds_refused Task.euid (fun id task => { task with ruid := id })
      (fun id task => { task with euid := id }) caller.task noId uid unprivileged
    cases served
    refine ⟨same, fun unapplied => absurd ?_ unapplied⟩
    change uid.toNat = (sysSetreuid noId uid caller.task).1.euid
    rw [sysSetreuid, same]
    exact harmless
  | setregid rgid egid =>
    cases served
    rcases harmless with nonzero | applied
    · obtain ⟨same, refused⟩ := @setIds_refused Task.egid
        (fun id task => { task with rgid := id }) (fun id task => { task with egid := id })
        caller.task rgid egid nonzero
      refine ⟨same, fun unapplied => ?_⟩
      have asked : rgid ≠ noId ∨ egid ≠ noId := unapplied.imp And.left And.left
      exact lt_of_eq_of_lt (refused asked) (by decide)
    · have same := setregid_same applied
      exact ⟨same, fun unapplied => absurd (same ▸ unapplied) applied⟩
  | setgid gid =>
    cases served
    have isEgid : gid.toNat = caller.task.egid := harmless
    have applied : ¬ Unapplied machine caller.task (.setregid noId gid) := by
      simp [Unapplied, isEgid]
    have same := setregid_same applied
    refine ⟨same, fun unapplied => absurd ?_ unapplied⟩
    change gid.toNat = (sysSetregid noId gid caller.task).1.egid
    rw [same]
    exact harmless
  | setgroups _ _ _ _ _ =>
    have same := sysSetgroups_same harmless served
    refine ⟨same, fun unapplied => ?_⟩
    obtain ⟨_, isWanted, ne⟩ := unapplied
    rw [same] at isWanted ne
    rw [harmless, some.injEq] at isWanted
    exact absurd isWanted.symm ne

/-- What is known of a run: the caller, and for each call the task after it and the value
returned. -/
structure Served (σ : Type) where
  caller : Caller
  log : List (Request σ × Task × Int)

/-- A call, with its result noted. -/
def Served.step (machine : Machine σ) (state : Served σ) (request : Request σ) : Option (Served σ) :=
  (serve machine state.caller request).map fun done =>
    ⟨done.1, state.log ++ [(request, done.1.task, done.2)]⟩

/-- In every run of harmless calls by a task that is not privileged, its ids and groups stay
what they are, and each call that leaves a value unapplied fails. -/
theorem credentials_fixed (machine : Machine σ) (caller : Caller)
    (unprivileged : caller.task.euid ≠ 0) (requests : List (Request σ)) (final : Served σ)
    (run : Run (Restricted (fun state request next => state.step machine request = some next)
        fun state request => Harmless machine state.caller.task request)
      ⟨caller, []⟩ requests final) :
    ids final.caller.task = ids caller.task ∧
      ∀ entry ∈ final.log, Unapplied machine entry.2.1 entry.1 → entry.2.2 < 0 := by
  have kept : final.caller.task = caller.task ∧
      ∀ entry ∈ final.log, Unapplied machine entry.2.1 entry.1 → entry.2.2 < 0 := by
    refine run.invariant (P := fun state => state.caller.task = caller.task ∧
      ∀ entry ∈ state.log, Unapplied machine entry.2.1 entry.1 → entry.2.2 < 0) ?_ ⟨rfl, by simp⟩
    intro state request next holds stepped
    obtain ⟨isTask, reported⟩ := holds
    obtain ⟨stepped, harmless⟩ := stepped
    obtain ⟨⟨next, _⟩, served, rfl⟩ := map_eq_some_iff.mp stepped
    obtain ⟨same, fails⟩ := serve_harmless (isTask ▸ unprivileged) harmless served
    exact ⟨same.trans isTask, forall_mem_append.mpr ⟨reported, forall_mem_singleton.mpr fails⟩⟩
  exact ⟨congrArg ids kept.1, kept.2⟩

/-- A task of user 1000 whose effective group id is zero. -/
def userTask : Task :=
  { newTask 2 none ⟨0, 0, fun _ => 0, fun _ _ => 0, fun _ _ => none, .create⟩ with
    ruid := 1000, euid := 1000 }

/-- User 1000 asks to become root and is refused, then asks for the user id it has. -/
theorem credentials_fixed_two : ∃ final, Run (Restricted (fun (state : Served Unit) request next =>
          state.step (oneFile 0) request = some next)
        fun state request => Harmless (oneFile 0) state.caller.task request)
      ⟨⟨userTask, 0⟩, []⟩ [.setreuid 0 0, .setuid 1000] final ∧
      ids final.caller.task = ids userTask ∧
      ∀ entry ∈ final.log, Unapplied (oneFile 0) entry.2.1 entry.1 → entry.2.2 < 0 := by
  have run : Run (Restricted (fun (state : Served Unit) request next =>
        state.step (oneFile 0) request = some next)
      fun state request => Harmless (oneFile 0) state.caller.task request)
      ⟨⟨userTask, 0⟩, []⟩ [.setreuid 0 0, .setuid 1000] _ :=
    .cons ⟨rfl, trivial⟩ (.cons ⟨rfl, rfl⟩ (.nil _))
  exact ⟨_, run, credentials_fixed (oneFile 0) ⟨userTask, 0⟩ (by decide) _ _ run⟩

/-- User 1000 with effective group id zero can set its group ids, and `setuid(0)` returns zero
without setting anything. -/
theorem setregid_changes_ids :
    userTask.euid ≠ 0 ∧
      (sysSetregid 5 5 userTask).2 = 0 ∧
      ids (sysSetregid 5 5 userTask).1 ≠ ids userTask ∧
      (sysSetuid 0 userTask).2 = 0 ∧
      Unapplied (oneFile 0) (sysSetuid 0 userTask).1 (.setuid 0) := by
  refine ⟨by decide, rfl, by decide, rfl, ?_⟩
  exact (by decide : (0 : UInt32).toNat ≠ 1000)

end Micro.Proc
