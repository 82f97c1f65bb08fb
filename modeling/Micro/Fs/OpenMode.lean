import Micro.Fs.Accounting
import Micro.Lib.Run

/-!
# Open modes and transfers

Sequences of system calls that open, copy and use descriptors, and what the
check made at open says about the bytes that move later.
-/

namespace Micro.Fs

open Kern Lib Proc List Option

variable {σ : Type}

/-- Bytes moved on behalf of unprivileged tasks only move through files opened
for the direction. -/
def Enforced (kernel : Kernel σ) : Prop :=
  ∀ transfer ∈ kernel.transfers, (kernel.task transfer.task).euid ≠ 0 →
    0 < transfer.moved → Lawful transfer

/-- The system calls that open, copy and use descriptors. -/
inductive FileCall where
  | open (ptr : Nat) (path : CStr) (flags mode : Nat)
  | io (call : IoCall)
  | dup (oldfd : Int)
  | dup2 (oldfd newfd : Int)
  | fork

/-- Run one system call on behalf of a thread. -/
def fileCall (machine : Machine σ) (kernel : Kernel σ) (self : ThreadId) :
    FileCall → Option (Kernel σ × Int)
  | .open ptr path flags mode => sysOpen machine kernel self ptr path flags mode
  | .io call => (ioCall machine kernel self call).returned
  | .dup oldfd => some (sysDup kernel self oldfd)
  | .dup2 oldfd newfd => some (sysDup2 kernel self oldfd newfd)
  | .fork => sysFork machine kernel self

/-- The kernel after a call of a thread, if the call returns. -/
def fileStep (machine : Machine σ) (kernel : Kernel σ) (label : ThreadId × FileCall) :
    Option (Kernel σ) :=
  (fileCall machine kernel label.1 label.2).map Prod.fst

/-- A transfer call uses a descriptor whose flags carry the access mode for its
direction. -/
def modeMatches (kernel : Kernel σ) : ThreadId × FileCall → Bool
  | (self, .io call) =>
      (fdValid kernel self call.fd).all fun id => modeAllows call.kind (kernel.file id).flags
  | _ => true

/-- Step lemma: a call that matches its descriptor's mode keeps the books. -/
theorem fileStep_accounted {machine : Machine σ} {kernel next : Kernel σ}
    {label : ThreadId × FileCall} (holds : Accounted kernel)
    (stepped : fileStep machine kernel label = some next)
    (matched : modeMatches kernel label) : Accounted next := by
  rcases label with ⟨self, call⟩
  rcases map_eq_some_iff.mp stepped with ⟨⟨_, value⟩, ran, same⟩
  subst same
  cases call with
  | «open» ptr path flags mode => exact sysOpen_accounted holds ran
  | io call =>
    have usable : ∀ id, fdValid kernel self call.fd = some id → Usable kernel call.kind id := by
      intro id valid
      simp only [modeMatches, valid] at matched
      exact (fdValid_granted holds valid).usable matched
    have kept : Accounted (ioCall machine kernel self call).kernel := ioCall_accounted holds usable
    cases ended : ioCall machine kernel self call with
    | ret kernel value =>
      rw [ended] at kept
      simp only [fileCall, ended, Outcome.returned, some.injEq, Prod.mk.injEq] at ran
      exact ran.1 ▸ kept
    | fault kernel => simp [fileCall, ended, Outcome.returned] at ran
  | dup oldfd =>
    rw [← some.inj ran]
    exact sysDup_accounted holds
  | dup2 oldfd _ =>
    rw [← some.inj ran]
    exact sysDup2_accounted holds
  | fork => exact sysFork_accounted holds ran

/-- No descriptor is open and nothing has been transferred yet. -/
structure Unopened (kernel : Kernel σ) : Prop where
  fds : ∀ task slot, (kernel.task task).fds slot = none
  transfers : kernel.transfers = []

/-- A run of file system calls, each passing a check on the state it starts
from. -/
abbrev FileRun (machine : Machine σ) (check : Kernel σ → ThreadId × FileCall → Bool) :=
  Run (Restricted (fun kernel label next => fileStep machine kernel label = some next)
    (fun kernel label => check kernel label = true))

/-- Along every sequence of calls that respects the access modes of the
descriptors it uses, bytes move only through files opened for the direction with
the permission to do so. -/
theorem open_mode_enforced (machine : Machine σ) (start final : Kernel σ)
    (calls : List (ThreadId × FileCall)) (unopened : Unopened start)
    (run : FileRun machine modeMatches start calls final) : Enforced final := by
  have initially : Accounted start := by
    refine ⟨fun _ _ _ used => ?_, ?_⟩
    · rw [unopened.fds] at used
      cases used
    · rw [unopened.transfers]
      exact fun _ impossible => absurd impossible not_mem_nil
  have preserved : ∀ (kernel : Kernel σ) label next, Accounted kernel →
      Restricted (fun kernel label next => fileStep machine kernel label = some next)
        (fun kernel label => modeMatches kernel label = true) kernel label next →
      Accounted next :=
    fun _ _ _ holds restricted => fileStep_accounted holds restricted.1 restricted.2
  exact fun transfer made _ _ => (run.invariant preserved initially).lawful transfer made

/-- Opening a file that others may read and write for both, and reading a byte. -/
def readAfterRdwr : List (ThreadId × FileCall) :=
  [(0, .open 0x1000 [47, 102] 2 0), (0, .io (.read 3 0x1000 1))]

theorem open_mode_enforced_rdwr :
    ∃ final, FileRun (oneFile 0o006) modeMatches oneTask readAfterRdwr final ∧
      (final.transfers.map fun transfer => transfer.moved) = [1] ∧ Enforced final := by
  have driven : ((drive (guarded (fileStep (oneFile 0o006)) modeMatches) oneTask
      readAfterRdwr).map fun final => final.transfers.map fun transfer => transfer.moved) =
      some [1] := by
    decide +kernel
  rcases map_eq_some_iff.mp driven with ⟨final, reached, moved⟩
  have run := Run.of_drive guarded_restricted reached
  exact ⟨final, run, moved,
    open_mode_enforced (oneFile 0o006) oneTask final readAfterRdwr ⟨fun _ _ => rfl, rfl⟩ run⟩

/-- Opening a file that others may only write, for writing, and reading a byte. -/
def readAfterWronly : List (ThreadId × FileCall) :=
  [(0, .open 0x1000 [47, 102] 1 0), (0, .io (.read 3 0x1000 1))]

/-- The read goes through although the descriptor is open for writing only and
the task may not read the file. -/
theorem read_through_write_only_descriptor :
    Unopened oneTask ∧ ∃ final, FileRun (oneFile 0o002) (fun _ _ => true) oneTask
      readAfterWronly final ∧ ¬ Enforced final := by
  have driven : ((drive (guarded (fileStep (oneFile 0o002)) fun _ _ => true) oneTask
      readAfterWronly).map fun final =>
        (final.transfers, final.transfers.map fun transfer => (final.task transfer.task).euid)) =
      some ([⟨0, .read, 0, some ⟨1, false, true⟩, 0x1000, 1, 1⟩], [1000]) := by
    decide +kernel
  rcases map_eq_some_iff.mp driven with ⟨final, reached, observed⟩
  rcases Prod.mk.inj observed with ⟨transfers, euids⟩
  refine ⟨⟨fun _ _ => rfl, rfl⟩, final, .of_drive guarded_restricted reached, fun enforced => ?_⟩
  rw [transfers] at euids
  simp only [map_cons, map_nil, cons.injEq, and_true] at euids
  have lawful := enforced ⟨0, .read, 0, some ⟨1, false, true⟩, 0x1000, 1, 1⟩
    (by rw [transfers]; exact mem_singleton.mpr rfl) (by rw [euids]; decide) (by decide)
  rcases lawful with ⟨_, origin, mode, _⟩
  cases origin
  exact absurd mode (by decide)

end Micro.Fs
