import Micro.Fs.UserBuffers

/-!
# File offsets

`vfs_read` and `vfs_write` add what a driver returns to the offset of the open file, and `lseek`
assigns to it what the caller asks for.  Neither looks at the sign, so that an offset can become
negative, and a call that fails can move it.
-/

namespace Micro.Fs

open Kern Lib Proc Option

variable {self : ThreadId} {fd : FileId} {buf size : Nat} {fdno offset whence : Int} {σ : Type}
  {machine : Machine σ} {kernel : Kernel σ}

/-! ## The source -/

/-- `fd->flags & O_APPEND` -/
def appends (file : File) : Prop := file.flags &&& 0o2000 ≠ 0

instance (file : File) : Decidable (appends file) := inferInstanceAs (Decidable (_ ≠ _))

def withOff (off : Int) (file : File) : File := { file with off }

def sysLseek (kernel : Kernel σ) (self : ThreadId) (fdno offset whence : Int) : Kernel σ × Int :=
  match fdValid kernel self fdno with
  | none => (kernel, -ebadf)
  | some fd =>
      let file := kernel.file fd
      let size : Int := (kernel.inode file.inode).size
      if whence = 0 then
        let off := if appends file then wrapSigned (offset + size) else offset
        (kernel.setFile fd (withOff off), off)
      else if whence = 2 then
        let off := wrapSigned (size + offset)
        (kernel.setFile fd (withOff off), off)
      else if whence = 1 then
        let off := wrapSigned (file.off + offset)
        (kernel.setFile fd (withOff off), off)
      else (kernel, -einval)

/-- The calls that use the offset of an open file. -/
inductive OffsetCall where
  | io (call : IoCall)
  | lseek (fd offset whence : Int)

/-- Run a call on behalf of a thread; a kernel fault has no result. -/
def offsetCall (machine : Machine σ) (kernel : Kernel σ) (label : ThreadId × OffsetCall) :
    Option (Kernel σ × Int) :=
  match label.2 with
  | .io call => (ioCall machine kernel label.1 call).returned
  | .lseek fd offset whence => some (sysLseek kernel label.1 fd offset whence)

/-! ## Calls that keep to their offsets -/

/-- Where `lseek` is asked to go. -/
def seekTarget (kernel : Kernel σ) (fd : FileId) (offset whence : Int) : Option Int :=
  let file := kernel.file fd
  let size : Int := (kernel.inode file.inode).size
  if whence = 0 then some (if appends file then offset + size else offset)
  else if whence = 2 then some (size + offset)
  else if whence = 1 then some (file.off + offset)
  else none

/-- The driver reports no error, and what it moves leaves the offset below `2 ^ 63`. -/
def Moves (machine : Machine σ) (kernel : Kernel σ) (self : ThreadId) (kind : IoKind)
    (fd : FileId) (buf size : Nat) : Prop :=
  ∀ op, fileOp (kernel.file fd).ops kind = some op →
    let moved := (callOp machine kernel self kind op fd buf (kernel.file fd).off size).2
    0 ≤ moved ∧ (kernel.file fd).off + moved < 2 ^ 63

/-- So do the transfers of `readv` and of `writev`, which also validates the base of an entry. -/
def LoopMoves (machine : Machine σ) (self : ThreadId) (kind : IoKind) (fd : FileId) (iov : Nat) :
    (count i : Nat) → Kernel σ → Prop
  | 0, _, _ => True
  | count + 1, i, kernel =>
      ptrValid kernel self (addWord iov (16 * i)) → ∀ base len,
        loadIovec machine kernel self iov i = some (base, len) →
        (kind = .write → ptrValid kernel self base) →
        Moves machine kernel self kind fd base len ∧
          LoopMoves machine self kind fd iov count (i + 1)
            (vfsTransfer machine kernel self kind fd base len).1

/-- The offset that `write` starts from can be represented. -/
def Appendable (kernel : Kernel σ) (fd : FileId) : Prop :=
  appends (kernel.file fd) → (kernel.inode (kernel.file fd).inode).size < 2 ^ 63

/-- A call whose drivers report no error, and whose offsets are not negative and can be
represented. -/
def Steady (machine : Machine σ) (kernel : Kernel σ) (label : ThreadId × OffsetCall) : Prop :=
  match label.2 with
  | .io (.read fdno buf size) => ∀ fd, fdValid kernel label.1 fdno = some fd →
      ptrValid kernel label.1 buf → Moves machine kernel label.1 .read fd buf size
  | .io (.write fdno buf size) => ∀ fd, fdValid kernel label.1 fdno = some fd →
      ptrValid kernel label.1 buf → Appendable kernel fd ∧
        Moves machine (seekAppend kernel fd) label.1 .write fd buf size
  | .io (.readv fdno iov iovcnt) => ∀ fd, fdValid kernel label.1 fdno = some fd →
      ptrValid kernel label.1 iov → LoopMoves machine label.1 .read fd iov iovcnt.toNat 0 kernel
  | .io (.writev fdno iov iovcnt) => ∀ fd, fdValid kernel label.1 fdno = some fd →
      ptrValid kernel label.1 iov → LoopMoves machine label.1 .write fd iov iovcnt.toNat 0 kernel
  | .io (.pread _ _ _ _) => True
  | .io (.pwrite _ _ _ _) => True
  | .lseek fdno offset whence => ∀ fd, fdValid kernel label.1 fdno = some fd →
      ∀ target, seekTarget kernel fd offset whence = some target → 0 ≤ target ∧ target < 2 ^ 63

/-- `read`, `write` and `lseek`, and the calls with an offset of their own, as opposed to those
that go on after a first transfer. -/
def OffsetCall.single : OffsetCall → Prop
  | .io (.readv _ _ _) => False
  | .io (.writev _ _ _) => False
  | _ => True

/-- A steady call by a thread that returns. -/
def OffsetStep (machine : Machine σ) : Kernel σ → ThreadId × OffsetCall → Kernel σ → Prop :=
  Restricted (fun kernel label next => ∃ ret, offsetCall machine kernel label = some (next, ret))
    (Steady machine)

/-! ## What a call does to the offsets -/

def NoneNegative (kernel : Kernel σ) : Prop := ∀ id, 0 ≤ (kernel.file id).off

section Calls

variable {kind : IoKind} {iov : Nat}

section

variable (holds : NoneNegative kernel)
include holds

theorem NoneNegative.setFile {change : File → File} (pos : 0 ≤ (change (kernel.file fd)).off) :
    NoneNegative (kernel.setFile fd change) := by
  intro id
  by_cases same : id = fd
  · subst same
    exact le_of_le_of_eq pos (congrArg File.off (Function.update_self id _ kernel.file).symm)
  · exact le_of_le_of_eq (holds id) (congrArg File.off (Function.update_of_ne same _ _).symm)

theorem vfsTransfer_noneNegative (moves : Moves machine kernel self kind fd buf size) :
    NoneNegative (vfsTransfer machine kernel self kind fd buf size).1 ∧
      0 ≤ (vfsTransfer machine kernel self kind fd buf size).2 := by
  unfold vfsTransfer
  cases isOp : fileOp (kernel.file fd).ops kind with
  | none => exact ⟨holds, Int.le_refl _⟩
  | some op =>
    rcases moves op isOp with ⟨forward, below⟩
    dsimp only
    generalize called : callOp machine kernel self kind op fd buf (kernel.file fd).off size = done
      at forward below
    have sameFiles : done.1.file = kernel.file := by
      rw [← called]
      rfl
    have kept : NoneNegative done.1 := by
      intro id
      rw [sameFiles]
      exact holds id
    constructor
    · apply kept.setFile
      have old := holds fd
      rw [sameFiles]
      show 0 ≤ wrapSigned ((kernel.file fd).off + done.2)
      rw [wrapSigned_of_range (by omega) below]
      omega
    · exact forward

theorem seekAppend_noneNegative (appendable : Appendable kernel fd) :
    NoneNegative (seekAppend kernel fd) := by
  unfold seekAppend
  split
  · rename_i isAppend
    have below := appendable isAppend
    apply holds.setFile
    show 0 ≤ wrapSigned ((kernel.inode (kernel.file fd).inode).size : Int)
    rw [wrapSigned_of_range (by omega) (by omega)]
    omega
  · exact holds

end

theorem vecLoop_noneNegative {count i : Nat} {bytes : Int} (holds : NoneNegative kernel)
    (moves : LoopMoves machine self kind fd iov count i kernel) :
    NoneNegative (vecLoop machine self kind fd iov count i bytes kernel).kernel := by
  induction count generalizing i bytes kernel with
  | zero => exact holds
  | succ count ih =>
    rw [vecLoop]
    split
    · exact holds
    · rename_i valid
      split
      · exact holds
      · rename_i base len loaded
        split
        · exact holds
        · rename_i based
          rcases moves (not_not.mp valid) base len loaded (not_and_not_right.mp based) with
            ⟨here, later⟩
          have next := (vfsTransfer_noneNegative holds here).1
          dsimp only
          split
          · exact next
          · exact ih next later

theorem vfsTransferAt_off (off : Int) (id : FileId) :
    ((vfsTransferAt machine kernel self kind fd buf size off).1.file id).off =
      (kernel.file id).off := by
  unfold vfsTransferAt
  split <;> rfl

variable (isFd : fdValid kernel self fdno = some fd)
include isFd

theorem sysLseek_target {target : Int} (isTarget : seekTarget kernel fd offset whence = some target)
    (low : 0 ≤ target) (high : target < 2 ^ 63) :
    sysLseek kernel self fdno offset whence = (kernel.setFile fd (withOff target), target) := by
  have wrapped : wrapSigned target = target := wrapSigned_of_range (by omega) high
  unfold seekTarget at isTarget
  unfold sysLseek
  rw [isFd]
  dsimp only at isTarget ⊢
  by_cases set : whence = 0
  · rw [if_pos set] at isTarget ⊢
    split_ifs at isTarget ⊢ with append
    · rw [some.inj isTarget, wrapped]
    · rw [some.inj isTarget]
  · rw [if_neg set] at isTarget ⊢
    by_cases fromEnd : whence = 2
    · rw [if_pos fromEnd] at isTarget ⊢
      rw [some.inj isTarget, wrapped]
    · rw [if_neg fromEnd] at isTarget ⊢
      by_cases fromHere : whence = 1
      · rw [if_pos fromHere] at isTarget ⊢
        rw [some.inj isTarget, wrapped]
      · rw [if_neg fromHere] at isTarget
        cases isTarget

theorem sysLseek_invalid (noTarget : seekTarget kernel fd offset whence = none) :
    sysLseek kernel self fdno offset whence = (kernel, -einval) := by
  unfold seekTarget at noTarget
  unfold sysLseek
  rw [isFd]
  dsimp only at noTarget ⊢
  split at noTarget
  · cases noTarget
  · split at noTarget
    · cases noTarget
    · split at noTarget
      · cases noTarget
      · rename_i set fromEnd fromHere
        rw [if_neg set, if_neg fromEnd, if_neg fromHere]

end Calls

/-! ## Steps and runs -/

/-- What a steady call leaves: no negative offset, and every offset where it was if it is a
single transfer or `lseek` and fails. -/
structure KeepsOffsets (call : OffsetCall) (before after : Kernel σ) (ret : Int) : Prop where
  noneNegative : NoneNegative after
  unmoved : call.single → ret < 0 → ∀ id, (after.file id).off = (before.file id).off

section Steps

variable {next : Kernel σ} {ret : Int} {call : OffsetCall} {outcome : Outcome σ}

theorem KeepsOffsets.same (holds : NoneNegative kernel) : KeepsOffsets call kernel kernel ret :=
  ⟨holds, fun _ _ _ => rfl⟩

theorem KeepsOffsets.forward (holds : NoneNegative next) (forward : 0 ≤ ret) :
    KeepsOffsets call kernel next ret :=
  ⟨holds, fun _ failed => absurd failed (Int.not_lt.mpr forward)⟩

theorem KeepsOffsets.transferAt {kind : IoKind} {off : Int} (holds : NoneNegative kernel) :
    KeepsOffsets call kernel (vfsTransferAt machine kernel self kind fd buf size off).1 ret := by
  refine ⟨fun id => ?_, fun _ _ id => vfsTransferAt_off off id⟩
  exact le_of_le_of_eq (holds id) (vfsTransferAt_off off id).symm

/-- How a call ends, as far as the offsets go. -/
def EndsKept (call : OffsetCall) (before : Kernel σ) : Outcome σ → Prop
  | .ret after ret => KeepsOffsets call before after ret
  | .fault _ => True

theorem EndsKept.returned (kept : EndsKept call kernel outcome)
    (ran : outcome.returned = some (next, ret)) : KeepsOffsets call kernel next ret := by
  cases outcome with
  | ret after _ =>
    cases ran
    exact kept
  | fault after => cases ran

theorem EndsKept.loop (loops : ¬ call.single) (holds : NoneNegative outcome.kernel) :
    EndsKept call kernel outcome := by
  cases outcome with
  | ret after _ => exact ⟨holds, fun single => absurd single loops⟩
  | fault after => trivial

theorem steady_ends {call : IoCall} (holds : NoneNegative kernel)
    (steady : Steady machine kernel (self, .io call)) :
    EndsKept (.io call) kernel (ioCall machine kernel self call) := by
  rcases ioCall_cases machine kernel self call with ⟨⟨_, ran⟩, _⟩ | ⟨fd, isFd, checked, ran⟩
  · rw [ran]
    exact .same holds
  · rw [ran]
    cases call with
    | read fdno buf size =>
      have moved := vfsTransfer_noneNegative holds (steady fd isFd checked)
      exact .forward moved.1 moved.2
    | write fdno buf size =>
      rcases steady fd isFd checked with ⟨appendable, moves⟩
      have start := seekAppend_noneNegative holds appendable
      have moved := vfsTransfer_noneNegative start moves
      exact .forward moved.1 moved.2
    | pread fdno buf size off => exact .transferAt holds
    | pwrite fdno buf size off => exact .transferAt holds
    | readv | writev => exact .loop id (vecLoop_noneNegative holds (steady fd isFd checked.1))

theorem steady_keeps {label : ThreadId × OffsetCall} (holds : NoneNegative kernel)
    (steady : Steady machine kernel label)
    (called : offsetCall machine kernel label = some (next, ret)) :
    KeepsOffsets label.2 kernel next ret := by
  rcases label with ⟨self, call⟩
  cases call with
  | lseek fdno offset whence =>
    have result := some.inj called
    cases isFd : fdValid kernel self fdno with
    | none =>
      rw [sysLseek, isFd] at result
      cases result
      exact .same holds
    | some fd =>
      cases isTarget : seekTarget kernel fd offset whence with
      | none =>
        rw [sysLseek_invalid isFd isTarget] at result
        cases result
        exact .same holds
      | some target =>
        rcases steady fd isFd target isTarget with ⟨low, high⟩
        rw [sysLseek_target isFd isTarget low high] at result
        cases result
        exact .forward (holds.setFile low) low
  | io call => exact (steady_ends holds steady).returned called

end Steps

/-- In every run of steady calls no offset is negative, and a steady `read`, `write` or `lseek` that
fails leaves every offset where it was. -/
theorem offsets_kept {machine : Machine σ} {start final : Kernel σ}
    {labels : List (ThreadId × OffsetCall)} (first : ∀ id, 0 ≤ (start.file id).off)
    (run : Run (OffsetStep machine) start labels final) :
    (∀ id, 0 ≤ (final.file id).off) ∧ ∀ label next ret, Steady machine final label →
      offsetCall machine final label = some (next, ret) → label.2.single → ret < 0 →
        ∀ id, (next.file id).off = (final.file id).off := by
  have holds : NoneNegative final := by
    apply run.invariant _ first
    rintro _ label next known ⟨⟨ret, called⟩, steady⟩
    exact (steady_keeps known steady called).noneNegative
  constructor
  · exact holds
  · intro label next ret steady called single failed
    exact (steady_keeps holds steady called).unmoved single failed

/-- Four bytes are read, and then a descriptor that is not open. -/
theorem offsets_kept_read :
    ∃ final, Run (OffsetStep (oneFile 0)) oneReader [(0, .io (.read 3 0x1000 4))] final ∧
      (final.file 0).off = 4 ∧ ∀ next ret,
        offsetCall (oneFile 0) final (0, .io (.read 5 0x1000 4)) = some (next, ret) → ret < 0 →
          ∀ id, (next.file id).off = (final.file id).off := by
  have read : ((offsetCall (oneFile 0) oneReader (0, .io (.read 3 0x1000 4))).map fun result =>
      ((result.1.file 0).off, fdValid result.1 0 5)) = some (4, none) := by
    decide +kernel
  rcases map_eq_some_iff.mp read with ⟨⟨final, ret⟩, called, observed⟩
  rcases Prod.mk.inj observed with ⟨off, closed⟩
  have steady : Steady (oneFile 0) oneReader (0, .io (.read 3 0x1000 4)) := by
    intro fd _ _ op _
    have moved : (callOp (oneFile 0) oneReader 0 .read op fd 0x1000 (oneReader.file fd).off 4).2 =
        4 := rfl
    have off : (oneReader.file fd).off = 0 := rfl
    rw [moved, off]
    decide
  have run : Run (OffsetStep (oneFile 0)) oneReader [(0, .io (.read 3 0x1000 4))] final :=
    .cons ⟨⟨ret, called⟩, steady⟩ (.nil final)
  refine ⟨final, run, off, fun next ret called failed => ?_⟩
  have steadyNext : Steady (oneFile 0) final (0, .io (.read 5 0x1000 4)) := by
    intro fd isFd
    rw [closed] at isFd
    cases isFd
  exact (offsets_kept (fun _ => Int.le_refl 0) run).2 _ next ret steadyNext called trivial failed

/-- A machine whose reads fail. -/
def badDisk : Machine Unit :=
  { oneFile 0 with read := fun _ _ _ inode _ _ _ _ => ((), inode, -5) }

/-- A read that fails, and `lseek` to a negative offset, return an error and leave the offset
negative. -/
theorem failed_calls_move_offset :
    (∀ id, 0 ≤ (oneReader.file id).off) ∧
      ((offsetCall badDisk oneReader (0, .io (.read 3 0x1000 4))).map fun result =>
        (result.2, (result.1.file 0).off)) = some (-5, -5) ∧
      ((offsetCall badDisk oneReader (0, .lseek 3 (-1) 0)).map fun result =>
        (result.2, (result.1.file 0).off)) = some (-1, -1) :=
  ⟨fun _ => Int.le_refl 0, by decide +kernel, by decide +kernel⟩

end Micro.Fs
