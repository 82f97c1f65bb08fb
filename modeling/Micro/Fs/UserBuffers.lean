import Micro.Fs.OpenMode

/-!
# Validation of user buffers

`PTRVALID` translates a single address.  This module compares what that
establishes with what the transfer calls go on to use: the whole range they hand
to a file operation.
-/

namespace Micro.Fs

open Kern Mm Lib Proc List

variable {σ : Type} {map : VmMap}

/-- Every byte of a range lies in a page of the user half that is present. -/
def Mapped (map : VmMap) (buf size : Nat) : Prop :=
  ∀ i < size, mmuVirt2phys map (addWord buf i) ≠ 0

/-- The pages of a range other than the one it starts in are present. -/
def LaterPagesMapped (map : VmMap) (buf size : Nat) : Prop :=
  ∀ i < size, addWord buf i / 0x1000 ≠ buf / 0x1000 → mmuVirt2phys map (addWord buf i) ≠ 0

theorem mmuVirt2phys_page {a b : Nat} (page : a / 0x1000 = b / 0x1000) :
    mmuVirt2phys map a = mmuVirt2phys map b := by
  have pml4 : pml4Idx a = pml4Idx b := by
    unfold pml4Idx
    omega
  have pdpt : pdptIdx a = pdptIdx b := by
    unfold pdptIdx
    omega
  have pd : pdIdx a = pdIdx b := by
    unfold pdIdx
    omega
  have pt : ptIdx a = ptIdx b := by
    unfold ptIdx
    omega
  simp only [mmuVirt2phys, pml4, pdpt, pd, pt]

variable {kernel : Kernel σ} {self : ThreadId}

theorem mapped_iff_laterPages {buf size : Nat} (valid : ptrValid kernel self buf) :
    Mapped (current kernel self).vmMap buf size ↔
      LaterPagesMapped (current kernel self).vmMap buf size := by
  have first : mmuVirt2phys (current kernel self).vmMap buf ≠ 0 := by
    simpa [ptrValid] using valid
  constructor
  · exact fun mapped i inRange _ => mapped i inRange
  · intro later i inRange
    by_cases page : addWord buf i / 0x1000 = buf / 0x1000
    · rw [mmuVirt2phys_page page]
      exact first
    · exact later i inRange page

/-! ## The ranges a call hands over -/

/-- The ranges handed to file operations between two states are mapped exactly
under a condition. -/
def HandsMapped (map : VmMap) (before after : Kernel σ) (condition : Prop) : Prop :=
  ∃ new, after.transfers = before.transfers ++ new ∧
    ((∀ transfer ∈ new, Mapped map transfer.buf transfer.size) ↔ condition)

namespace HandsMapped

variable {map : VmMap} {before middle after : Kernel σ} {first second condition : Prop}

theorem none (same : after.transfers = before.transfers) (holds : condition) :
    HandsMapped map before after condition :=
  ⟨[], by simp [same], by simp [holds]⟩

theorem one {transfer : Transfer} (made : after.transfers = before.transfers ++ [transfer]) :
    HandsMapped map before after (Mapped map transfer.buf transfer.size) :=
  ⟨[transfer], made, by simp⟩

theorem trans (hands : HandsMapped map before middle first)
    (rest : HandsMapped map middle after second) :
    HandsMapped map before after (first ∧ second) := by
  rcases hands with ⟨new, made, mapped⟩
  rcases rest with ⟨later, laterMade, laterMapped⟩
  refine ⟨new ++ later, by rw [laterMade, made, append_assoc], ?_⟩
  rw [← mapped, ← laterMapped, forall_mem_append]

theorem congr (hands : HandsMapped map before after first) (same : first ↔ second) :
    HandsMapped map before after second := by
  rcases hands with ⟨new, made, mapped⟩
  exact ⟨new, made, mapped.trans same⟩

theorem guarded {refused : Prop} [Decidable refused] {errno : Int} {body : Outcome σ}
    (holds : refused → condition)
    (passed : ¬ refused → HandsMapped map kernel body.kernel condition) :
    HandsMapped map kernel (if refused then .ret kernel errno else body).kernel condition := by
  split
  · exact none rfl (holds ‹_›)
  · exact passed ‹_›

end HandsMapped

/-- A file that has the operation, so that a transfer reaches it. -/
def hasOp (kernel : Kernel σ) (id : FileId) (kind : IoKind) : Bool :=
  (fileOp (kernel.file id).ops kind).isSome

section

variable (machine : Machine σ) (kernel : Kernel σ) (self : ThreadId) (kind : IoKind) (id : FileId)
  (buf size : Nat)

theorem vfsTransfer_hands (map : VmMap) :
    HandsMapped map kernel (vfsTransfer machine kernel self kind id buf size).1
      (hasOp kernel id kind → Mapped map buf size) := by
  unfold vfsTransfer hasOp
  cases op : fileOp (kernel.file id).ops kind with
  | none => exact HandsMapped.none rfl (by simp)
  | some op => exact (HandsMapped.one rfl).congr (by simp)

theorem vfsTransferAt_hands (off : Int) (map : VmMap) :
    HandsMapped map kernel (vfsTransferAt machine kernel self kind id buf size off).1
      (hasOp kernel id kind → Mapped map buf size) := by
  unfold vfsTransferAt hasOp
  cases op : fileOp (kernel.file id).ops kind with
  | none => exact HandsMapped.none rfl (by simp)
  | some op => exact (HandsMapped.one rfl).congr (by simp)

theorem vfsTransfer_current :
    current (vfsTransfer machine kernel self kind id buf size).1 self = current kernel self := by
  unfold vfsTransfer
  split <;> rfl

end

/-! ## Vectors -/

variable {file : FileId} {machine : Machine σ} {iov : Nat}

/-- What `sys_readv` and `sys_writev` leave to the user from entry `i` on: each entry they come to
names a mapped range.  The entries are read from user memory as the loop reaches them, and of the
range only `sys_writev` validates the base. -/
def VecMapped (machine : Machine σ) (self : ThreadId) (kind : IoKind) (file : FileId) (iov : Nat) :
    Nat → Nat → Kernel σ → Prop
  | 0, _, _ => True
  | count + 1, i, kernel =>
      ptrValid kernel self (addWord iov (16 * i)) →
      ∀ base len, loadIovec machine kernel self iov i = some (base, len) →
        (kind = .write → ptrValid kernel self base) →
        (hasOp kernel file kind → Mapped (current kernel self).vmMap base len) ∧
          (0 ≤ (vfsTransfer machine kernel self kind file base len).2 →
            VecMapped machine self kind file iov count (i + 1)
              (vfsTransfer machine kernel self kind file base len).1)

theorem vecLoop_hands (kind : IoKind) (count i : Nat) (bytes : Int) (kernel : Kernel σ) :
    HandsMapped (current kernel self).vmMap kernel
        (vecLoop machine self kind file iov count i bytes kernel).kernel
        (VecMapped machine self kind file iov count i kernel) := by
  induction count generalizing i bytes kernel with
  | zero => exact .none rfl trivial
  | succ count ih =>
    unfold vecLoop VecMapped
    apply HandsMapped.guarded (fun invalid valid => absurd valid invalid)
    intro valid
    rw [not_not] at valid
    cases loaded : loadIovec machine kernel self iov i with
    | none => exact .none rfl (by simp)
    | some entry =>
      rcases entry with ⟨base, len⟩
      apply HandsMapped.guarded (by simp +contextual)
      intro based
      rw [not_and_not_right] at based
      have hands := vfsTransfer_hands machine kernel self kind file base len (current kernel
        self).vmMap
      have same := vfsTransfer_current machine kernel self kind file base len
      dsimp only
      split_ifs with failed
      · exact hands.congr (by simp [valid, eq_true based, Int.not_le.mpr failed])
      · have rest := ih (i + 1) (bytes + (vfsTransfer machine kernel self kind file base len).2)
          (vfsTransfer machine kernel self kind file base len).1
        rw [same] at rest
        exact (hands.trans rest).congr (by simp [valid, eq_true based, Int.not_lt.mp failed])

/-! ## The six calls -/

variable {condition : Prop}

/-- Every range a call hands to a file operation is mapped in the caller's
address space, whether the call returns or faults later. -/
def BuffersMapped (machine : Machine σ) (kernel : Kernel σ) (self : ThreadId)
    (call : IoCall) : Prop :=
  ∀ transfer ∈ (ioCall machine kernel self call).kernel.transfers.drop
      kernel.transfers.length,
    Mapped (current kernel self).vmMap transfer.buf transfer.size

/-- What the checks of the call leave open.  A call refused by the checks, or on a
file without the operation, hands nothing over; otherwise a single buffer must
not run into an unmapped page after its first, and the entries of a vector must
be mapped as far as the call does not check them. -/
def UncheckedPagesMapped (machine : Machine σ) (kernel : Kernel σ) (self : ThreadId) :
    IoCall → Prop
  | .read fd buf size | .pread fd buf size _ =>
      ∀ id, fdValid kernel self fd = some id → hasOp kernel id .read →
        ptrValid kernel self buf → LaterPagesMapped (current kernel self).vmMap buf size
  | .write fd buf size | .pwrite fd buf size _ =>
      ∀ id, fdValid kernel self fd = some id → hasOp kernel id .write →
        ptrValid kernel self buf → LaterPagesMapped (current kernel self).vmMap buf size
  | .readv fd iov iovcnt =>
      ∀ id, fdValid kernel self fd = some id → ptrValid kernel self iov → 0 ≤ iovcnt →
        VecMapped machine self .read id iov iovcnt.toNat 0 kernel
  | .writev fd iov iovcnt =>
      ∀ id, fdValid kernel self fd = some id → ptrValid kernel self iov → 0 ≤ iovcnt →
        VecMapped machine self .write id iov iovcnt.toNat 0 kernel

theorem HandsMapped.buffers {call : IoCall} (hands : HandsMapped (current kernel self).vmMap kernel
      (ioCall machine kernel self call).kernel condition) :
    BuffersMapped machine kernel self call ↔ condition := by
  rcases hands with ⟨_, made, mapped⟩
  unfold BuffersMapped
  rw [made, drop_left]
  exact mapped

theorem seekAppend_hands {after : Kernel σ} {id : FileId}
    (hands : HandsMapped map (seekAppend kernel id) after condition) :
    HandsMapped map kernel after condition := by
  unfold seekAppend at hands
  split at hands
  · exact hands
  · exact hands

theorem seekAppend_hasOp (kernel : Kernel σ) (id : FileId) (kind : IoKind) :
    hasOp (seekAppend kernel id) id kind = hasOp kernel id kind := by
  unfold seekAppend
  split
  · simp [hasOp, Kernel.setFile]
  · rfl

/-- The ranges handed to file operations are mapped exactly when the user mapped
the pages the call does not check. -/
theorem buffers_mapped_iff (machine : Machine σ) (kernel : Kernel σ) (self : ThreadId)
    (call : IoCall) :
    BuffersMapped machine kernel self call ↔ UncheckedPagesMapped machine kernel self call := by
  apply HandsMapped.buffers
  rcases ioCall_cases machine kernel self call with ⟨⟨_, ran⟩, refused⟩ | ⟨id, valid, checked, ran⟩
  · rw [ran]
    refine .none rfl ?_
    cases call with
    | read | pread | write | pwrite =>
      exact fun id valid _ checked => absurd checked (refused id valid)
    | readv | writev => exact fun id valid ptr count => absurd ⟨ptr, count⟩ (refused id valid)
  · rw [ran]
    have one : ∀ {kind buf size}, ptrValid kernel self buf → ((hasOp kernel id kind →
        Mapped (current kernel self).vmMap buf size) ↔ ∀ id, fdValid kernel self call.fd = some id →
          hasOp kernel id kind → ptrValid kernel self buf →
          LaterPagesMapped (current kernel self).vmMap buf size) := by
      intro kind buf size checked
      rw [mapped_iff_laterPages checked]
      simp [valid, checked]
    cases call with
    | read _ buf size =>
      exact (vfsTransfer_hands machine kernel self .read id buf size _).congr (one checked)
    | pread _ buf size off =>
      exact (vfsTransferAt_hands machine kernel self .read id buf size off _).congr (one checked)
    | readv fd iov iovcnt =>
      have isFd : fdValid kernel self fd = some id := valid
      exact (vecLoop_hands .read _ _ _ _).congr
        (by simp [UncheckedPagesMapped, isFd, checked.1, checked.2])
    | write _ buf size =>
      apply HandsMapped.congr (seekAppend_hands
        (vfsTransfer_hands machine (seekAppend kernel id) self .write id buf size _))
      rw [seekAppend_hasOp]
      exact one checked
    | pwrite _ buf size off =>
      exact (vfsTransferAt_hands machine kernel self .write id buf size off _).congr (one checked)
    | writev fd iov iovcnt =>
      have isFd : fdValid kernel self fd = some id := valid
      exact (vecLoop_hands .write _ _ _ _).congr
        (by simp [UncheckedPagesMapped, isFd, checked.1, checked.2])

/-- The kernel of `oneTask` with a readable file in descriptor 3. -/
def oneReader : Kernel Unit :=
  { oneTask with
    file := fun _ => { ops := { read := some 1 } }
    task := fun id =>
      { oneTask.task id with fds := fun slot => if slot = 3 then some 0 else none } }

/-- Two bytes at the end of the only mapped page: the second lies in a page that
is not present. -/
theorem read_across_page_end : ¬ BuffersMapped (oneFile 0o006) oneReader 0 (.read 3 0x1fff 2) := by
  intro mapped
  exact mapped _ (mem_singleton.mpr rfl) 1 (by decide) (by decide +kernel)

end Micro.Fs
