import Micro.Fs.Open
import Micro.Mm.Memory

/-!
# Reading and writing through descriptors

The six transfer system calls and the two that copy descriptors.  A transfer
hands a range of the user's address space to a file operation; `callOp` is the
only place where that happens, and it records the call.
-/

namespace Micro.Fs

open Kern Mm Lib

variable {σ : Type}

/-- The function pointer a transfer goes through. -/
def fileOp (ops : FileOps) : IoKind → Option FnPtr
  | .read => ops.read
  | .write => ops.write

section

variable (machine : Machine σ)

/-- The machine's behaviour behind that pointer. -/
def runOp : IoKind → FnPtr → σ → VmMap → Inode → File → Nat → Int →
    Nat → σ × Inode × Int
  | .read => machine.read
  | .write => machine.write

/-- `file->ops.read(file, buf, off, size)`, or `write` -/
def callOp (kernel : Kernel σ) (self : ThreadId) (kind : IoKind) (op : FnPtr) (id : FileId)
    (buf : Nat) (off : Int) (size : Nat) : Kernel σ × Int :=
  let file := kernel.file id
  let done := runOp machine kind op kernel.dev (current kernel self).vmMap
    (kernel.inode file.inode) file buf off size
  let transfer : Transfer :=
    { task := currentId kernel self, kind, file := id, origin := kernel.opened id,
      buf, size, moved := done.2.2 }
  (({ kernel with dev := done.1, transfers := kernel.transfers ++ [transfer] }).setInode
    file.inode done.2.1, done.2.2)

/-- `vfs_read` and `vfs_write`: transfer at the file's offset and advance it. -/
def vfsTransfer (kernel : Kernel σ) (self : ThreadId) (kind : IoKind) (id : FileId) (buf size : Nat) :
    Kernel σ × Int :=
  match fileOp (kernel.file id).ops kind with
  | some op =>
      let done := callOp machine kernel self kind op id buf (kernel.file id).off size
      (done.1.setFile id fun file => { file with off := wrapSigned (file.off + done.2) }, done.2)
  | none => (kernel, 0)

def vfsRead (kernel : Kernel σ) (self : ThreadId) (id : FileId) (buf size : Nat) : Kernel σ × Int :=
  vfsTransfer machine kernel self .read id buf size

def vfsWrite (kernel : Kernel σ) (self : ThreadId) (id : FileId) (buf size : Nat) :
    Kernel σ × Int :=
  vfsTransfer machine kernel self .write id buf size

/-- `vfs_pread` and `vfs_pwrite`: transfer at a given offset. -/
def vfsTransferAt (kernel : Kernel σ) (self : ThreadId) (kind : IoKind) (id : FileId)
    (buf size : Nat) (off : Int) : Kernel σ × Int :=
  match fileOp (kernel.file id).ops kind with
  | some op => callOp machine kernel self kind op id buf off size
  | none => (kernel, 0)

def vfsPread (kernel : Kernel σ) (self : ThreadId) (id : FileId) (buf size : Nat) (off : Int) :
    Kernel σ × Int :=
  vfsTransferAt machine kernel self .read id buf size off

def vfsPwrite (kernel : Kernel σ) (self : ThreadId) (id : FileId) (buf size : Nat) (off : Int) :
    Kernel σ × Int :=
  vfsTransferAt machine kernel self .write id buf size off

end

/-- How a system call ends: with a value for the caller, or in a kernel fault. -/
inductive Outcome (σ : Type) where
  | ret (kernel : Kernel σ) (value : Int)
  | fault (kernel : Kernel σ)

namespace Outcome

/-- A result as the value of a call that came back. -/
def of (result : Kernel σ × Int) : Outcome σ := .ret result.1 result.2

/-- The kernel at the end of the call. -/
def kernel : Outcome σ → Kernel σ
  | .ret kernel _ => kernel
  | .fault kernel => kernel

/-- The kernel after a call that came back. -/
def returned : Outcome σ → Option (Kernel σ × Int)
  | .ret kernel value => some (kernel, value)
  | .fault _ => none

end Outcome

/-- `FDVALID(fd)`: the open file in the slot, if the descriptor is valid. -/
def fdValid (kernel : Kernel σ) (self : ThreadId) (fd : Int) : Option FileId :=
  if 0 ≤ fd ∧ fd < 256 then (current kernel self).fds fd.toNat else none

def sysRead (machine : Machine σ) (kernel : Kernel σ) (self : ThreadId) (fdno : Int)
    (buf size : Nat) : Outcome σ :=
  match fdValid kernel self fdno with
  | none => .ret kernel (-ebadf)
  | some fd =>
      if ¬ ptrValid kernel self buf then .ret kernel (-efault)
      else .of (vfsRead machine kernel self fd buf size)

/-- `fd->off = fd->inode->size` for a descriptor in append mode -/
def seekAppend (kernel : Kernel σ) (fd : FileId) : Kernel σ :=
  if (kernel.file fd).flags &&& 0o2000 ≠ 0 then
    kernel.setFile fd fun file => { file with off := wrapSigned (kernel.inode file.inode).size }
  else kernel

section

variable (machine : Machine σ) (kernel : Kernel σ) (self : ThreadId)

def sysWrite (fdno : Int) (buf size : Nat) : Outcome σ :=
  match fdValid kernel self fdno with
  | none => .ret kernel (-ebadf)
  | some fd =>
      if ¬ ptrValid kernel self buf then .ret kernel (-efault)
      else .of (vfsWrite machine (seekAppend kernel fd) self fd buf size)

def sysPread (fdno : Int) (buf size : Nat) (off : Int) : Outcome σ :=
  match fdValid kernel self fdno with
  | none => .ret kernel (-ebadf)
  | some fd =>
      if ¬ ptrValid kernel self buf then .ret kernel (-efault)
      else .of (vfsPread machine kernel self fd buf size off)

/-- `sys_pwrite`, which validates the pointer before the descriptor -/
def sysPwrite (fdno : Int) (buf size : Nat) (off : Int) : Outcome σ :=
  if ¬ ptrValid kernel self buf then .ret kernel (-efault)
  else
    match fdValid kernel self fdno with
    | none => .ret kernel (-ebadf)
    | some fd => .of (vfsPwrite machine kernel self fd buf size off)

/-- `iov[i]`: the base and length of one entry of the user's array. -/
def loadIovec (iov i : Nat) :
    Option (Nat × Nat) := do
  let map := (current kernel self).vmMap
  let base ← loadWord machine kernel.dev map (addWord iov (16 * i)) 8
  let len ← loadWord machine kernel.dev map (addWord iov (16 * i + 8)) 8
  pure (base, len)

end

/-- The loop of `sys_readv` and `sys_writev` from entry `i`, with the bytes moved so far; only
`sys_writev` also validates the base of each entry. -/
def vecLoop (machine : Machine σ) (self : ThreadId) (kind : IoKind) (file : FileId) (iov : Nat) :
    Nat → Nat → Int → Kernel σ → Outcome σ
  | 0, _, bytes, kernel => .ret kernel bytes
  | count + 1, i, bytes, kernel =>
      if ¬ ptrValid kernel self (addWord iov (16 * i)) then .ret kernel (-efault)
      else
        match loadIovec machine kernel self iov i with
        | none => .fault kernel
        | some (base, len) =>
            if kind = .write ∧ ¬ ptrValid kernel self base then .ret kernel (-efault)
            else
              let done := vfsTransfer machine kernel self kind file base len
              if done.2 < 0 then .ret done.1 done.2
              else vecLoop machine self kind file iov count (i + 1) (bytes + done.2) done.1

/-- `sys_readv` or `sys_writev` -/
def sysVec (kind : IoKind) (machine : Machine σ) (kernel : Kernel σ) (self : ThreadId) (fd : Int)
    (iov : Nat) (iovcnt : Int) : Outcome σ :=
  match fdValid kernel self fd with
  | none => .ret kernel (-ebadf)
  | some file =>
      if ¬ ptrValid kernel self iov then .ret kernel (-efault)
      else if iovcnt < 0 then .ret kernel (-einval)
      else vecLoop machine self kind file iov iovcnt.toNat 0 0 kernel

def sysReadv (machine : Machine σ) := sysVec .read machine

def sysWritev (machine : Machine σ) := sysVec .write machine

/-- The six calls that transfer bytes through a descriptor. -/
inductive IoCall where
  | read (fd : Int) (buf size : Nat)
  | pread (fd : Int) (buf size : Nat) (off : Int)
  | readv (fd : Int) (iov : Nat) (iovcnt : Int)
  | write (fd : Int) (buf size : Nat)
  | pwrite (fd : Int) (buf size : Nat) (off : Int)
  | writev (fd : Int) (iov : Nat) (iovcnt : Int)

/-- Run a transfer call on behalf of a thread. -/
def ioCall (machine : Machine σ) (kernel : Kernel σ) (self : ThreadId) : IoCall → Outcome σ
  | .read fd buf size => sysRead machine kernel self fd buf size
  | .pread fd buf size off => sysPread machine kernel self fd buf size off
  | .readv fd iov iovcnt => sysReadv machine kernel self fd iov iovcnt
  | .write fd buf size => sysWrite machine kernel self fd buf size
  | .pwrite fd buf size off => sysPwrite machine kernel self fd buf size off
  | .writev fd iov iovcnt => sysWritev machine kernel self fd iov iovcnt

/-- `sys_dup`: the lowest free slot shares the open file. -/
def sysDup (kernel : Kernel σ) (self : ThreadId) (oldfd : Int) : Kernel σ × Int :=
  match fdValid kernel self oldfd with
  | none => (kernel, -ebadf)
  | some file =>
      match (List.range 256).find? fun i => (current kernel self).fds i = none with
      | some slot => (setFd kernel (currentId kernel self) slot (some file), slot)
      | none => (kernel, -emfile)

def sysDup2 (kernel : Kernel σ) (self : ThreadId) (oldfd newfd : Int) : Kernel σ × Int :=
  match fdValid kernel self oldfd with
  | none => (kernel, -ebadf)
  | some file =>
      if 0 ≤ newfd ∧ newfd < 256 then
        (setFd kernel (currentId kernel self) newfd.toNat (some file), newfd)
      else (kernel, -ebadf)

/-- The direction of a transfer call. -/
def IoCall.kind : IoCall → IoKind
  | .read _ _ _ | .pread _ _ _ _ | .readv _ _ _ => .read
  | .write _ _ _ | .pwrite _ _ _ _ | .writev _ _ _ => .write

/-- The descriptor of a transfer call. -/
def IoCall.fd : IoCall → Int
  | .read fd _ _ | .pread fd _ _ _ | .readv fd _ _ => fd
  | .write fd _ _ | .pwrite fd _ _ _ | .writev fd _ _ => fd

/-- The checks of a call, besides that of its descriptor. -/
def IoCall.Checked (kernel : Kernel σ) (self : ThreadId) : IoCall → Prop
  | .read _ buf _ | .pread _ buf _ _ | .write _ buf _ | .pwrite _ buf _ _ =>
      ptrValid kernel self buf
  | .readv _ iov iovcnt | .writev _ iov iovcnt => ptrValid kernel self iov ∧ 0 ≤ iovcnt

/-- What a call does with the file behind its descriptor. -/
def ioRun (machine : Machine σ) (kernel : Kernel σ) (self : ThreadId) (id : FileId) :
    IoCall → Outcome σ
  | .read _ buf size => .of (vfsRead machine kernel self id buf size)
  | .pread _ buf size off => .of (vfsPread machine kernel self id buf size off)
  | .readv _ iov iovcnt => vecLoop machine self .read id iov iovcnt.toNat 0 0 kernel
  | .write _ buf size => .of (vfsWrite machine (seekAppend kernel id) self id buf size)
  | .pwrite _ buf size off => .of (vfsPwrite machine kernel self id buf size off)
  | .writev _ iov iovcnt => vecLoop machine self .write id iov iovcnt.toNat 0 0 kernel

theorem ioCall_cases (machine : Machine σ) (kernel : Kernel σ) (self : ThreadId) (call : IoCall) :
    (∃ e, ioCall machine kernel self call = .ret kernel e) ∧
        (∀ id, fdValid kernel self call.fd = some id → ¬ call.Checked kernel self) ∨
      ∃ id, fdValid kernel self call.fd = some id ∧ call.Checked kernel self ∧
        ioCall machine kernel self call = ioRun machine kernel self id call := by
  cases call <;> simp only [ioCall, sysRead, sysPread, sysReadv, sysWrite, sysPwrite, sysWritev,
    sysVec, IoCall.fd, IoCall.Checked, ioRun] <;> repeat' split
  all_goals first
    | exact .inl ⟨⟨_, rfl⟩, by simp_all⟩
    | exact .inr ⟨_, ‹_›, by simp_all, rfl⟩

end Micro.Fs
