import Mathlib.Algebra.Order.Ring.Int

/-!
# Kernel objects

The structures the kernel allocates and links to one another: inodes and open
files, address spaces, threads and tasks.  Pointers are identifiers into the
tables of `Kernel` (see `Micro.Kern.State`), with `Option` where the source
tests for `NULL`; a function pointer is an identifier the machine interprets.

Locks are not represented: every operation of the model is one critical section.
-/

namespace Micro.Kern

abbrev InodeId := Nat
abbrev FileId := Nat
abbrev TaskId := Nat
abbrev ThreadId := Nat
abbrev CpuId := Nat

/-- A function pointer of a driver. -/
abbrev FnPtr := Nat

/-- The bytes of a C string before its terminator. -/
abbrev CStr := List UInt8

structure FileOps where
  openFn : Option FnPtr := none
  release : Option FnPtr := none
  read : Option FnPtr := none
  write : Option FnPtr := none
  ioctl : Option FnPtr := none
  mmap : Option FnPtr := none
  chmod : Option FnPtr := none
  chown : Option FnPtr := none
  deriving DecidableEq, Repr

structure InodeOps where
  lookup : Option FnPtr := none
  mknod : Option FnPtr := none
  mkdir : Option FnPtr := none
  getdents : Option FnPtr := none
  unlink : Option FnPtr := none
  readlink : Option FnPtr := none
  symlink : Option FnPtr := none
  link : Option FnPtr := none
  setAtime : Option FnPtr := none
  setMtime : Option FnPtr := none
  deriving DecidableEq, Repr

structure Inode where
  mode : Nat := 0
  size : Nat := 0
  rdev : Nat := 0
  nlink : Nat := 0
  atime : Int := 0
  mtime : Int := 0
  ctime : Int := 0
  uid : Nat := 0
  gid : Nat := 0
  blksize : Int := 0
  blocks : Int := 0
  inode : Nat := 0
  priv : Nat := 0
  ops : InodeOps := {}
  fops : FileOps := {}
  deriving DecidableEq, Repr

/-- `struct file`, the object a descriptor points to. -/
structure File where
  inode : InodeId := 0
  off : Int := 0
  flags : Nat := 0
  ops : FileOps := {}
  deriving DecidableEq, Repr

structure Mount where
  path : CStr
  file : Inode
  deriving DecidableEq, Repr

/-- `struct list` seen through its nodes in order, with the `size` field kept
apart: `list_remove` and `list_insert_before` relink nodes without counting. -/
structure KList (α : Type) where
  items : List α
  size : Nat
  deriving DecidableEq, Repr

namespace KList

variable {α : Type}

def create : KList α := ⟨[], 0⟩

section

variable (list : KList α)

def enqueue (data : α) : KList α :=
  ⟨list.items ++ [data], list.size + 1⟩

/-- `list_pop_back`; a list without a tail stays as it is. -/
def popBack : KList α :=
  if list.items.isEmpty then list else ⟨list.items.dropLast, list.size - 1⟩

/-- `list_clear`: dequeue until `size` is zero.  Dequeuing an empty list does
not change `size`, so the loop does not end when `size` exceeds the number of
nodes. -/
def clear : Option (KList α) :=
  if list.size ≤ list.items.length then
    some ⟨list.items.drop list.size, 0⟩
  else
    none

def remove (index : Nat) : KList α :=
  ⟨list.items.eraseIdx index, list.size⟩

/-- `list_insert_before` at the index of an existing node -/
def insertBefore (index : Nat) (data : α) : KList α :=
  ⟨list.items.insertIdx index data, list.size⟩

end

theorem insertIdx_append (left right : List α) (data : α) :
    (left ++ right).insertIdx left.length data = left ++ data :: right := by
  induction left with
  | nil => rfl
  | cons _ left ih => simp [ih]

@[simp] theorem enqueue_items (list : KList α) (data : α) :
    (list.enqueue data).items = list.items ++ [data] := rfl

end KList

/-- `struct vm_object` with the two structures that extend it.  The page array
of a fresh object is not initialised by the source and reads as zero here. -/
inductive VmObject where
  | anon (flags : Nat) (pages : Nat → Nat)
  | inode (inode : InodeId) (flags : Nat) (pages : Nat → Nat)

inductive VmObjectType where
  | vmoAnon
  | vmoInode
  deriving DecidableEq, Repr

def VmObject.type : VmObject → VmObjectType
  | .anon _ _ => .vmoAnon
  | .inode _ _ _ => .vmoInode

/-- `struct vm_area`; `obj` is `NULL` until a mapping sets it. -/
structure VmArea where
  base : Nat
  end_ : Nat
  obj : Option VmObject

/-- `struct vm_map`: the user half of an address space.  `pds` holds the page
directory entries and `pts` the page tables that back them. -/
structure VmMap where
  pml4Phys : Nat
  pdptPhys : Nat
  physPds : Nat → Nat
  pds : Nat → Nat → Nat
  pts : Nat → Nat → Option (Nat → Nat)
  vmAreas : KList VmArea

structure Regs where
  r15 : Nat := 0
  r14 : Nat := 0
  r13 : Nat := 0
  r12 : Nat := 0
  r11 : Nat := 0
  r10 : Nat := 0
  r9 : Nat := 0
  r8 : Nat := 0
  rbp : Nat := 0
  rdi : Nat := 0
  rsi : Nat := 0
  rdx : Nat := 0
  rcx : Nat := 0
  rbx : Nat := 0
  rax : Nat := 0
  rip : Nat := 0
  cs : Nat := 0
  rflags : Nat := 0
  rsp : Nat := 0
  ss : Nat := 0
  deriving DecidableEq, Repr

/-- `struct sigaction`; handlers are addresses. -/
structure Sigaction where
  saHandler : Nat := 0
  saSigaction : Nat := 0
  saMask : Nat := 0
  saFlags : Int := 0
  saRestorer : Nat := 0
  deriving DecidableEq, Repr

inductive ThreadState where
  | running
  | ready
  | dead
  | waiting
  | blocked
  deriving DecidableEq, Repr

inductive TaskState where
  | running
  | stopped
  | dead
  deriving DecidableEq, Repr

/-- `struct thread`.  The signal queue holds signal numbers; it is only ever
enqueued and dequeued, so its `size` is its length. -/
structure Thread where
  state : ThreadState
  regs : Regs
  parent : TaskId
  kstack : Nat
  syscallRegs : Regs
  sigqueue : List Nat
  sigmask : Nat
  sigstack : Nat

/-- `struct task`.  `groups` are the first `groupcnt` entries of the C array. -/
structure Task where
  pid : Int
  pgid : Int
  sid : Int
  threads : List ThreadId
  children : KList TaskId
  parent : Option TaskId
  fds : Nat → Option FileId
  main : Option ThreadId
  vmMap : VmMap
  workd : CStr
  signals : Nat → Sigaction
  status : Int
  state : TaskState
  wasStop : Bool
  waiting : Int
  ruid : Nat
  euid : Nat
  rgid : Nat
  egid : Nat
  groups : List Nat
  tracer : Option TaskId
  umask : Nat
  brk : Nat

/-- The scheduling part of `struct cpu_info`. -/
structure Cpu where
  current : Option ThreadId
  idle : ThreadId
  deriving DecidableEq, Repr

end Micro.Kern
