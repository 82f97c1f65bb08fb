import Micro.Fs.ReadWrite

/-!
# Reading directories

`sys_getdents` counts its calls in the offset of the descriptor, and each driver makes of that
offset what it likes.  What the calls on a fresh descriptor hand out is compared with the live
entries of the directory, for any driver here, and for the two that list devices.
-/

namespace Micro.Fs

open Kern List Option

variable {n times : Nat} {σ : Type} {kernel : Kernel σ}

/-- `struct dirent` as a driver fills it in; some leave `d_ino` as it is.  The other fields say
where in the buffer it is. -/
structure Dirent where
  dIno : Option Nat
  dType : Nat
  dName : CStr
  deriving DecidableEq, Repr

def direntSize : Nat := 280

/-- What a driver does: the structures it writes from the start of the buffer on, and what it
returns. -/
structure Reply where
  dirents : List Dirent
  ret : Int
  deriving DecidableEq, Repr

/-- The bytes of the buffer that are written. -/
def Reply.written (reply : Reply) : Nat := reply.dirents.length * direntSize

/-- The reply of a driver that returns the bytes it has written. -/
def bytesReply (dirents : List Dirent) : Reply := ⟨dirents, (dirents.length * direntSize : Nat)⟩

/-- A `getdents` operation for one directory, given the offset and the size of the buffer; `none`
where it accesses memory that is not its own. -/
abbrev Driver := Int → Nat → Option Reply

def vfsGetdents (driver : FnPtr → Inode → Driver) (dir : Inode) (off : Int) (n : Nat) :
    Option Reply :=
  match dir.ops.getdents with
  | some getdents =>
      if sIsdir dir.mode then driver getdents dir off n else some ⟨[], -enotdir⟩
  | none => some ⟨[], -enotdir⟩

def sysGetdents (driver : FnPtr → Inode → Driver) (kernel : Kernel σ) (self : ThreadId) (fdno : Int)
    (dirp n : Nat) : Option (Kernel σ × Reply) :=
  if ¬ ptrValid kernel self dirp then some (kernel, ⟨[], -efault⟩)
  else match fdValid kernel self fdno with
  | none => some (kernel, ⟨[], -ebadf⟩)
  | some fd =>
      let file := kernel.file fd
      let inode := kernel.inode file.inode
      if ¬ sIsdir inode.mode then some (kernel, ⟨[], -enotdir⟩)
      else (vfsGetdents driver inode file.off n).map fun reply =>
        (kernel.setFile fd fun file => { file with off := file.off + 1 }, reply)

/-- So many calls of `sys_getdents` with the same arguments. -/
def getdentsCalls (driver : FnPtr → Inode → Driver) (self : ThreadId) (fdno : Int) (dirp n : Nat) :
    (times : Nat) → Kernel σ → Option (List Reply)
  | 0, _ => some []
  | times + 1, kernel =>
      (sysGetdents driver kernel self fdno dirp n).bind fun done =>
        (getdentsCalls driver self fdno dirp n times done.1).map (done.2 :: ·)

/-- The descriptor is open on a directory, at an offset, and the buffer is mapped. -/
structure OpenDir (driver : FnPtr → Inode → Driver) (thread : ThreadId) (fdno : Int) (dirp : Nat)
    (dir : Driver) (off : Int) (kernel : Kernel σ) : Prop where
  buffer : ptrValid kernel thread dirp = true
  file : ∃ fd, fdValid kernel thread fdno = some fd ∧ (kernel.file fd).off = off ∧
    sIsdir (kernel.inode (kernel.file fd).inode).mode = true ∧
    ∃ getdents, (kernel.inode (kernel.file fd).inode).ops.getdents = some getdents ∧
      driver getdents (kernel.inode (kernel.file fd).inode) = dir

/-- The calls of `sys_getdents` on a descriptor, and what they ought to hand out: no call writes
past the buffer, and when two structures fit into it, the calls until one returns zero, and one
more, give every live entry once. -/
structure Enumerates (calls : Nat → Option (List Reply)) (n : Nat) (live : List Dirent) : Prop where
  bounded : ∀ times, ∃ replies, calls times = some replies ∧ ∀ reply ∈ replies, reply.written ≤ n
  complete : 2 * direntSize ≤ n → ∃ times replies, calls (times + 2) = some replies ∧
    (∀ reply ∈ replies.take times, reply.ret ≠ 0) ∧ replies[times]?.map Reply.ret = some 0 ∧
    (replies.flatMap Reply.dirents).Perm live

section Calls

variable {driver : FnPtr → Inode → Driver} {self : ThreadId} {fdno : Int} {dirp : Nat}
  {dir : Driver} {given live : List Dirent}

theorem OpenDir.call {off : Int} (opened : OpenDir driver self fdno dirp dir off kernel) :
    ∃ next, OpenDir driver self fdno dirp dir (off + 1) next ∧
      sysGetdents driver kernel self fdno dirp n = (dir off n).map fun reply => (next, reply) := by
  obtain ⟨fd, isFd, isOff, isDir, getdents, isOp, isDriver⟩ := opened.file
  refine ⟨kernel.setFile fd fun file => { file with off := file.off + 1 }, ⟨opened.buffer, fd, isFd, ?_⟩, ?_⟩
  · simp only [Kernel.setFile, Function.update_self]
    exact ⟨by rw [isOff], isDir, getdents, isOp, isDriver⟩
  · simp [sysGetdents, opened.buffer, isFd, isDir, vfsGetdents, isOp, isDriver, isOff]

theorem OpenDir.calls : ∀ {off : Int} {kernel : Kernel σ} {reply : Nat → Reply},
    OpenDir driver self fdno dirp dir off kernel → (∀ k : Nat, dir (off + k) n = some (reply k)) →
    getdentsCalls driver self fdno dirp n times kernel = some ((range times).map reply) := by
  induction times with
  | zero => exact fun _ _ => rfl
  | succ times ih =>
    intro off kernel reply opened replies
    obtain ⟨_, opened', called⟩ := @OpenDir.call n _ _ _ _ _ _ _ _ opened
    have first : dir off n = some (reply 0) := by simpa using replies 0
    have later : ∀ k : Nat, dir (off + 1 + k) n = some (reply (k + 1)) := by
      intro k
      rw [← replies (k + 1)]
      congr 1
      omega
    rw [getdentsCalls, called, first, map_some, bind_some, ih opened' later, List.range_succ_eq_map, List.map_cons, List.map_map]
    rfl

theorem OpenDir.calls_none : ∀ {off : Int} {kernel : Kernel σ} {k : Nat},
    OpenDir driver self fdno dirp dir off kernel → k < times → dir (off + k) n = none →
    getdentsCalls driver self fdno dirp n times kernel = none := by
  induction times with
  | zero => exact fun _ below => absurd below (Nat.not_lt_zero _)
  | succ times ih =>
    intro off kernel k opened below lost
    obtain ⟨_, opened', called⟩ := @OpenDir.call n _ _ _ _ _ _ _ _ opened
    rw [getdentsCalls, called]
    cases first : dir off n with
    | none => rfl
    | some _ =>
      cases k with
      | zero => simp [first] at lost
      | succ k =>
        have lost' : dir (off + 1 + k) n = none := by
          rw [← lost]
          congr 1
          omega
        rw [map_some, bind_some, ih opened' (by omega) lost', map_none]

/-- A driver that gives the entry at the offset and no other, if there is room for it. -/
def OneByOne (dir : Driver) (n : Nat) (live : List Dirent) : Prop :=
  ∀ k : Nat, ∃ reply, dir k n = some reply ∧ reply.written ≤ n ∧
    (2 * direntSize ≤ n → reply.dirents = live[k]?.toList ∧ (reply.ret = 0 ↔ live.length ≤ k))

theorem OneByOne.unique {others : List Dirent} (oneByOne : OneByOne dir n live)
    (again : OneByOne dir n others) (room : 2 * direntSize ≤ n) : live = others := by
  apply ext_getElem?
  intro k
  obtain ⟨_, replied, -, single⟩ := oneByOne k
  obtain ⟨_, replied', -, single'⟩ := again k
  rw [replied, some.injEq] at replied'
  subst replied'
  have same := congrArg head? ((single room).1.symm.trans (single' room).1)
  simpa using same

theorem oneByOne_of_bytes (listed : ∀ k : Nat, dir k n =
    some (bytesReply (if direntSize < n then live[k]?.toList else []))) : OneByOne dir n live := by
  intro k
  refine ⟨_, listed k, ?_, ?_⟩
  · split
    · rename_i room
      simp only [bytesReply, Reply.written]
      cases live[k]? with
      | none => simp
      | some dirent => simpa using Nat.le_of_lt room
    · simp [bytesReply, Reply.written]
  · intro room
    rw [if_pos (by rw [direntSize] at room ⊢; omega)]
    simp only [bytesReply]
    cases isEntry : live[k]? with
    | none =>
      have past := getElem?_eq_none_iff.mp isEntry
      simpa using past
    | some dirent =>
      obtain ⟨inside, -⟩ := List.getElem?_eq_some_iff.mp isEntry
      simpa [direntSize] using inside

theorem flatMap_range_getElem? (live : List Dirent) (times : Nat) :
    (range times).flatMap (fun k => live[k]?.toList) = live.take times := by
  induction times with
  | zero => simp
  | succ times ih => rw [range_succ, flatMap_append, ih, take_add_one]; simp

theorem flatMap_replies {reply : Nat → Reply} (single : ∀ k, (reply k).dirents = given[k]?.toList)
    (enough : given.length ≤ times) : ((range times).map reply).flatMap Reply.dirents = given := by
  rw [flatMap_map]
  simp only [single]
  rw [flatMap_range_getElem?, take_of_length_le enough]

variable (opened : OpenDir driver self fdno dirp dir 0 kernel)
include opened

theorem OpenDir.enumerates (oneByOne : OneByOne dir n given)
    (same : 2 * direntSize ≤ n → given.Perm live) :
    Enumerates (getdentsCalls driver self fdno dirp n · kernel) n live := by
  choose reply replies written single using oneByOne
  have called : ∀ times, getdentsCalls driver self fdno dirp n times kernel =
      some ((range times).map reply) := by
    intro times
    exact opened.calls (by simpa using replies)
  constructor
  · intro times
    refine ⟨_, called times, ?_⟩
    intro each mem
    obtain ⟨k, -, rfl⟩ := mem_map.mp mem
    exact written k
  · intro room
    refine ⟨given.length, _, called _, ?_, ?_, ?_⟩
    · intro each mem
      rw [← map_take] at mem
      obtain ⟨k, isK, rfl⟩ := mem_map.mp mem
      rw [take_range, mem_range] at isK
      rw [ne_eq, (single k room).2]
      omega
    · have last : (range (given.length + 2))[given.length]? = some given.length := by simp
      rw [getElem?_map, last, map_some, map_some, some.injEq]
      exact (single given.length room).2.mpr (Nat.le_refl _)
    · rw [flatMap_replies (fun k => (single k room).1) (by omega)]
      exact same room

theorem OpenDir.enumerated (oneByOne : OneByOne dir n given)
    (enumerates : Enumerates (getdentsCalls driver self fdno dirp n · kernel) n live)
    (room : 2 * direntSize ≤ n) : given.Perm live := by
  choose reply replies _ single using oneByOne
  obtain ⟨times, handed, called, -, last, same⟩ := enumerates.complete room
  have isHanded : handed = (range (times + 2)).map reply := by
    rw [opened.calls (by simpa using replies)] at called
    exact (some.inj called).symm
  subst isHanded
  have isLast : (range (times + 2))[times]? = some times := by simp
  rw [getElem?_map, isLast, map_some, map_some, some.injEq, (single times room).2] at last
  rwa [flatMap_replies (fun k => (single k room).1) (by omega)] at same

theorem OpenDir.not_enumerates {k : Nat} (lost : dir k n = none) :
    ¬ Enumerates (getdentsCalls driver self fdno dirp n · kernel) n live := by
  intro enumerates
  obtain ⟨_, called, -⟩ := enumerates.bounded (k + 1)
  have none := @OpenDir.calls_none n (k + 1) _ _ _ _ _ _ _ _ k opened (Nat.lt_succ_self k) (by simpa
      using lost)
  rw [none] at called
  cases called

end Calls

/-! ## Devices -/

variable {size : Nat}

/-- A `struct dentry` in the lists of devices, with the mode of its inode. -/
structure Dentry where
  name : CStr
  mode : Nat
  deriving DecidableEq, Repr

/-- `IFTODT` of the file type -/
def iftodt (mode : Nat) : Nat := (mode &&& 0xf000) >>> 12 &&& 0o17

/-- What `devfs_getdents` and `ptsfs_getdents` make of an entry. -/
def Dentry.dirent (dev : Dentry) : Dirent := ⟨none, iftodt dev.mode, dev.name⟩

/-- The loop of `devfs_getdents`, with the number of rounds left; `list_get` behind the last node
follows a null pointer. -/
def devfsLoop (devices : List Dentry) (off : Nat) : (left i : Nat) → Option (List Dirent)
  | 0, _ => some []
  | left + 1, i =>
      if i + off = devices.length then some []
      else devices[i + off]?.bind fun dev =>
        (devfsLoop devices off left (i + 1)).map (dev.dirent :: ·)

/-- `devfs_getdents`; offsets are not negative -/
def devfsGetdents (devices : List Dentry) : Driver := fun off size =>
  (devfsLoop devices off.toNat size 0).map fun dirents => ⟨dirents, dirents.length⟩

/-- The loop of `ptsfs_getdents`, with the number of structures written so far. -/
def ptsfsLoop (size : Nat) : List Dentry → (off : Int) → (i : Nat) → List Dirent
  | [], _, _ => []
  | dev :: slaves, off, i =>
      if i * direntSize + direntSize > size then []
      else if off ≠ 0 then ptsfsLoop size slaves (off - 1) i
      else dev.dirent :: ptsfsLoop size slaves (off - 1) (i + 1)

def ptsfsGetdents (slaves : List Dentry) : Driver := fun off size =>
  let dirents := ptsfsLoop size slaves off 0
  some ⟨dirents, dirents.length⟩

/-- Behind the last entry the end test of `devfs_getdents` is never true. -/
theorem devfsGetdents_lost (devices : List Dentry) (nonempty : n ≠ 0) :
    devfsGetdents devices ((devices.length + 1 : Nat) : Int) n = none := by
  obtain ⟨_, rfl⟩ := Nat.exists_eq_succ_of_ne_zero nonempty
  simp [devfsGetdents, devfsLoop]

theorem ptsfsLoop_negative : ∀ {slaves : List Dentry} {off : Int} {i : Nat}, off < 0 →
    ptsfsLoop size slaves off i = [] := by
  intro slaves
  induction slaves with
  | nil => exact fun _ => rfl
  | cons _ slaves ih =>
    intro off i _
    rw [ptsfsLoop]
    split
    · rfl
    · rw [if_pos (by omega), ih (by omega)]

/-- `ptsfs_getdents` gives the entry at the offset. -/
theorem ptsfsLoop_eq (room : direntSize ≤ size) (slaves : List Dentry) (k : Nat) :
    ptsfsLoop size slaves k 0 = (slaves.map Dentry.dirent)[k]?.toList := by
  induction slaves generalizing k with
  | nil => rfl
  | cons _ slaves ih =>
    rw [ptsfsLoop, if_neg (by omega)]
    cases k with
    | zero => simp [ptsfsLoop_negative]
    | succ k =>
      rw [if_pos (by omega)]
      have below : ((k + 1 : Nat) : Int) - 1 = k := by omega
      rw [below, ih]
      simp

theorem ptsfsGetdents_oneByOne (slaves : List Dentry) (n : Nat) :
    OneByOne (ptsfsGetdents slaves) n (slaves.map Dentry.dirent) := by
  intro k
  refine ⟨_, rfl, ?_, ?_⟩
  · by_cases room : direntSize ≤ n
    · simp only [Reply.written, ptsfsLoop_eq room]
      cases (slaves.map Dentry.dirent)[k]? with
      | none => simp
      | some dirent => simpa using room
    · cases slaves with
      | nil => simp [Reply.written, ptsfsLoop]
      | cons _ slaves =>
        have full : n < direntSize := by omega
        simp [Reply.written, ptsfsLoop, full]
  · intro room
    have fits : direntSize ≤ n := by omega
    simp only [ptsfsLoop_eq fits]
    cases isEntry : (slaves.map Dentry.dirent)[k]? with
    | none =>
      have past := getElem?_eq_none_iff.mp isEntry
      simpa using past
    | some dirent =>
      obtain ⟨inside, -⟩ := List.getElem?_eq_some_iff.mp isEntry
      simpa using inside

end Micro.Fs
