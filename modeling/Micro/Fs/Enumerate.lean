import Micro.Ext2.Getdents
import Micro.Fat.Listing
import Micro.Proc.Task

/-!
# Enumerating directories

The four drivers side by side: what each directory holds, what `sys_getdents` hands out of it,
and when the two are the same.
-/

namespace Micro.Fs

open Kern Lib

variable {σ : Type}

/-- A directory of one of the file systems that can be listed. -/
inductive Listable where
  | ext2 (vol : Ext2.Volume) (dir : Nat) (listing : Ext2.Listing)
      (blocks : Ext2.Blocks vol dir listing)
  | fat (vol : Fat.Volume) (dir : Nat) (slots : List Buf) (read : Fat.dirSlots vol dir = some slots)
  | devfs (devices : List Dentry)
  | ptsfs (slaves : List Dentry)

namespace Listable

/-- Its `getdents` operation. -/
def driver : Listable → Driver
  | .ext2 vol dir _ _ => Ext2.getdents vol dir
  | .fat vol dir _ _ => Fat.fatGetdents vol dir
  | .devfs devices => devfsGetdents devices
  | .ptsfs slaves => ptsfsGetdents slaves

def live : Listable → List Dirent
  | .ext2 _ _ listing _ => Ext2.liveDirents listing
  | .fat vol dir _ _ => Fat.listing (Fat.allSlots vol dir)
  | .devfs devices => devices.map Dentry.dirent
  | .ptsfs slaves => slaves.map Dentry.dirent

/-- The directories that are listed as they should be: those of ext2 of at most one block; those
of FAT without a long run of fragments and without entries behind the first sector of a
cluster; and those of ptsfs. -/
def Whole (n : Nat) : Listable → Prop
  | .ext2 _ _ listing _ => listing.length ≤ 1
  | .fat vol dir slots _ => Fat.runsFitFor n slots = true ∧
      (2 * direntSize ≤ n → (Fat.listing slots).Perm (Fat.listing (Fat.allSlots vol dir)))
  | .devfs _ => n = 0
  | .ptsfs _ => True

end Listable

/-- For every directory and every size of the buffer, the calls of `sys_getdents` on a fresh
descriptor stay within the buffer and hand out every live entry once exactly when the directory
is one of those that are listed whole. -/
theorem getdents_enumerates_iff (driver : FnPtr → Inode → Driver) (kernel : Kernel σ)
    (self : ThreadId) (fdno : Int) (dirp n : Nat) (dir : Listable)
    (opened : OpenDir driver self fdno dirp dir.driver 0 kernel) :
    Enumerates (getdentsCalls driver self fdno dirp n · kernel) n dir.live ↔ dir.Whole n := by
  cases dir with
  | ext2 vol num _ blocks =>
    constructor
    · intro enumerates
      by_contra many
      obtain ⟨k, lost⟩ := blocks.lost (Nat.lt_of_not_le many) n
      exact opened.not_enumerates lost enumerates
    · intro few
      exact opened.enumerates (blocks.oneByOne few n) fun _ => List.Perm.refl _
  | fat vol num slots read =>
    constructor
    · intro enumerates
      cases fits : Fat.runsFitFor n slots with
      | false => exact absurd enumerates (opened.not_enumerates (Fat.fatGetdents_lost read fits))
      | true => exact ⟨fits, opened.enumerated (Fat.fatGetdents_oneByOne read fits) enumerates⟩
    · intro whole
      exact opened.enumerates (Fat.fatGetdents_oneByOne read whole.1) whole.2
  | devfs devices =>
    constructor
    · intro enumerates
      by_contra nonempty
      exact opened.not_enumerates (devfsGetdents_lost devices nonempty) enumerates
    · intro noBuffer
      subst noBuffer
      have nothing : OneByOne (devfsGetdents devices) 0 [] := by
        intro k
        refine ⟨_, rfl, by simp [Reply.written], ?_⟩
        simp
      exact opened.enumerates nothing (by simp [direntSize])
  | ptsfs slaves =>
    apply iff_of_true _ trivial
    exact opened.enumerates (ptsfsGetdents_oneByOne slaves n) fun _ => List.Perm.refl _

/-- A kernel whose only task has a directory open as its descriptor 3. -/
def oneDir : Kernel Unit :=
  { Proc.oneTask with
    inode := fun _ => { mode := 0x4000, ops := { getdents := some 0 } }
    task := fun task => { Proc.oneTask.task task with fds := fun fd => if fd = 3 then some 0 else none } }

theorem oneDir_opened (dir : Driver) : OpenDir (fun _ _ => dir) 0 3 0x1000 dir 0 oneDir :=
  ⟨by decide, 0, by decide, rfl, by decide, 0, rfl, rfl⟩

theorem getdents_enumerates_two_slaves : let slaves := [⟨[48], 0x2000⟩, ⟨[49], 0x2000⟩]
    Enumerates (getdentsCalls (fun _ _ => ptsfsGetdents slaves) 0 3 0x1000 560 · oneDir) 560
      (slaves.map Dentry.dirent) :=
  (getdents_enumerates_iff (fun _ _ => ptsfsGetdents [⟨[48], 0x2000⟩, ⟨[49], 0x2000⟩]) oneDir 0 3 0x1000
    560 (.ptsfs _) (oneDir_opened _)).mpr trivial

/-- `devfs_getdents` takes the size of the buffer for a number of entries: with three devices and
room for two, the first call writes all three. -/
theorem devfs_overruns_buffer : let devices := [⟨[97], 0x2000⟩, ⟨[98], 0x2000⟩, ⟨[99], 0x2000⟩]
    ¬ Enumerates (getdentsCalls (fun _ _ => devfsGetdents devices) 0 3 0x1000 560 · oneDir) 560
      (devices.map Dentry.dirent) := by
  intro devices enumerates
  obtain ⟨_, called, bounded⟩ := enumerates.bounded 1
  have replied : getdentsCalls (fun _ _ => devfsGetdents devices) 0 3 0x1000 560 1 oneDir =
      some [⟨devices.map Dentry.dirent, 3⟩] := rfl
  rw [replied, Option.some.injEq] at called
  subst called
  exact absurd (bounded _ (List.mem_singleton.mpr rfl)) (by decide)

end Micro.Fs
