import Micro.Lib.Run
import Micro.Fs.PathBuffers

/-!
# The working directory

Every call that takes a path gives it to `vfs_mkcanon` with the working directory of the task, a
string in the 64 bytes of `workd`.  `chdir` copies the canonical path there.  The calls do not
look at the length of a path.  A call that leaves one of the buffers has no result here.
-/

namespace Micro.Fs

open Kern Lib Option List Function

namespace Buffers

/-! ## The source -/

/-- What the stack holds where a call of `vfs_mkcanon` has `tmp` and `out`. -/
structure Scratch where
  tmp : Buf
  out : Buf

/-- `vfs_mkcanon(path, task->workd, canon)`, and the string in `canon` -/
def mkcanonIn (workd : Buf) (scratch : Scratch) (path : CStr) : Option CStr := do
  let work ← readString 64 workd 0
  let canon ← vfsMkcanon scratch.tmp scratch.out path (some work)
  readString 256 canon 0

/-- `sys_chdir` of a valid pointer.  `vfs_open` returns an error or the mode of what it opens. -/
def sysChdir (vfsOpen : CStr → Except Int Nat) (workd : Buf) (scratch : Scratch) (path : CStr) :
    Option (Buf × Int) := do
  let canon ← mkcanonIn workd scratch path
  match vfsOpen canon with
  | .error e => return (workd, e)
  | .ok mode =>
      if sIsdir mode then return (← strcpy 64 workd 0 canon, 0)
      else return (workd, -enotdir)

/-- A string that a user's pointer refers to. -/
abbrev UserPath := { path : CStr // 0 ∉ path }

/-- A call with valid pointers to its paths. -/
inductive PathCall where
  /-- `open`, `access`, `chmod`, `chown`, `unlink`, `symlink`, `rmdir`, `stat`, `lstat`,
  `readlink`, `utime`, `utimes` and `execve` make one path canonical. -/
  | one (scratch : Scratch) (path : UserPath)
  /-- `link` and `rename` make two paths canonical. -/
  | two (scratch scratch' : Scratch) (old new : UserPath)
  /-- `mkdir` gives the canonical path to `sys_access`, which makes it canonical once more if
  it takes a pointer to the kernel's stack. -/
  | mkdir (scratch scratch' : Scratch) (path : UserPath) (ptrValid : Bool)
  | chdir (vfsOpen : CStr → Except Int Nat) (scratch : Scratch) (path : UserPath)

/-- The working directories of the tasks. -/
abbrev WorkDirs := TaskId → Buf

def pathCall (workd : WorkDirs) (label : TaskId × PathCall) : Option WorkDirs :=
  match label.2 with
  | .one scratch path => do
      let _ ← mkcanonIn (workd label.1) scratch path
      return workd
  | .two scratch scratch' old new => do
      let _ ← mkcanonIn (workd label.1) scratch old
      let _ ← mkcanonIn (workd label.1) scratch' new
      return workd
  | .mkdir scratch scratch' path ptrValid => do
      let canon ← mkcanonIn (workd label.1) scratch path
      if ptrValid then
        let _ ← mkcanonIn (workd label.1) scratch' canon
      return workd
  | .chdir vfsOpen scratch path => do
      let (dir, _) ← sysChdir vfsOpen (workd label.1) scratch path
      return Function.update workd label.1 dir

/-! ## What fits -/

/-- The path and, unless it is absolute, the working directory fit into `tmp`. -/
def FitsTmp (work path : CStr) : Prop := (fullPath path (some work)).length ≤ 255

/-- The paths of a call fit, and what `chdir` copies fits into `workd`. -/
def Fits (work : CStr) : PathCall → Prop
  | .one _ path => FitsTmp work path
  | .two _ _ old new => FitsTmp work old ∧ FitsTmp work new
  | .mkdir _ _ path _ => FitsTmp work path
  | .chdir vfsOpen _ path =>
      FitsTmp work path ∧
        ∀ mode, vfsOpen (canonPath (canonStack (fullPath path (some work)))) = .ok mode →
          sIsdir mode = true → (canonPath (canonStack (fullPath path (some work)))).length ≤ 63

/-- A call fits with the string in `workd`. -/
def FitsIn (workd : Buf) (call : PathCall) : Prop :=
  ∀ work, StringAt 64 workd 0 work → Fits work call

/-- A working directory is a canonical path in 64 bytes. -/
def WorkDir (workd : Buf) : Prop := ∃ work, StringAt 64 workd 0 work ∧ Canonical work

section Calls

variable {workd : Buf} {work path : CStr} {scratch : Scratch}

theorem mkcanonIn_some (holds : StringAt 64 workd 0 work) (canonical : Canonical work)
    (plain : 0 ∉ path) (fits : FitsTmp work path) :
    mkcanonIn workd scratch path = some (canonPath (canonStack (fullPath path (some work)))) ∧
      0 ∉ canonPath (canonStack (fullPath path (some work))) := by
  have short := Nat.lt_succ_of_le fits
  rcases @vfsMkcanon_some scratch.tmp scratch.out path _ (fullPath_plain plain holds.plain)
    (fullPath_rooted canonical) short with ⟨_, called, isCanon⟩
  constructor
  · simp only [mkcanonIn, holds.readString_eq, called, isCanon.readString_eq, bind_eq_bind,
      bind_some]
  · exact isCanon.plain

theorem mkcanonIn_none (holds : StringAt 64 workd 0 work) (plain : 0 ∉ path)
    (long : ¬ FitsTmp work path) : mkcanonIn workd scratch path = none := by
  have overflows := @vfsMkcanon_none scratch.tmp scratch.out path _
    (fullPath_plain plain holds.plain) (Nat.lt_of_not_le long)
  simp only [mkcanonIn, holds.readString_eq, overflows, bind_eq_bind, bind_some, bind_none]

theorem fitsTmp_canon (canonical : Canonical work) (fits : FitsTmp work path) :
    FitsTmp work (canonPath (canonStack (fullPath path (some work)))) := by
  have rooted := @fullPath_rooted path _ canonical
  have length := length_canonStack rooted
  generalize canonStack (fullPath path (some work)) = stack at length ⊢
  cases stack with
  | nil => exact Nat.succ_pos _
  | cons _ stack =>
    exact length.trans fits

variable {vfsOpen : CStr → Except Int Nat}

variable (holds : StringAt 64 workd 0 work) (canonical : Canonical work)
include holds canonical

theorem sysChdir_some {path : UserPath} (fits : Fits work (.chdir vfsOpen scratch path)) :
    ∃ dir ret, sysChdir vfsOpen workd scratch path = some (dir, ret) ∧ WorkDir dir := by
  rcases fits with ⟨fitsTmp, fitsWorkd⟩
  rcases mkcanonIn_some holds canonical path.2 fitsTmp with ⟨called, plain⟩
  have isCanonical : Canonical (canonPath (canonStack (fullPath path.1 (some work)))) :=
    ⟨_, canonStack_valid _, rfl⟩
  have old : WorkDir workd := ⟨work, holds, canonical⟩
  rw [sysChdir, called]
  generalize canonPath (canonStack (fullPath path.1 (some work))) = canon at *
  simp only [bind_eq_bind, bind_some]
  cases opened : vfsOpen canon with
  | error e => exact ⟨workd, e, rfl, old⟩
  | ok mode =>
    dsimp only
    by_cases isDir : sIsdir mode = true
    · have short := fitsWorkd mode opened isDir
      rcases @strcpy_some 64 0 workd canon plain (by omega) with ⟨dir, copied, isDirectory, _⟩
      rw [if_pos isDir, copied]
      exact ⟨dir, 0, rfl, canon, isDirectory, isCanonical⟩
    · rw [if_neg isDir]
      exact ⟨workd, -enotdir, rfl, old⟩

theorem sysChdir_none {path : UserPath} (long : ¬ Fits work (.chdir vfsOpen scratch path)) :
    sysChdir vfsOpen workd scratch path = none := by
  rw [sysChdir]
  by_cases fitsTmp : FitsTmp work path.1
  · rw [(mkcanonIn_some holds canonical path.2 fitsTmp).1]
    simp only [Fits, fitsTmp, true_and, not_forall] at long
    rcases long with ⟨_, opened, isDir, _⟩
    simp only [bind_eq_bind, bind_some, opened]
    rw [if_pos isDir, strcpy_none (by omega), bind_none]
  · rw [mkcanonIn_none holds path.2 fitsTmp]
    rfl

end Calls

/-! ## Runs -/

section Steps

variable {workd : WorkDirs} {label : TaskId × PathCall}

theorem fitsIn_iff {work : CStr} {buf : Buf} {call : PathCall}
    (holds : StringAt 64 buf 0 work) : FitsIn buf call ↔ Fits work call := by
  constructor
  · exact fun fits => fits work holds
  · intro fits _ also
    rw [← holds.unique also]
    exact fits

/-- A call that fits stays in the buffers and leaves canonical working directories. -/
theorem pathCall_some (holds : ∀ task, WorkDir (workd task))
    (fits : FitsIn (workd label.1) label.2) :
    ∃ next, pathCall workd label = some next ∧ ∀ task, WorkDir (next task) := by
  rcases holds label.1 with ⟨work, isWork, canonical⟩
  have fits := fits work isWork
  rcases label with ⟨self, call⟩
  cases call with
  | one scratch path =>
    refine ⟨workd, ?_, holds⟩
    simp only [pathCall, (mkcanonIn_some isWork canonical path.2 fits).1]
    rfl
  | two scratch scratch' old new =>
    refine ⟨workd, ?_, holds⟩
    simp only [pathCall, (mkcanonIn_some isWork canonical old.2 fits.1).1,
      (mkcanonIn_some isWork canonical new.2 fits.2).1]
    rfl
  | mkdir scratch scratch' path ptrValid =>
    refine ⟨workd, ?_, holds⟩
    rcases @mkcanonIn_some _ _ _ scratch isWork canonical path.2 fits with ⟨called, plain⟩
    have again := fitsTmp_canon canonical fits
    cases ptrValid with
    | false =>
      simp only [pathCall, called]
      rfl
    | true =>
      simp only [pathCall, called, bind_eq_bind, bind_some,
        (mkcanonIn_some isWork canonical plain again).1]
      rfl
  | chdir _ scratch path =>
    rcases sysChdir_some isWork canonical fits with ⟨dir, _, called, isDir⟩
    refine ⟨update workd self dir, ?_, fun task => ?_⟩
    · simp only [pathCall, called]
      rfl
    · by_cases same : task = self
      · subst same
        rw [update_self]
        exact isDir
      · rw [update_of_ne same]
        exact holds task

theorem pathCall_none (holds : WorkDir (workd label.1))
    (long : ¬ FitsIn (workd label.1) label.2) : pathCall workd label = none := by
  rcases holds with ⟨work, isWork, canonical⟩
  rw [fitsIn_iff isWork] at long
  rcases label with ⟨_, call⟩
  cases call with
  | one scratch path =>
    simp only [pathCall, mkcanonIn_none isWork path.2 long]
    rfl
  | two scratch scratch' old new =>
    by_cases first : FitsTmp work old.1
    · have second : ¬ FitsTmp work new.1 := fun fits => long ⟨first, fits⟩
      simp only [pathCall, (mkcanonIn_some isWork canonical old.2 first).1,
        mkcanonIn_none isWork new.2 second]
      rfl
    · simp only [pathCall, mkcanonIn_none isWork old.2 first]
      rfl
  | mkdir scratch scratch' path _ =>
    simp only [pathCall, mkcanonIn_none isWork path.2 long]
    rfl
  | chdir _ scratch path =>
    simp only [pathCall, sysChdir_none isWork canonical long]
    rfl

end Steps

/-- Calls whose paths fit stay in the buffers and leave canonical working directories, and in a
state they lead to a call stays in the buffers exactly if its paths fit. -/
theorem path_buffers_kept (start : WorkDirs) (labels : List (TaskId × PathCall))
    (first : ∀ task, WorkDir (start task))
    (fit : Permitted pathCall (fun workd label => FitsIn (workd label.1) label.2) start labels) :
    ∃ final, drive pathCall start labels = some final ∧ (∀ task, WorkDir (final task)) ∧
      ∀ label, (pathCall final label).isSome ↔ FitsIn (final label.1) label.2 := by
  have stepTotal : ∀ workd label, (∀ task, WorkDir (workd task)) →
      FitsIn (workd label.1) label.2 →
      ∃ next, pathCall workd label = some next ∧ ∀ task, WorkDir (next task) :=
    fun _ _ holds fits => pathCall_some holds fits
  rcases drive_total stepTotal labels start first fit with ⟨final, driven, holds⟩
  refine ⟨final, driven, holds, fun label => ?_⟩
  constructor
  · intro isSome
    by_contra long
    rw [pathCall_none (holds _) long] at isSome
    cases isSome
  · intro fits
    rcases pathCall_some holds fits with ⟨next, called, _⟩
    rw [called]
    rfl

/-- The working directories of new tasks. -/
def rootDirs : WorkDirs := fun _ => put (fun _ => 0) 0 [47]

theorem rootDirs_root (task : TaskId) : StringAt 64 (rootDirs task) 0 [47] :=
  ⟨rfl, rfl, by decide, by decide⟩

theorem rootDirs_workDir (task : TaskId) : WorkDir (rootDirs task) :=
  ⟨[47], rootDirs_root task, [], fun _ mem => absurd mem not_mem_nil, rfl⟩

/-- A task enters the directory `/a`. -/
theorem path_buffers_kept_chdir :
    ∃ final, drive pathCall rootDirs
        [(0, .chdir (fun _ => .ok 0x4000) ⟨fun _ => 1, fun _ => 1⟩ ⟨[47, 97], by decide⟩)] =
          some final ∧ ∀ task, WorkDir (final task) := by
  have fits : FitsIn (rootDirs 0)
      (.chdir (fun _ => .ok 0x4000) ⟨fun _ => 1, fun _ => 1⟩ ⟨[47, 97], by decide⟩) := by
    rw [fitsIn_iff (rootDirs_root 0)]
    have fitsTmp : (fullPath [47, 97] (some [47])).length ≤ 255 := by decide
    have fitsWorkd : (canonPath (canonStack (fullPath [47, 97] (some [47])))).length ≤ 63 := by
      decide
    exact ⟨fitsTmp, fun _ _ _ => fitsWorkd⟩
  rcases path_buffers_kept rootDirs [(0, _)] rootDirs_workDir ⟨fits, fun _ _ => trivial⟩ with
    ⟨final, driven, holds, _⟩
  exact ⟨final, driven, holds⟩

/-- The name `aa…a` of some length. -/
def longName (count : Nat) : UserPath :=
  ⟨List.replicate count 97, fun zero => absurd (List.eq_of_mem_replicate zero) (by decide)⟩

/-- A long path is written past the end of `tmp`, and the path of a directory that exists is
written past the end of `workd`. -/
theorem long_paths_overrun :
    (∀ task, WorkDir (rootDirs task)) ∧
      pathCall rootDirs (0, .one ⟨fun _ => 1, fun _ => 1⟩ (longName 256)) = none ∧
      pathCall rootDirs (0, .chdir (fun _ => .ok 0x4000) ⟨fun _ => 1, fun _ => 1⟩
        (longName 63)) = none := by
  refine ⟨rootDirs_workDir, ?_, ?_⟩
  · apply pathCall_none (rootDirs_workDir 0)
    rw [fitsIn_iff (rootDirs_root 0)]
    intro fits
    have length : (longName 256).1.length = 256 := length_replicate
    have short := (length_le_fullPath (longName 256).1 (some [47])).trans fits
    omega
  · apply pathCall_none (rootDirs_workDir 0)
    rw [fitsIn_iff (rootDirs_root 0)]
    intro fits
    have short := fits.2 0x4000 rfl rfl
    exact absurd short (by decide)

end Buffers

end Micro.Fs
