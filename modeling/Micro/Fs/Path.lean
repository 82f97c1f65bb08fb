import Micro.Kern.State

/-!
# Paths and permissions

The part of the virtual file system that turns a path into an inode: permission
checks, the mount table, canonical paths, and the walk from a mount point down
to a file, following symbolic links.

Strings are unbounded here, so the fixed-size buffer `canon[256]` of the source does not
overflow.
-/

namespace Micro.Fs

open Kern

variable {σ : Type}

def enoent : Int := 2
def ebadf : Int := 9
def eacces : Int := 13
def efault : Int := 14
def eexist : Int := 17
def enotdir : Int := 20
def einval : Int := 22
def emfile : Int := 24
def eloop : Int := 40

def sIsdir (mode : Nat) : Bool := mode &&& 0xf000 == 0x4000

def sIsreg (mode : Nat) : Bool := mode &&& 0xf000 == 0x8000

def sIslnk (mode : Nat) : Bool := mode &&& 0xf000 == 0xa000

/-- `vfs_checkperm`, for the current task if there is one -/
def vfsCheckperm (taskCurr : Option Task) (file : Inode) (mask : Nat) : Int :=
  match taskCurr with
  | none => 0
  | some task =>
      if task.euid ≠ 0 then
        if task.euid = file.uid then
          if file.mode &&& (mask <<< 6) = 0 then -1 else 0
        else if task.egid = file.gid then
          if file.mode &&& (mask <<< 3) = 0 then -1 else 0
        else if file.gid ∈ task.groups then
          if file.mode &&& (mask <<< 3) = 0 then -1 else 0
        else if file.mode &&& mask = 0 then -1 else 0
      else 0

/-- `strspn` as the kernel has it: a character is compared with the first
delimiter only, since the loop over the delimiters leaves at its first turn. -/
def strspn (delim : CStr) : CStr → Nat
  | [] => 0
  | c :: rest =>
      match delim with
      | [] => strspn delim rest + 1
      | d :: _ => if c = d then strspn delim rest + 1 else 0

def strcspn (delim : CStr) : CStr → Nat
  | [] => 0
  | c :: rest => if c ∈ delim then 0 else strcspn delim rest + 1

/-- `strtok_r`: the next token and the string left behind `saveptr`. -/
def strtokR (s delim : CStr) : Option CStr × CStr :=
  let s := s.drop (strspn delim s)
  if s = [] then (none, [])
  else (some (s.take (strcspn delim s)), s.drop (strcspn delim s + 1))

/-- The tokens successive calls of `strtok_r` return.  Every token uses up a
character, so the length of the string bounds the number of calls. -/
def strtokAll (delim : CStr) : Nat → CStr → List CStr
  | 0, _ => []
  | fuel + 1, s =>
      match strtokR s delim with
      | (some token, rest) => token :: strtokAll delim fuel rest
      | (none, _) => []

def pathTokens (path : CStr) : List CStr := strtokAll [47] (path.length + 1) path

/-- The length of the common start of a mount path and a path. -/
def commonLength : CStr → CStr → Nat
  | m :: mount, p :: path => if p = m then commonLength mount path + 1 else 0
  | _, _ => 0

/-- The candidate after looking at one mount, with the length it matches. -/
def getmntStep (path : CStr) (candidate : Option Mount × Nat) (mount : Mount) :
    Option Mount × Nat :=
  if mount.path.length > path.length then candidate
  else
    let i := commonLength mount.path path
    if i > candidate.2 ∧ path.take i = mount.path then (some mount, i) else candidate

/-- `vfs_getmnt`: the root of the mounted file system and the relative path. -/
def vfsGetmnt (mounts : List Mount) (path : CStr) : Except Int (Inode × CStr) :=
  match mounts.foldl (getmntStep path) (none, 0) with
  | (some mount, i) => .ok (mount.file, path.drop i)
  | (none, _) => .error (-enoent)

/-- The effect of one token on the list built by `vfs_mkcanon`. -/
def mkcanonStep (tokens : List CStr) (token : CStr) : List CStr :=
  if token = [] ∨ token = [46] then tokens
  else if token = [46, 46] then tokens.dropLast
  else tokens ++ [token]

def vfsMkcanon (path work : CStr) : CStr :=
  let tmp := if path.head? = some 47 then path else work ++ [47] ++ path
  let tokens := (pathTokens tmp).foldl mkcanonStep []
  if tokens = [] then [47] else tokens.flatMap fun token => 47 :: token

/-- `TRY(file->ops.lookup(...))`; `none` when the pointer is null and the call
faults. -/
def callLookup (machine : Machine σ) (dev : σ) (file : Inode) (token : CStr) :
    Option (σ × Except Int Inode) :=
  file.ops.lookup.map fun lookup =>
    let found := machine.lookup lookup dev file token
    (found.1, if found.2.1 < 0 then .error found.2.1 else .ok found.2.2)

/-- The loop of `get_parent_dir` over the components before the last. -/
def parentWalk (machine : Machine σ) (taskCurr : Option Task) :
    σ → Inode → List CStr → Option (σ × Except Int Inode)
  | dev, file, [] =>
      if sIsdir file.mode then some (dev, .ok file) else some (dev, .error (-enotdir))
  | dev, file, token :: tokens =>
      if ¬ sIsdir file.mode then some (dev, .error (-enotdir))
      else if vfsCheckperm taskCurr file 4 = -1 then some (dev, .error (-eacces))
      else
        match callLookup machine dev file token with
        | some (dev, .ok child) => parentWalk machine taskCurr dev child tokens
        | some (dev, .error e) => some (dev, .error e)
        | none => none

/-- `get_parent_dir`: the directory that holds the last component, and its name. -/
def getParentDir (machine : Machine σ) (mounts : List Mount) (taskCurr : Option Task)
    (dev : σ) (path : CStr) : Option (σ × Except Int (Inode × CStr)) :=
  match vfsGetmnt mounts path with
  | .error e => some (dev, .error e)
  | .ok (root, relat) =>
      match (pathTokens relat).getLast? with
      | none => some (dev, .error (-enoent))
      | some name =>
          match parentWalk machine taskCurr dev root (pathTokens relat).dropLast with
          | some (dev, .ok dir) => some (dev, .ok (dir, name))
          | some (dev, .error e) => some (dev, .error e)
          | none => none

def vfsReadlink (machine : Machine σ) (dev : σ) (inode : Inode) (n : Nat) : σ × Int × List UInt8 :=
  match inode.ops.readlink with
  | some readlink => machine.readlink readlink dev inode n
  | none => (dev, -einval, [])

/-- The target `link[60]` holds after `readlink` returned `n`; `none` when the
terminator `link[n] = 0` is written outside the buffer. -/
def linkTarget (n : Int) (bytes : List UInt8) : Option CStr :=
  if n < 0 ∨ 60 ≤ n then none else some ((bytes.take n.toNat).takeWhile (· ≠ 0))

/-- The loop of `do_vfs_resolve`.  Following a link leaves the loop: the
components after the link are not walked. -/
def resolveWalk (machine : Machine σ) (taskCurr : Option Task) (symlinks : Bool)
    (follow : σ → CStr → Option (σ × Except Int Inode)) :
    σ → Inode → List CStr → Option (σ × Except Int Inode)
  | dev, file, [] => some (dev, .ok file)
  | dev, file, token :: tokens =>
      if ¬ sIsdir file.mode then some (dev, .error (-enotdir))
      else if vfsCheckperm taskCurr file 4 = -1 then some (dev, .error (-eacces))
      else
        match callLookup machine dev file token with
        | some (dev, .ok child) =>
            if sIslnk child.mode && symlinks then
              let (dev, n, bytes) := vfsReadlink machine dev child 60
              match linkTarget n bytes with
              | some link => follow dev link
              | none => none
            else resolveWalk machine taskCurr symlinks follow dev child tokens
        | some (dev, .error e) => some (dev, .error e)
        | none => none

/-- `do_vfs_resolve`, with the number of links that may still be followed in
place of `depth`: it counts down from 8. -/
def doVfsResolve (machine : Machine σ) (mounts : List Mount) (taskCurr : Option Task) :
    Nat → Bool → σ → CStr → Option (σ × Except Int Inode)
  | 0, _, dev, _ => some (dev, .error (-eloop))
  | depth + 1, symlinks, dev, path =>
      match vfsGetmnt mounts path with
      | .error e => some (dev, .error e)
      | .ok (root, relat) =>
          resolveWalk machine taskCurr symlinks
            (doVfsResolve machine mounts taskCurr depth true) dev root (pathTokens relat)

def vfsResolve (machine : Machine σ) (mounts : List Mount) (taskCurr : Option Task)
    (symlinks : Bool) (dev : σ) (path : CStr) : Option (σ × Except Int Inode) :=
  doVfsResolve machine mounts taskCurr 8 symlinks dev path

end Micro.Fs
