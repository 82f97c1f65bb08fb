import Micro.Fs.PathBuffers

/-!
# realpath

`realpath` of the libc puts the path behind the working directory and then goes on as `vfs_mkcanon`
does.  The block it allocates for both has no room for the slash between them.
-/

namespace Micro.Libc

open Kern Lib Fs.Buffers Option

/-- What `realpath` does with a token, given the tokens it has kept and the size it has counted. -/
def pushToken (bytes : Nat) (tmp : Buf) (tokens : List Nat) (size token : Nat) (text : CStr) :
    Option (List Nat × Nat) :=
  if text = [] ∨ text = [46] then some (tokens, size)
  else if text = [46, 46] then
    match tokens.getLast? with
    | none => some (tokens, size)
    | some last => (strlen bytes tmp last).map fun len => (tokens.dropLast, size - len)
  else some (tokens ++ [token], size + text.length + 1)

/-- The loop of `realpath` over the tokens. -/
def pushTokens (bytes : Nat) (tmp : Buf) (tokens : List Nat) (size : Nat) (token : Option Nat)
    (saveptr : Nat) : (fuel : Nat) → Option (Buf × List Nat × Nat)
  | 0 => none
  | fuel + 1 =>
      match token with
      | none => some (tmp, tokens, size)
      | some token => do
          let (tokens, size) ← pushToken bytes tmp tokens size token (← readString bytes tmp token)
          let (tmp, next, saveptr) ← strtokR bytes tmp saveptr [47]
          pushTokens bytes tmp tokens size next saveptr fuel

/-- `realpath(path, NULL)`, given what is in `tmp` before; a call fails when it reads or writes
outside of a block. -/
def realpath (tmp : Buf) (cwd path : CStr) : Option CStr := do
  let bytes := cwd.length + path.length + 1
  let tmp ← strcpy bytes tmp 0 cwd
  let tmp ← strcat bytes tmp 0 [47]
  let tmp ← strcat bytes tmp 0 path
  let (tmp, token, saveptr) ← strtokR bytes tmp 1 [47]
  let (tmp, tokens, size) ←
    pushTokens bytes tmp [] (if token = none then 1 else 0) token saveptr (bytes + 1)
  let respath ← if tokens = [] then strcpy size (fun _ => 0) 0 [47] else some fun _ => 0
  let respath ← tokens.foldlM (fun respath token => do
    let respath ← strcat size respath 0 [47]
    strcat size respath 0 (← readString bytes tmp token)) respath
  readString size respath 0

/-- `realpath` stays inside of its blocks and returns what `vfs_mkcanon` computes. -/
def AgreesWithKernel (cwd path : CStr) : Prop :=
  ∀ tmp kernelTmp out, ∃ text result, realpath tmp cwd path = some text ∧
    vfsMkcanon kernelTmp out path (some cwd) = some result ∧ StringAt 256 result 0 text

theorem realpath_none {tmp : Buf} {cwd path : CStr} (plain : 0 ∉ cwd) :
    realpath tmp cwd path = none := by
  obtain ⟨_, copied, isCwd, _⟩ :=
    @strcpy_some (cwd.length + path.length + 1) 0 tmp cwd plain (by omega)
  simp only [realpath, copied, bind_eq_bind, bind_some]
  by_cases empty : path.length = 0
  · rw [isCwd.strcat_eq, strcpy_none (by simp [empty]), bind_none]
  · obtain ⟨_, slashed, isSlashed⟩ :=
      @StringAt.strcat_some _ _ _ _ isCwd [47] (by decide) (by simp; omega)
    rw [slashed, bind_some, isSlashed.strcat_eq, strcpy_none ?_, bind_none]
    simp only [List.length_append, List.length_singleton]
    omega

/-- The terminator of the path is always written behind the end of `tmp`. -/
theorem realpath_never_agrees (cwd path : CStr) (plain : 0 ∉ cwd) :
    ¬ AgreesWithKernel cwd path := by
  intro agrees
  obtain ⟨_, _, called, _⟩ := agrees (fun _ => 0) (fun _ => 0) fun _ => 0
  rw [realpath_none plain] at called
  cases called

/-- `realpath("b", NULL)` in `/a` -/
theorem realpath_never_agrees_inside : 0 ∉ [47, 97] ∧ ¬ AgreesWithKernel [47, 97] [98] :=
  ⟨by decide, realpath_never_agrees [47, 97] [98] (by decide)⟩

/-- `realpath("a", NULL)` in `/` -/
theorem realpath_overruns_tmp : ¬ AgreesWithKernel [47] [97] := by
  intro agrees
  obtain ⟨_, _, called, _⟩ := agrees (fun _ => 0) (fun _ => 0) fun _ => 0
  cases called

end Micro.Libc
