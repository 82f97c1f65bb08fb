import Micro.Fs.Canonical

/-!
# Mount lookup

`vfs_getmnt` chooses the mount whose path has most characters in common with a path,
among those whose whole path is a start of it.  A start of the characters of a path need
not be a start of its components: `/dev` is a start of `/devices`.
-/

namespace Micro.Fs

open Kern List

variable {path start : CStr} {mounts : List Mount}

/-! ## The choice by characters -/

theorem commonLength_of_append (mount rest : CStr) :
    commonLength mount (mount ++ rest) = mount.length := by
  induction mount with
  | nil => simp [commonLength]
  | cons c mount ih => simp [commonLength, ih]

theorem getmntStep_eq (path : CStr) (candidate : Option Mount × Nat) (mount : Mount) :
    getmntStep path candidate mount =
      if candidate.2 < mount.path.length ∧ mount.path <+: path then (some mount, mount.path.length)
      else candidate := by
  simp only [getmntStep]
  by_cases isStart : mount.path <+: path
  · obtain ⟨_, isPath⟩ := isStart
    have fits : ¬ mount.path.length > path.length := by simp [← isPath]
    rw [if_neg fits, ← isPath, commonLength_of_append]
    simp
  · have notTaken : path.take (commonLength mount.path path) ≠ mount.path :=
      fun same => isStart (same ▸ take_prefix _ _)
    simp [isStart, notTaken]

/-- A candidate matches most characters of the mounts that have been looked at. -/
structure Best (path : CStr) (seen : List Mount) (candidate : Option Mount × Nat) : Prop where
  longest : ∀ mount ∈ seen, mount.path <+: path → mount.path.length ≤ candidate.2
  matched : ∀ mount, candidate.1 = some mount →
    mount ∈ seen ∧ mount.path <+: path ∧ candidate.2 = mount.path.length
  unmatched : candidate.1 = none → candidate.2 = 0

theorem Best.step {seen : List Mount} {candidate : Option Mount × Nat}
    (best : Best path seen candidate) (mount : Mount) :
    Best path (seen ++ [mount]) (getmntStep path candidate mount) := by
  rw [getmntStep_eq]
  split_ifs with better
  · constructor
    · refine forall_mem_append.mpr ⟨?_, forall_mem_singleton.mpr fun _ => Nat.le_refl _⟩
      intro other old isStart
      exact Nat.le_trans (best.longest other old isStart) (Nat.le_of_lt better.1)
    · simp [better.2]
    · intro none
      cases none
  · constructor
    · refine forall_mem_append.mpr ⟨best.longest, forall_mem_singleton.mpr fun isStart => ?_⟩
      exact Nat.le_of_not_lt fun longer => better ⟨longer, isStart⟩
    · intro chosen isChosen
      obtain ⟨old, rest⟩ := best.matched chosen isChosen
      exact ⟨mem_append_left _ old, rest⟩
    · exact best.unmatched

theorem getmnt_best (mounts : List Mount) (path : CStr) :
    Best path mounts (mounts.foldl (getmntStep path) (none, 0)) := by
  have fold : ∀ (mounts seen : List Mount) (candidate : Option Mount × Nat),
      Best path seen candidate →
      Best path (seen ++ mounts) (mounts.foldl (getmntStep path) candidate) := by
    intro mounts
    induction mounts with
    | nil => simp
    | cons mount mounts ih =>
      intro seen candidate best
      simpa using ih _ _ (best.step mount)
  apply fold mounts [] (none, 0)
  constructor
  · exact fun _ mem => absurd mem not_mem_nil
  · intro mount isMount
    cases isMount
  · exact fun _ => rfl

/-- `vfs_getmnt` answers with a mount whose path is the longest start of the path, or
there is none. -/
theorem vfsGetmnt_spec (proper : ∀ mount ∈ mounts, mount.path ≠ []) (path : CStr) :
    (∃ mount ∈ mounts, mount.path <+: path ∧
      (∀ other ∈ mounts, other.path <+: path → other.path.length ≤ mount.path.length) ∧
      vfsGetmnt mounts path = .ok (mount.file, path.drop mount.path.length)) ∨
    ((∀ mount ∈ mounts, ¬ mount.path <+: path) ∧ vfsGetmnt mounts path = .error (-enoent)) := by
  have best := getmnt_best mounts path
  simp only [vfsGetmnt]
  generalize mounts.foldl (getmntStep path) (none, 0) = candidate at best ⊢
  obtain ⟨chosen, i⟩ := candidate
  cases chosen with
  | none =>
    right
    refine ⟨fun mount mem isStart => proper mount mem ?_, rfl⟩
    have short := best.longest mount mem isStart
    rw [best.unmatched rfl] at short
    exact length_eq_zero_iff.mp (Nat.le_zero.mp short)
  | some mount =>
    left
    obtain ⟨mem, isStart, isLength⟩ := best.matched mount rfl
    subst isLength
    exact ⟨mount, mem, isStart, best.longest, rfl⟩

theorem vfsGetmnt_mem {relat : CStr} {file : Inode}
    (answer : vfsGetmnt mounts path = .ok (file, relat)) : ∃ mount ∈ mounts, mount.file = file := by
  have best := getmnt_best mounts path
  simp only [vfsGetmnt] at answer
  generalize mounts.foldl (getmntStep path) (none, 0) = candidate at best answer
  obtain ⟨chosen, i⟩ := candidate
  cases chosen with
  | none => cases answer
  | some mount =>
    cases answer
    exact ⟨mount, (best.matched mount rfl).1, rfl⟩

/-! ## Characters and components -/

variable {components more : List CStr}

theorem canonPath_ne_nil (components : List CStr) : canonPath components ≠ [] := by
  intro none
  have head := canonPath_head components
  simp [none] at head

theorem canonPath_isPrefix : canonPath components <+: canonPath (components ++ more) := by
  cases components with
  | nil =>
    cases more with
    | nil => exact prefix_rfl
    | cons name more => simp [canonPath]
  | cons name components =>
    rw [cons_append, canonPath_cons, canonPath_cons, ← cons_append, joinPath_append]
    exact prefix_append _ _

section

variable (valid : ∀ name ∈ components ++ more, Component name)
include valid

theorem pathTokens_drop :
    pathTokens ((canonPath (components ++ more)).drop (canonPath components).length) = more := by
  have validMore : ∀ name ∈ more, Component name :=
    fun name mem => valid name (mem_append_right _ mem)
  cases components with
  | nil =>
    cases more with
    | nil => rfl
    | cons name more =>
      exact (congrArg pathTokens drop_one).trans (pathTokens_tail validMore)
  | cons name components =>
    rw [cons_append, canonPath_cons, canonPath_cons, ← cons_append, joinPath_append, drop_left]
    exact pathTokens_join validMore

theorem canonPath_length (extra : more ≠ []) :
    (canonPath components).length < (canonPath (components ++ more)).length := by
  obtain ⟨name, _, isMore⟩ := exists_cons_of_ne_nil extra
  subst isMore
  have nonempty := length_pos_iff.mpr (valid name (by simp)).nonempty
  cases components with
  | nil =>
    simp only [nil_append, canonPath_cons, joinPath_cons, length_cons, length_append]
    simp only [canonPath, if_true, length_singleton]
    omega
  | cons _ components =>
    rw [cons_append, canonPath_cons, canonPath_cons, ← cons_append, joinPath_append, joinPath_cons name]
    simp only [length_cons, length_append]
    omega

end

theorem canonPath_last (valid : ∀ name ∈ components, Component name) {rest : CStr}
    (isPath : canonPath components = start ++ rest) (nonempty : start ≠ []) (extra : rest ≠ []) :
    ∃ c ∈ rest, c ≠ 47 := by
  rcases eq_nil_or_concat components with none | ⟨first, last, isConcat⟩
  · subst none
    have lengths := congrArg length isPath
    have startLength := length_pos_iff.mpr nonempty
    have restLength := length_pos_iff.mpr extra
    simp only [canonPath, if_true, length_singleton, length_append] at lengths
    omega
  · rw [concat_eq_append] at isConcat
    subst isConcat
    have component := valid last (by simp)
    have isJoin : canonPath (first ++ [last]) = joinPath (first ++ [last]) := by simp [canonPath]
    obtain ⟨c, isLast⟩ := Option.isSome_iff_exists.mp (getLast?_isSome.mpr component.nonempty)
    have ofLast : (start ++ rest).getLast? = some c := by
      rw [← isPath, isJoin, joinPath_append, joinPath_cons, joinPath_nil, append_nil,
        getLast?_append, getLast?_cons, isLast]
      rfl
    have ofRest : rest.getLast? = some c := by
      rw [getLast?_append] at ofLast
      obtain ⟨d, isSome⟩ := Option.isSome_iff_exists.mp (getLast?_isSome.mpr extra)
      rw [isSome] at ofLast ⊢
      exact ofLast
    refine ⟨c, mem_of_getLast? ofRest, fun slash => component.noSlash ?_⟩
    exact slash ▸ mem_of_getLast? isLast

theorem canonPath_unique {left right : List CStr} (validLeft : ∀ name ∈ left, Component name)
    (validRight : ∀ name ∈ right, Component name) (leftStart : canonPath left <+: path)
    (rightStart : canonPath right <+: path) (same : left.flatten.length = right.flatten.length) :
    canonPath left = canonPath right := by
  -- Nothing but slashes can be between the two.
  have between : ∀ {shorter longer : List CStr}, (∀ name ∈ shorter, Component name) →
      (∀ name ∈ longer, Component name) → shorter.flatten.length = longer.flatten.length →
      canonPath shorter <+: canonPath longer → canonPath shorter = canonPath longer := by
    intro shorter longer validShorter validLonger _ isStart
    obtain ⟨rest, isLonger⟩ := isStart
    by_cases done : rest = []
    · rw [← isLonger, done, append_nil]
    · obtain ⟨c, mem, plain⟩ :=
        canonPath_last validLonger isLonger.symm (canonPath_ne_nil shorter) done
      have characters := congrArg (fun s => (filter (· != 47) s).length) isLonger
      simp only [filter_append, length_append, ← pathTokens_flatten,
        pathTokens_canonPath validShorter, pathTokens_canonPath validLonger]
        at characters
      have inRest : c ∈ (pathTokens rest).flatten := by
        rw [pathTokens_flatten]
        simp [mem, plain]
      have := length_pos_of_mem inRest
      omega
  rcases prefix_or_prefix_of_prefix leftStart rightStart with below | above
  · exact between validLeft validRight same below
  · exact (between validRight validLeft same.symm above).symm

/-! ## Lookup by components -/

/-- What a lookup by components answers: a mount with the longest list of components that
starts the path's, and a relative path with the remaining ones; `-ENOENT` if there is
none. -/
def LookedUp (mounts : List Mount) (path : CStr) : Except Int (Inode × CStr) → Prop
  | .ok (file, relat) =>
      ∃ mount ∈ mounts, mount.file = file ∧
        pathTokens mount.path ++ pathTokens relat = pathTokens path ∧
        ∀ other ∈ mounts, pathTokens other.path <+: pathTokens path →
          (pathTokens other.path).length ≤ (pathTokens mount.path).length
  | .error e => e = -enoent ∧ ∀ mount ∈ mounts, ¬ pathTokens mount.path <+: pathTokens path

/-- A mount whose path starts the path, but ends inside a component of it, is shorter than
a mount whose components start the path's. -/
def Outweighed (mounts : List Mount) (path : CStr) : Prop :=
  ∀ mount ∈ mounts, mount.path <+: path → ¬ pathTokens mount.path <+: pathTokens path →
    ∃ other ∈ mounts, pathTokens other.path <+: pathTokens path ∧
      mount.path.length < other.path.length

instance (mounts : List Mount) (path : CStr) : Decidable (Outweighed mounts path) :=
  inferInstanceAs (Decidable (∀ mount ∈ mounts, mount.path <+: path →
    ¬ pathTokens mount.path <+: pathTokens path →
    ∃ other ∈ mounts, pathTokens other.path <+: pathTokens path ∧
      mount.path.length < other.path.length))

section Canonical

theorem Canonical.isPrefix (canonicalStart : Canonical start) (canonical : Canonical path)
    (isStart : pathTokens start <+: pathTokens path) : start <+: path := by
  obtain ⟨_, isPath⟩ := isStart
  rw [canonicalStart.eq_canonPath, canonical.eq_canonPath, ← isPath]
  exact canonPath_isPrefix

/-- Of two mounts whose components start the path's, the one with more characters has more
components. -/
theorem components_le {other : CStr} (canonicalStart : Canonical start)
    (canonicalOther : Canonical other) (isStart : pathTokens start <+: pathTokens path)
    (otherStart : pathTokens other <+: pathTokens path) (shorter : other.length ≤ start.length) :
    (pathTokens other).length ≤ (pathTokens start).length := by
  apply Nat.le_of_not_lt
  intro longer
  obtain ⟨more, isOther⟩ := prefix_of_prefix_length_le isStart otherStart (Nat.le_of_lt longer)
  have extra : more ≠ [] := by
    intro none
    simp [← isOther, none] at longer
  have lengths := canonPath_length (isOther ▸ canonicalOther.components) extra
  rw [isOther, ← canonicalStart.eq_canonPath, ← canonicalOther.eq_canonPath] at lengths
  omega

/-- `vfs_getmnt` looks up by components exactly when every mount that ends inside a
component is outweighed. -/
theorem getmnt_by_components_iff (canonicalMounts : ∀ mount ∈ mounts, Canonical mount.path)
    (canonical : Canonical path) :
    LookedUp mounts path (vfsGetmnt mounts path) ↔ Outweighed mounts path := by
  have proper : ∀ mount ∈ mounts, mount.path ≠ [] := by
    intro mount member
    rw [(canonicalMounts mount member).eq_canonPath]
    exact canonPath_ne_nil _
  rcases vfsGetmnt_spec proper path with ⟨mount, member, isStart, longest, answer⟩ | ⟨none, answer⟩
  · rw [answer]
    have canonicalMount := canonicalMounts mount member
    constructor
    · rintro ⟨chosen, chosenMember, _, splits, _⟩
      have canonicalChosen := canonicalMounts chosen chosenMember
      have chosenStart : pathTokens chosen.path <+: pathTokens path := ⟨_, splits⟩
      -- Both leave as many characters of components.
      have characters := congrArg (fun parts : List CStr => parts.flatten.length) splits
      have ofPath := congrArg (fun s : CStr => (s.filter (· != 47)).length)
        (prefix_iff_eq_append.mp isStart)
      simp only [flatten_append, length_append, filter_append,
        ← pathTokens_flatten] at characters ofPath
      have same := canonPath_unique canonicalChosen.components canonicalMount.components
        (canonicalChosen.eq_canonPath ▸ canonicalChosen.isPrefix canonical chosenStart)
        (canonicalMount.eq_canonPath ▸ isStart) (by omega)
      rw [← canonicalChosen.eq_canonPath, ← canonicalMount.eq_canonPath] at same
      intro inside insideMember insideStart notComponents
      refine ⟨chosen, chosenMember, chosenStart, ?_⟩
      apply Nat.lt_of_le_of_ne
      · exact same ▸ longest inside insideMember insideStart
      · intro sameLength
        apply notComponents
        have equal := (prefix_of_prefix_length_le insideStart (same ▸ isStart)
          (Nat.le_of_eq sameLength)).eq_of_length sameLength
        rw [equal]
        exact chosenStart
    · intro outweighed
      have components : pathTokens mount.path <+: pathTokens path := by
        apply Classical.byContradiction
        intro inside
        obtain ⟨other, otherMember, otherStart, longer⟩ := outweighed mount member isStart inside
        exact Nat.not_lt.mpr (longest other otherMember
          ((canonicalMounts other otherMember).isPrefix canonical otherStart)) longer
      refine ⟨mount, member, rfl, ?_, fun other otherMember otherStart => ?_⟩
      · obtain ⟨_, isPath⟩ := components
        have left := pathTokens_drop (isPath ▸ canonical.components)
        rw [isPath, ← canonical.eq_canonPath, ← canonicalMount.eq_canonPath] at left
        rw [left, isPath]
      · exact components_le canonicalMount (canonicalMounts other otherMember) components
          otherStart (longest other otherMember
            ((canonicalMounts other otherMember).isPrefix canonical otherStart))
  · rw [answer]
    constructor
    · exact fun _ mount member isStart => absurd isStart (none mount member)
    · exact fun _ => ⟨rfl, fun mount member components =>
        none mount member ((canonicalMounts mount member).isPrefix canonical components)⟩

end Canonical

def rootAndDev : List Mount :=
  [{ path := [47], file := { inode := 2 } }, { path := [47, 100, 101, 118], file := { inode := 1 } }]

theorem rootAndDev_canonical : ∀ mount ∈ rootAndDev, Canonical mount.path := by
  intro mount mem
  simp only [rootAndDev, mem_cons, not_mem_nil, or_false] at mem
  rcases mem with root | dev
  · exact ⟨[], by simp, by rw [root]; rfl⟩
  · exact ⟨[[100, 101, 118]], by decide, by rw [dev]; rfl⟩

/-- `/dev/tty` is below the mount on `/dev`. -/
theorem getmnt_by_components_dev_tty :
    LookedUp rootAndDev [47, 100, 101, 118, 47, 116, 116, 121]
      (vfsGetmnt rootAndDev [47, 100, 101, 118, 47, 116, 116, 121]) := by
  apply (getmnt_by_components_iff rootAndDev_canonical ?_).mpr
  · decide +kernel
  · exact ⟨[[100, 101, 118], [116, 116, 121]], by decide, rfl⟩

/-- `/devx` is in the root file system, and is looked up as `x` in the one on `/dev`. -/
theorem getmnt_devx_in_dev :
    Canonical [47, 100, 101, 118, 120] ∧
      ¬ LookedUp rootAndDev [47, 100, 101, 118, 120]
        (vfsGetmnt rootAndDev [47, 100, 101, 118, 120]) := by
  constructor
  · exact ⟨[[100, 101, 118, 120]], by decide, rfl⟩
  · rintro ⟨mount, _, _, splits, _⟩
    revert mount
    decide +kernel

end Micro.Fs
