import Micro.Fs.Tokens

/-!
# Canonical paths

The components of a path are the tokens `strtok_r` cuts it into at `/`.  A canonical
path is one `vfs_mkcanon` can return: a `/` before each component, or a single `/`, and
no component is empty, `.` or `..`.
-/

namespace Micro.Fs

open Kern List

variable {path s : CStr}

/-! ## Tokens -/

/-- `strtok_r` at `/`: skip slashes, cut at the next one, and leave it behind. -/
theorem strtokR_slash (s : CStr) :
    strtokR s [47] =
      if s.dropWhile (· == 47) = [] then (none, [])
      else (some ((s.dropWhile (· == 47)).takeWhile (· != 47)),
        ((s.dropWhile (· == 47)).dropWhile (· != 47)).tail) := by
  have same : (fun c : UInt8 => decide (c ∉ [47])) = (· != 47) := by
    simp [bne, Bool.beq_eq_decide_eq]
  rw [strtokR_cons, same]

theorem strtokAll_slash (fuel : Nat) (s : CStr) :
    strtokAll [47] fuel (47 :: s) = strtokAll [47] fuel s := by
  cases fuel with
  | zero => rfl
  | succ fuel => simp [strtokAll, strtokR_slash]

theorem strtokAll_fuel {fuel : Nat} {s : CStr} (enough : s.length < fuel) :
    strtokAll [47] (fuel + 1) s = strtokAll [47] fuel s := by
  induction fuel generalizing s with
  | zero => cases enough
  | succ fuel ih =>
    have skips := length_dropWhile_le (· == 47) s
    rw [strtokAll, strtokAll, strtokR_slash]
    generalize s.dropWhile (· == 47) = left at skips ⊢
    by_cases done : left = []
    · simp [done]
    · have cut := length_dropWhile_le (· != 47) left
      have nonempty := length_pos_iff.mpr done
      rw [if_neg done]
      simp only [cons.injEq, true_and]
      apply ih
      simp only [length_tail]
      omega

theorem pathTokens_slash (s : CStr) : pathTokens (47 :: s) = pathTokens s := by
  rw [pathTokens, strtokAll_slash]
  exact strtokAll_fuel (Nat.lt_succ_self _)

/-- A component of a canonical path. -/
structure Component (name : CStr) : Prop where
  nonempty : name ≠ []
  noSlash : 47 ∉ name
  notDot : name ≠ [46]
  notDotDot : name ≠ [46, 46]

instance (name : CStr) : Decidable (Component name) :=
  decidable_of_iff (name ≠ [] ∧ 47 ∉ name ∧ name ≠ [46] ∧ name ≠ [46, 46])
    ⟨fun ⟨a, b, c, d⟩ => ⟨a, b, c, d⟩, fun ⟨a, b, c, d⟩ => ⟨a, b, c, d⟩⟩

/-- A slash before each component. -/
def joinPath (components : List CStr) : CStr := components.flatMap fun name => 47 :: name

section

variable {components : List CStr}

@[simp] theorem joinPath_nil : joinPath [] = [] := rfl

@[simp] theorem joinPath_cons (name : CStr) (components : List CStr) :
    joinPath (name :: components) = 47 :: (name ++ joinPath components) := by
  simp [joinPath]

@[simp] theorem joinPath_append (components more : List CStr) :
    joinPath (components ++ more) = joinPath components ++ joinPath more := by
  simp [joinPath]

theorem strtokR_component {name : CStr} (component : Component name) (components : List CStr) :
    strtokR (name ++ joinPath components) [47] = (some name, (joinPath components).tail) := by
  obtain ⟨nonempty, noSlash, _, _⟩ := component
  obtain ⟨c, _, isName⟩ := exists_cons_of_ne_nil nonempty
  have skips : (name ++ joinPath components).dropWhile (· == 47) = name ++ joinPath components := by
    subst isName
    simp only [mem_cons, not_or] at noSlash
    simp [Ne.symm noSlash.1]
  have plain : ∀ c ∈ name, (c != 47) = true := by
    intro c mem
    simp only [bne_iff_ne]
    exact fun slash => noSlash (slash ▸ mem)
  have ends : (joinPath components).takeWhile (· != 47) = [] ∧
      (joinPath components).dropWhile (· != 47) = joinPath components := by
    cases components <;> simp
  rw [strtokR_slash, skips, if_neg (by simp [nonempty]),
    takeWhile_append_of_pos plain, dropWhile_append_of_pos plain, ends.1, ends.2,
    append_nil]

theorem strtokAll_tail (fuel : Nat) (components : List CStr) :
    strtokAll [47] fuel (joinPath components).tail = strtokAll [47] fuel (joinPath components) := by
  cases components with
  | nil => rfl
  | cons _ components => rw [joinPath_cons, strtokAll_slash, tail_cons]

theorem length_le_joinPath (components : List CStr) :
    components.length ≤ (joinPath components).length := by
  induction components with
  | nil => simp
  | cons _ components _ =>
    simp only [joinPath_cons, length_cons, length_append]
    omega

section

variable (valid : ∀ name ∈ components, Component name)
include valid

theorem strtokAll_join :
    ∀ {fuel : Nat}, components.length < fuel →
      strtokAll [47] fuel (joinPath components) = components := by
  induction components with
  | nil =>
    intro fuel enough
    cases fuel with
    | zero => rfl
    | succ fuel => rfl
  | cons name components ih =>
    intro fuel enough
    obtain ⟨component, others⟩ := forall_mem_cons.mp valid
    cases fuel with
    | zero => cases enough
    | succ fuel =>
      rw [joinPath_cons, strtokAll_slash, strtokAll, strtokR_component component]
      simp only [strtokAll_tail]
      rw [ih others (Nat.lt_of_succ_lt_succ enough)]

theorem pathTokens_join : pathTokens (joinPath components) = components :=
  strtokAll_join valid (Nat.lt_succ_of_le (length_le_joinPath components))

theorem pathTokens_tail : pathTokens (joinPath components).tail = components := by
  cases components with
  | nil => rfl
  | cons name components =>
    rw [← pathTokens_slash]
    exact pathTokens_join valid

end

theorem filter_dropWhile_slash (s : CStr) :
    (s.dropWhile (· == 47)).filter (· != 47) = s.filter (· != 47) := by
  induction s with
  | nil => rfl
  | cons c _ ih =>
    by_cases slash : c = 47
    · simp [slash, ih]
    · simp [slash]

theorem takeWhile_append_filter (s : CStr) :
    s.takeWhile (· != 47) ++ (s.dropWhile (· != 47)).tail.filter (· != 47) =
      s.filter (· != 47) := by
  induction s with
  | nil => rfl
  | cons c _ ih =>
    by_cases slash : c = 47
    · simp [slash]
    · simp [slash, ih]

theorem strtokAll_flatten {fuel : Nat} {s : CStr} (enough : s.length < fuel) :
    (strtokAll [47] fuel s).flatten = s.filter (· != 47) := by
  induction fuel generalizing s with
  | zero => cases enough
  | succ fuel ih =>
    have shorter := length_dropWhile_le (· == 47) s
    rw [strtokAll, strtokR_slash, ← filter_dropWhile_slash]
    generalize s.dropWhile (· == 47) = left at shorter ⊢
    by_cases done : left = []
    · simp [done]
    · have rest := length_dropWhile_le (· != 47) left
      have nonempty := length_pos_iff.mpr done
      rw [if_neg done]
      simp only [flatten_cons]
      rw [ih, takeWhile_append_filter]
      simp only [length_tail]
      omega

theorem pathTokens_flatten (s : CStr) : (pathTokens s).flatten = s.filter (· != 47) :=
  strtokAll_flatten (Nat.lt_succ_self _)

/-! ## Canonical paths -/

def canonPath (components : List CStr) : CStr :=
  if components = [] then [47] else joinPath components

def Canonical (path : CStr) : Prop :=
  ∃ components, (∀ name ∈ components, Component name) ∧ path = canonPath components

theorem canonPath_cons (name : CStr) (components : List CStr) :
    canonPath (name :: components) = joinPath (name :: components) := by
  simp [canonPath]

theorem canonPath_head (components : List CStr) : (canonPath components).head? = some 47 := by
  cases components <;> simp [canonPath]

theorem pathTokens_canonPath (valid : ∀ name ∈ components, Component name) :
    pathTokens (canonPath components) = components := by
  cases components with
  | nil => rfl
  | cons name components => exact pathTokens_join valid

end

theorem Canonical.components (canonical : Canonical path) :
    ∀ name ∈ pathTokens path, Component name := by
  obtain ⟨_, valid, isPath⟩ := canonical
  rw [isPath, pathTokens_canonPath valid]
  exact valid

theorem Canonical.eq_canonPath (canonical : Canonical path) :
    path = canonPath (pathTokens path) := by
  obtain ⟨_, valid, isPath⟩ := canonical
  rw [isPath, pathTokens_canonPath valid]

theorem strtokAll_plain {fuel : Nat} {name : CStr} (mem : name ∈ strtokAll [47] fuel s) :
    name ≠ [] ∧ 47 ∉ name := by
  induction fuel generalizing s name with
  | zero => cases mem
  | succ fuel ih =>
    rw [strtokAll, strtokR_slash] at mem
    by_cases done : s.dropWhile (· == 47) = []
    · simp [done] at mem
    · rw [if_neg done] at mem
      rcases mem_cons.mp mem with first | later
      · obtain ⟨c, _, starts⟩ := exists_cons_of_ne_nil done
        have plain : c ≠ 47 := by
          intro slash
          have notSlash := head?_dropWhile_not (· == 47) s
          simp [starts, slash] at notSlash
        rw [first, starts]
        constructor
        · simp [plain]
        · intro slash
          simpa using mem_takeWhile_imp slash
      · exact ih later

/-! ## Components

What a canonical path stands for, without tokens: the parts between the slashes, one after the
other, are pushed on a stack of directories.
-/
/-- A part of a path on the stack of the directories above it. -/
def pushComponent (stack : List CStr) : CStr → List CStr
  | [] => stack
  | [46] => stack
  | [46, 46] => stack.dropLast
  | name => stack ++ [name]

/-- The directories a path goes through from the root. -/
def canonStack (path : CStr) : List CStr := (path.splitOn 47).foldl pushComponent []

theorem mkcanonStep_eq (stack : List CStr) (name : CStr) :
    mkcanonStep stack name = pushComponent stack name := by
  unfold pushComponent
  split
  · rfl
  · rfl
  · rfl
  · rename_i notEmpty notDot notDotDot
    simp only [mkcanonStep]
    rw [if_neg (not_or.mpr ⟨notEmpty, notDot⟩), if_neg notDotDot]

theorem strtokAll_pathTokens {fuel : Nat} (enough : s.length < fuel) :
    strtokAll [47] fuel s = pathTokens s := by
  induction fuel, enough using Nat.le_induction with
  | base => rfl
  | succ fuel enough ih => rw [strtokAll_fuel enough, ih]

theorem pathTokens_token {left : CStr} (isLeft : s.dropWhile (· == 47) = left)
    (nonempty : left ≠ []) :
    pathTokens s = left.takeWhile (· != 47) :: pathTokens (left.dropWhile (· != 47)).tail := by
  have skips := length_dropWhile_le (· == 47) s
  have cut := length_dropWhile_le (· != 47) left
  have positive := length_pos_iff.mpr nonempty
  rw [isLeft] at skips
  have shorter : (left.dropWhile (· != 47)).tail.length < s.length := by
    rw [length_tail]
    omega
  rw [pathTokens, strtokAll, strtokR_slash, isLeft, if_neg nonempty]
  simp only [strtokAll_pathTokens shorter]

theorem pathTokens_splitOn (s : CStr) : pathTokens s = (s.splitOn 47).filter (· != []) := by
  induction length : s.length using Nat.strong_induction_on generalizing s with
  | _ n ih =>
    subst length
    cases s with
    | nil => rfl
    | cons c rest =>
      by_cases slash : c = 47
      · subst slash
        rw [pathTokens_slash, ih rest.length (Nat.lt_succ_self _) rest rfl]
        rfl
      · have isLeft : (c :: rest).dropWhile (· == 47) = c :: rest := by simp [slash]
        rw [pathTokens_token isLeft (cons_ne_nil _ _)]
        have parts := @List.takeWhile_append_dropWhile _ (· != 47) (c :: rest)
        have noSlash : 47 ∉ (c :: rest).takeWhile (· != 47) := by
          intro mem
          simpa using mem_takeWhile_imp mem
        have notEmpty : (c :: rest).takeWhile (· != 47) ≠ [] := by simp [slash]
        generalize (c :: rest).takeWhile (· != 47) = name at parts noSlash notEmpty ⊢
        cases behind : (c :: rest).dropWhile (· != 47) with
        | nil =>
          rw [behind, append_nil] at parts
          rw [← parts, splitOn_eq_singleton noSlash]
          simp [notEmpty, pathTokens, strtokAll, strtokR]
        | cons d more =>
          have isSlash : d = 47 := by
            have first := head?_dropWhile_not (· != 47) (c :: rest)
            simpa [behind] using first
          subst isSlash
          rw [behind] at parts
          have shorter : more.length < (c :: rest).length := by
            rw [← parts, length_append, length_cons]
            omega
          rw [← parts, splitOn_append_cons_self_of_not_mem noSlash, tail_cons,
            ih more.length shorter more rfl]
          simp [notEmpty]

theorem canonStack_eq (path : CStr) : (pathTokens path).foldl mkcanonStep [] = canonStack path := by
  have same : ∀ (parts stack : List CStr), (parts.filter (· != [])).foldl mkcanonStep stack =
      parts.foldl pushComponent stack := by
    intro parts
    induction parts with
    | nil => exact fun _ => rfl
    | cons part parts ih =>
      intro stack
      cases part with
      | nil => exact ih stack
      | cons c part =>
        rw [filter_cons_of_pos rfl, foldl_cons, foldl_cons, mkcanonStep_eq, ih]
  rw [pathTokens_splitOn, same]
  rfl

/-! ## Lengths -/

theorem length_joinPath_splitOn (s : CStr) : (joinPath (s.splitOn 47)).length = s.length + 1 := by
  induction s with
  | nil => rfl
  | cons c rest ih =>
    rw [splitOn_cons_eq_if_modifyHead]
    by_cases slash : c = 47
    · rw [if_pos (beq_iff_eq.mpr slash), joinPath_cons, length_cons, nil_append, ih, length_cons]
    · rw [if_neg (by simp [slash])]
      cases split : rest.splitOn 47 with
      | nil => exact absurd split (splitOn_ne_nil _ _)
      | cons _ _ =>
        rw [split, joinPath_cons] at ih
        rw [modifyHead_cons, joinPath_cons]
        simp only [length_cons, length_append] at ih ⊢
        omega

theorem length_pushComponent (stack : List CStr) (name : CStr) :
    (joinPath (pushComponent stack name)).length ≤ (joinPath stack).length + (name.length + 1) := by
  unfold pushComponent
  split
  · exact Nat.le_add_right _ _
  · exact Nat.le_add_right _ _
  · have parts : joinPath stack =
        joinPath stack.dropLast ++ joinPath (stack.drop (stack.length - 1)) := by
      rw [dropLast_eq_take, ← joinPath_append, take_append_drop]
    rw [parts, length_append]
    omega
  · simp

theorem length_canonStack (rooted : path.head? = some 47) :
    (joinPath (canonStack path)).length ≤ path.length := by
  have bound : ∀ (parts stack : List CStr), (joinPath (parts.foldl pushComponent stack)).length ≤
      (joinPath stack).length + (joinPath parts).length := by
    intro parts
    induction parts with
    | nil => exact fun _ => Nat.le_refl _
    | cons part parts ih =>
      intro stack
      have rest := ih (pushComponent stack part)
      have first := length_pushComponent stack part
      simp only [foldl_cons, joinPath_cons, length_cons, length_append]
      omega
  cases path with
  | nil => cases rooted
  | cons c rest =>
    cases rooted
    have parts := bound (rest.splitOn 47) []
    rw [length_joinPath_splitOn, joinPath_nil, length_nil, Nat.zero_add] at parts
    exact parts

theorem mkcanonStep_valid {tokens : List CStr} {token : CStr}
    (valid : ∀ name ∈ tokens, Component name) (plain : token ≠ [] ∧ 47 ∉ token) :
    ∀ name ∈ mkcanonStep tokens token, Component name := by
  rw [mkcanonStep]
  split
  · exact valid
  · rename_i skip
    split
    · exact fun name mem => valid name (dropLast_subset tokens mem)
    · rename_i up
      exact forall_mem_append.mpr ⟨valid, forall_mem_singleton.mpr
        ⟨plain.1, plain.2, fun dot => skip (.inr dot), up⟩⟩

theorem canonStack_valid (path : CStr) : ∀ name ∈ canonStack path, Component name := by
  have fold : ∀ (tokens kept : List CStr), (∀ name ∈ kept, Component name) →
      (∀ token ∈ tokens, token ≠ [] ∧ 47 ∉ token) →
      ∀ name ∈ tokens.foldl mkcanonStep kept, Component name := by
    intro tokens
    induction tokens with
    | nil => exact fun _ valid _ => valid
    | cons token tokens ih =>
      intro kept valid plain
      obtain ⟨plainFirst, plainRest⟩ := forall_mem_cons.mp plain
      exact ih _ (mkcanonStep_valid valid plainFirst) plainRest
  rw [← canonStack_eq]
  exact fold _ [] (fun _ mem => absurd mem not_mem_nil) fun _ => strtokAll_plain

theorem canonStack_canonPath {components : List CStr}
    (valid : ∀ name ∈ components, Component name) :
    canonStack (canonPath components) = components := by
  have fold : ∀ (rest stack : List CStr), (∀ name ∈ rest, Component name) →
      rest.foldl mkcanonStep stack = stack ++ rest := by
    intro rest
    induction rest with
    | nil => exact fun stack _ => (append_nil stack).symm
    | cons name rest ih =>
      intro stack valid
      obtain ⟨component, others⟩ := forall_mem_cons.mp valid
      have pushed : mkcanonStep stack name = stack ++ [name] := by
        simp only [mkcanonStep]
        rw [if_neg (not_or.mpr ⟨component.nonempty, component.notDot⟩), if_neg component.notDotDot]
      rw [foldl_cons, pushed, ih _ others, append_assoc, singleton_append]
  rw [← canonStack_eq, pathTokens_canonPath valid, fold _ _ valid, nil_append]

end Micro.Fs
