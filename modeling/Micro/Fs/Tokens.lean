import Mathlib.Data.List.TakeWhile
import Micro.Fs.Path

/-!
# Tokens

`strtok_r` cuts a string at the characters of a set.  Of those in front of a token it skips only
the ones that are the first of the set, so that another one there ends an empty token.  The kernel
and the libc have the same functions.
-/

namespace Micro.Fs

open Kern List

variable {d : UInt8} {delim : CStr}

theorem drop_strspn (s : CStr) : s.drop (strspn (d :: delim) s) = s.dropWhile (· == d) := by
  induction s with
  | nil => rfl
  | cons c _ ih =>
    by_cases same : c = d
    · simp [strspn, same, ih]
    · simp [strspn, same]

theorem take_strcspn (s : CStr) : s.take (strcspn delim s) = s.takeWhile (· ∉ delim) := by
  induction s with
  | nil => rfl
  | cons c _ ih =>
    by_cases mem : c ∈ delim
    · simp [strcspn, mem]
    · simp [strcspn, mem, ih]

theorem drop_strcspn (s : CStr) : s.drop (strcspn delim s) = s.dropWhile (· ∉ delim) := by
  induction s with
  | nil => rfl
  | cons c _ ih =>
    by_cases mem : c ∈ delim
    · simp [strcspn, mem]
    · simp [strcspn, mem, ih]

theorem strtokR_cons (s : CStr) :
    strtokR s (d :: delim) =
      if s.dropWhile (· == d) = [] then (none, [])
      else (some ((s.dropWhile (· == d)).takeWhile (· ∉ d :: delim)),
        ((s.dropWhile (· == d)).dropWhile (· ∉ d :: delim)).tail) := by
  simp only [strtokR, drop_strspn, take_strcspn, ← drop_drop, drop_strcspn, drop_one]

/-! ## Runs -/

/-- The longest runs of characters that are not delimiters. -/
def runs (delim s : CStr) : List CStr := (s.splitOnP (· ∈ delim)).filter (· ≠ [])

/-- The iteration yields the runs, and then it has ended. -/
def Tokenises (delim s : CStr) : Prop :=
  ∀ fuel, s.length < fuel → strtokAll delim fuel s = runs delim s

/-- Every delimiter but the first of the set stands behind another character; `behind` tells this of
the first character. -/
def Separated (delim : CStr) : (behind : Bool) → CStr → Prop
  | _, [] => True
  | behind, c :: s =>
      (c ∈ delim → delim.head? = some c ∨ behind = true) ∧ Separated delim (c ∉ delim) s

theorem runs_skip (s : CStr) : runs (d :: delim) (s.dropWhile (· == d)) = runs (d :: delim) s := by
  induction s with
  | nil => rfl
  | cons c s ih =>
    by_cases same : c = d
    · simp only [same, beq_self_eq_true, dropWhile_cons_of_pos, ih]
      simp [runs, splitOnP_cons_eq_if_modifyHead]
    · simp [same]

theorem separated_skip (s : CStr) :
    Separated (d :: delim) false (s.dropWhile (· == d)) ↔ Separated (d :: delim) false s := by
  induction s with
  | nil => rfl
  | cons c s ih =>
    by_cases same : c = d
    · simp [same, Separated, ih]
    · simp [same]

theorem splitOnP_token (s : CStr) : ∃ parts,
    s.splitOnP (· ∈ delim) = s.takeWhile (· ∉ delim) :: parts ∧
    parts.filter (· ≠ []) = runs delim (s.dropWhile (· ∉ delim)).tail := by
  induction s with
  | nil => exact ⟨[], rfl, rfl⟩
  | cons c s ih =>
    by_cases mem : c ∈ delim
    · exact ⟨s.splitOnP (· ∈ delim), by simp [splitOnP_cons_eq_if_modifyHead, mem],
        by simp [mem, runs]⟩
    · obtain ⟨parts, isSplit, isRuns⟩ := ih
      exact ⟨parts, by simp [splitOnP_cons_eq_if_modifyHead, mem, isSplit],
        by simpa [mem] using isRuns⟩

theorem separated_token (s : CStr) :
    Separated delim true s ↔ Separated delim false (s.dropWhile (· ∉ delim)).tail := by
  induction s with
  | nil => rfl
  | cons c s ih =>
    by_cases mem : c ∈ delim
    · simp [mem, Separated]
    · simp [mem, Separated, ih]

theorem strtokAll_iff {fuel : Nat} {s : CStr} (enough : s.length < fuel) :
    strtokAll (d :: delim) fuel s = runs (d :: delim) s ↔ Separated (d :: delim) false s := by
  induction fuel generalizing s with
  | zero => cases enough
  | succ fuel ih =>
    have skips := length_dropWhile_le (· == d) s
    have notFirst := head?_dropWhile_not (· == d) s
    rw [strtokAll, strtokR_cons, ← runs_skip, ← separated_skip]
    generalize s.dropWhile (· == d) = left at skips notFirst ⊢
    cases left with
    | nil => simp [runs, Separated]
    | cons c left =>
      have differs : c ≠ d := by simpa using notFirst
      rw [if_neg (cons_ne_nil c left)]
      by_cases mem : c ∈ delim
      · -- an empty token, which is no run
        have isEmpty : (c :: left).takeWhile (· ∉ d :: delim) = [] := by simp [mem]
        have noRun : [] ∉ runs (d :: delim) (c :: left) := by simp [runs]
        refine iff_of_false ?_ (by simp [Separated, mem, Ne.symm differs])
        intro same
        rw [← same, isEmpty] at noRun
        exact noRun mem_cons_self
      · obtain ⟨_, isSplit, isRuns⟩ := @splitOnP_token (d :: delim) (c :: left)
        have notEmpty : (c :: left).takeWhile (· ∉ d :: delim) ≠ [] := by simp [differs, mem]
        have isToken : Separated (d :: delim) false (c :: left) ↔
            Separated (d :: delim) true (c :: left) := by
          simp [Separated, differs, mem]
        have cut := length_dropWhile_le (· ∉ d :: delim) (c :: left)
        rw [isToken, separated_token, runs, isSplit,
          filter_cons_of_pos (by simpa using notEmpty), isRuns,
          ← ih (by rw [length_tail]; simp only [length_cons] at *; omega)]
        simp only [cons.injEq, true_and]

/-- The tokens are the runs exactly when no other delimiter than the first of the set is at the
start of the string or behind a delimiter. -/
theorem tokenises_iff (delim s : CStr) (nonempty : delim ≠ []) :
    Tokenises delim s ↔ Separated delim false s := by
  obtain ⟨d, delim, rfl⟩ := exists_cons_of_ne_nil nonempty
  constructor
  · intro tokenises
    exact (strtokAll_iff (Nat.lt_succ_self _)).mp (tokenises _ (Nat.lt_succ_self _))
  · exact fun separated _ enough => (strtokAll_iff enough).mpr separated

/-- `"a//b"` at `/` -/
theorem tokenises_iff_slashes : Tokenises [47] [97, 47, 47, 98] :=
  (tokenises_iff [47] [97, 47, 47, 98] (by decide)).mpr (by simp [Separated])

/-- `":a"` at `/` and `:` has an empty token. -/
theorem second_delimiter_not_skipped : ¬ Tokenises [47, 58] [58, 97] := by
  intro tokenises
  exact absurd (tokenises 3 (by decide)) (by decide)

end Micro.Fs
