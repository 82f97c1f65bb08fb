import Mathlib.Data.List.Basic

/-!
# Replacing the first element of a kind

Other elements are put in the place of the first element that is accepted, in a list or in a
list that is kept in blocks.
-/

namespace Micro.Lib

open List Option

universe u

variable {α : Type u} (found : α → Bool) (edit : α → List α)

/-- Put `edit x` in the place of the first `x` that is found; `none` if there is none. -/
def splice : List α → Option (List α)
  | [] => none
  | x :: xs => if found x then some (edit x ++ xs) else (splice xs).map (x :: ·)

/-- The same in a list of blocks. -/
def spliceBlocks : List (List α) → Option (List (List α))
  | [] => none
  | block :: blocks =>
      match splice found edit block with
      | some edited => some (edited :: blocks)
      | none => (spliceBlocks blocks).map (block :: ·)

/-- The elements up to the first that is found. -/
def upto (found : α → Bool) : List α → List α
  | [] => []
  | x :: xs => if found x then [x] else x :: upto found xs

variable {found} {edit} {before xs : List α}

theorem upto_split {behind : List α} {x : α} (isFound : found x = true)
    (noneBefore : ∀ y ∈ before, found y = false) :
    upto found (before ++ x :: behind) = before ++ [x] := by
  induction before with
  | nil => simp [upto, isFound]
  | cons y before ih =>
    obtain ⟨notFound, noneBefore⟩ := forall_mem_cons.mp noneBefore
    simp [upto, notFound, ih noneBefore]

theorem upto_isPrefix (found : α → Bool) (xs : List α) : upto found xs <+: xs := by
  induction xs with
  | nil => exact prefix_rfl
  | cons x xs ih =>
    rw [upto]
    split
    · exact ⟨xs, rfl⟩
    · exact prefix_cons_inj x |>.mpr ih

theorem upto_none (absent : ∀ x ∈ xs, found x = false) : upto found xs = xs := by
  induction xs with
  | nil => rfl
  | cons x xs ih =>
    obtain ⟨notFound, absent⟩ := forall_mem_cons.mp absent
    simp [upto, notFound, ih absent]

theorem splice_some {after : List α} (spliced : splice found edit xs = some after) :
    ∃ before x behind, xs = before ++ x :: behind ∧ after = before ++ edit x ++ behind ∧
      found x = true ∧ ∀ y ∈ before, found y = false := by
  induction xs generalizing after with
  | nil => cases spliced
  | cons x xs ih =>
    rw [splice] at spliced
    split_ifs at spliced with isFound
    · rw [some.injEq] at spliced
      exact ⟨[], x, xs, rfl, spliced.symm, isFound, by simp⟩
    · obtain ⟨_, isRest, isAfter⟩ := map_eq_some_iff.mp spliced
      obtain ⟨before, y, behind, split, isEdited, isFoundY, noneBefore⟩ := ih isRest
      refine ⟨x :: before, y, behind, by simp [split], ?_, isFoundY, ?_⟩
      · rw [← isAfter, isEdited]
        simp
      · exact forall_mem_cons.mpr ⟨by simpa using isFound, noneBefore⟩

theorem splice_none : splice found edit xs = none ↔ ∀ x ∈ xs, found x = false := by
  induction xs with
  | nil => simp [splice]
  | cons x xs ih =>
    rw [splice, forall_mem_cons]
    cases found x with
    | true => simp
    | false => simpa using ih

theorem splice_append (noneBefore : ∀ y ∈ before, found y = false) (behind : List α) :
    splice found edit (before ++ behind) = (splice found edit behind).map (before ++ ·) := by
  induction before with
  | nil => simp
  | cons x before ih =>
    obtain ⟨notFound, noneBefore⟩ := forall_mem_cons.mp noneBefore
    rw [cons_append, splice, if_neg (by simp [notFound]), ih noneBefore, Option.map_map]
    rfl

theorem spliceBlocks_append {front : List (List α)}
    (noneBefore : ∀ y ∈ front.flatten, found y = false) (back : List (List α)) :
    spliceBlocks found edit (front ++ back) = (spliceBlocks found edit back).map (front ++ ·) := by
  induction front with
  | nil => simp
  | cons _ front ih =>
      rw [flatten_cons, forall_mem_append] at noneBefore
      rw [cons_append, spliceBlocks, splice_none.mpr noneBefore.1]
      simp only [ih noneBefore.2, Option.map_map]
      rfl

/-- Blocks do not matter to what is found. -/
theorem spliceBlocks_flatten (blocks : List (List α)) :
    (spliceBlocks found edit blocks).map flatten = splice found edit blocks.flatten := by
  induction blocks with
  | nil => rfl
  | cons block blocks ih =>
    rw [spliceBlocks, flatten_cons]
    cases spliced : splice found edit block with
    | some _ =>
      obtain ⟨_, x, _, split, isEdited, isFound, noneBefore⟩ := splice_some spliced
      rw [split, append_assoc, splice_append noneBefore, cons_append, splice,
        if_pos isFound, isEdited]
      simp
    | none =>
      rw [splice_append (splice_none.mp spliced), ← ih, Option.map_map, Option.map_map]
      rfl

end Micro.Lib
