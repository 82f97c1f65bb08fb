import Mathlib.Data.List.Basic

/-!
# qsort

`qsort` of the libc goes forward over elements that are in order and takes one that is not back to
its place by swaps.  Every swap leaves one pair of elements less in the wrong order.
-/

namespace Micro.Libc

open List

variable {α : Type}

section

variable (compar : α → α → Int)

/-- The loop of `qsort` from an index on. -/
def qsortFrom : (fuel : Nat) → (base : List α) → (i : Nat) → Option (List α)
  | 0, _, _ => none
  | fuel + 1, base, i =>
      if _inside : i < base.length then
        if i ≠ 0 ∧ compar base[i - 1] base[i] > 0 then
          qsortFrom fuel ((base.set (i - 1) base[i]).set i base[i - 1]) (i - 1)
        else qsortFrom fuel base (i + 1)
      else some base

def qsort (fuel : Nat) (base : List α) : Option (List α) := qsortFrom compar fuel base 0

/-- The elements are in order, and those that are equal are in the order they were in. -/
structure Sorts (base result : List α) : Prop where
  perm : result.Perm base
  sorted : result.Pairwise fun a b => compar a b ≤ 0
  stable : ∀ a, result.filter (fun b => compar a b ≤ 0 ∧ compar b a ≤ 0) =
    base.filter fun b => compar a b ≤ 0 ∧ compar b a ≤ 0

/-- The number of pairs in the wrong order. -/
def inversions : List α → Nat
  | [] => 0
  | a :: base => base.countP (fun b => compar a b > 0) + inversions base

end

section Sorts

variable {compar : α → α → Int} {p c : α}
  (total : ∀ a b, compar a b ≤ 0 ∨ compar b a ≤ 0)
  (trans : ∀ a b c, compar a b ≤ 0 → compar b c ≤ 0 → compar a c ≤ 0)

include total in
theorem inversions_swap (wrong : ¬ compar p c ≤ 0) (init right : List α) :
    inversions compar (init ++ p :: c :: right) = inversions compar (init ++ c :: p :: right) + 1 := by
  have reverse := (total p c).resolve_left wrong
  induction init with
  | nil =>
    simp [inversions, Int.not_lt.mpr reverse, Int.not_le.mp wrong]
    omega
  | cons a init _ =>
    simp [inversions, countP_cons]
    omega

include trans in
theorem Sorts.of_swap (wrong : ¬ compar p c ≤ 0) {init right result : List α}
    (sorts : Sorts compar (init ++ c :: p :: right) result) :
    Sorts compar (init ++ p :: c :: right) result where
  perm := sorts.perm.trans ((Perm.swap p c right).append_left init)
  sorted := sorts.sorted
  stable a := by
    rw [sorts.stable a]
    by_cases isFirst : compar a p ≤ 0 ∧ compar p a ≤ 0
    · have notSecond : ¬ (compar a c ≤ 0 ∧ compar c a ≤ 0) :=
        fun isSecond => wrong (trans p a c isFirst.2 isSecond.1)
      simp only [filter_append, filter_cons, decide_eq_true_eq, if_neg notSecond]
    · simp only [filter_append, filter_cons, decide_eq_true_eq, if_neg isFirst]

include total trans

/-- The loop returns from every index up to which the elements are in order. -/
theorem qsortFrom_sorts {fuel : Nat} {init right : List α}
    (sorted : init.Pairwise (fun a b => compar a b ≤ 0))
    (enough : 2 * inversions compar (init ++ right) + right.length < fuel) :
    ∃ result, qsortFrom compar fuel (init ++ right) init.length = some result ∧
      Sorts compar (init ++ right) result := by
  induction fuel generalizing init right with
  | zero => exact absurd enough (Nat.not_lt_zero _)
  | succ fuel ih =>
    match right, init.eq_nil_or_concat' with
    | [], _ =>
      rw [append_nil]
      exact ⟨init, by simp [qsortFrom], .refl init, sorted, fun _ => rfl⟩
    | c :: right, .inl isNil =>
      subst isNil
      exact @ih [c] right (pairwise_singleton _ c) (by simp at enough ⊢; omega)
    | c :: right, .inr ⟨init, p, isInit⟩ =>
      subst isInit
      obtain ⟨sortedInit, _, upTo⟩ := pairwise_append.mp sorted
      simp only [append_assoc, singleton_append, length_append, length_singleton] at enough ⊢
      by_cases inOrder : compar p c ≤ 0
      · have step : qsortFrom compar (fuel + 1) (init ++ p :: c :: right) (init.length + 1) =
            qsortFrom compar fuel (init ++ p :: c :: right) (init.length + 2) := by
          simp [qsortFrom, Int.not_lt.mpr inOrder]
        have sortedNext : (init ++ [p, c]).Pairwise fun a b => compar a b ≤ 0 := by
          refine pairwise_append.mpr ⟨sortedInit, by simpa using inOrder, ?_⟩
          intro a mem b isLast
          have below := upTo a mem p mem_cons_self
          rcases mem_pair.mp isLast with rfl | rfl
          · exact below
          · exact trans a p b below inOrder
        rw [step]
        simpa using ih sortedNext (by simp at enough ⊢; omega)
      · have step : qsortFrom compar (fuel + 1) (init ++ p :: c :: right) (init.length + 1) =
            qsortFrom compar fuel (init ++ c :: p :: right) init.length := by
          simp [qsortFrom, Int.not_le.mp inOrder]
        rw [inversions_swap total inOrder] at enough
        obtain ⟨result, returns, sorts⟩ :=
          @ih init (c :: p :: right) sortedInit (by simp at enough ⊢; omega)
        exact ⟨result, step.trans returns, sorts.of_swap trans inOrder⟩

/-- `qsort` returns, and sorts. -/
theorem qsort_sorts (base : List α) : ∃ steps, ∀ fuel, steps < fuel →
    ∃ result, qsort compar fuel base = some result ∧ Sorts compar base result :=
  ⟨2 * inversions compar base + base.length, fun _ => qsortFrom_sorts total trans .nil⟩

end Sorts

/-- Two numbers -/
theorem qsort_sorts_two : ∃ steps, ∀ fuel, steps < fuel → ∃ result,
    qsort (fun a b : Int => a - b) fuel [2, 1] = some result ∧ Sorts (fun a b => a - b) [2, 1] result :=
  qsort_sorts (fun _ _ => by omega) (fun _ _ _ => by omega) [2, 1]

end Micro.Libc
