import Mathlib.Data.Set.Finite.Basic
import Mathlib.Logic.Function.Iterate
import Mathlib.Logic.Relation

/-!
# Rules for loops

`for (i = from; i < from + count; i++)` with a body that changes a state and may leave
the loop.  The rule for it has an invariant for the state before each round and a
condition that holds when the loop is left.  A loop over a list whose rounds may fault has an
invariant that speaks of the rounds still to come.  A loop with no bound that passes finitely many
states comes to an end exactly when they do not lead to a cycle.
-/

namespace Micro.Lib

open Relation

universe u

variable {State : Type u} {test : State → Bool} {step : State → State} {state : State}

/-- Run the body for `count` indices from `start` on; the flag says that it has left the
loop. -/
def search (body : State → Nat → State × Bool) : (count start : Nat) → State → State × Bool
  | 0, _, state => (state, false)
  | count + 1, start, state =>
      if (body state start).2 then body state start
      else search body count (start + 1) (body state start).1

/-- What one round of a loop, or a whole loop, ends with. -/
def EndsWith (left going : State → Prop) (result : State × Bool) : Prop :=
  if result.2 then left result.1 else going result.1

theorem search_rule {body : State → Nat → State × Bool} {invariant : Nat → State → Prop}
    {left : State → Prop} {stop : Nat}
    (round : ∀ i state, i < stop → invariant i state →
      EndsWith left (invariant (i + 1)) (body state i)) (count start : Nat) (state : State)
    (isStop : start + count = stop) (holds : invariant start state) :
    EndsWith left (invariant stop) (search body count start state) := by
  induction count generalizing start state with
  | zero =>
    subst isStop
    exact holds
  | succ count ih =>
    have next := round start state (by omega) holds
    unfold search
    split
    · rename_i leaves
      simp only [EndsWith, leaves] at next ⊢
      exact next
    · rename_i goesOn
      simp only [EndsWith, goesOn] at next
      exact ih (start + 1) (body state start).1 (by omega) next

/-- `while (!test(state)) state = step(state);`, for so many rounds at most -/
def loopUntil (test : State → Bool) (step : State → State) : (fuel : Nat) → State → Option State
  | 0, _ => none
  | fuel + 1, state => if test state then some state else loopUntil test step fuel (step state)

theorem loopUntil_isSome {fuel : Nat} :
    (loopUntil test step fuel state).isSome ↔ ∃ n < fuel, test (step^[n] state) = true := by
  induction fuel generalizing state with
  | zero => simp [loopUntil]
  | succ fuel ih =>
    unfold loopUntil
    by_cases leaves : test state = true
    · rw [if_pos leaves]
      exact iff_of_true rfl ⟨0, Nat.zero_lt_succ _, leaves⟩
    · rw [if_neg leaves, ih]
      constructor
      · rintro ⟨n, small, found⟩
        exact ⟨n + 1, Nat.succ_lt_succ small, found⟩
      · rintro ⟨n, small, found⟩
        cases n with
        | zero => exact absurd found leaves
        | succ n => exact ⟨n, Nat.lt_of_succ_lt_succ small, found⟩

theorem loopUntil_ends :
    (∃ fuel, (loopUntil test step fuel state).isSome) ↔ ∃ n, test (step^[n] state) = true := by
  simp only [loopUntil_isSome]
  exact ⟨fun ⟨_, n, _, found⟩ => ⟨n, found⟩, fun ⟨n, found⟩ => ⟨n + 1, n, Nat.lt_succ_self n, found⟩⟩

theorem loopUntil_step (goesOn : test state = false) :
    (∃ fuel, (loopUntil test step fuel state).isSome) ↔
      ∃ fuel, (loopUntil test step fuel (step state)).isSome := by
  constructor
  · rintro ⟨fuel, ends⟩
    cases fuel with
    | zero => cases ends
    | succ fuel =>
      rw [loopUntil, goesOn] at ends
      exact ⟨fuel, ends⟩
  · rintro ⟨fuel, ends⟩
    refine ⟨fuel + 1, ?_⟩
    rw [loopUntil, goesOn]
    exact ends

/-- A round after which the loop goes on. -/
def Goes (test : State → Bool) (step : State → State) (state next : State) : Prop :=
  test state = false ∧ step state = next

/-- The rounds lead to a cycle. -/
def Cycles (test : State → Bool) (step : State → State) (state : State) : Prop :=
  ∃ on, ReflTransGen (Goes test step) state on ∧ TransGen (Goes test step) on on

/-- The loop is left in a state that its rounds lead to. -/
theorem loopUntil_some {fuel : Nat} {final : State}
    (ends : loopUntil test step fuel state = some final) :
    ReflTransGen (Goes test step) state final ∧ test final = true := by
  induction fuel generalizing state with
  | zero => cases ends
  | succ fuel ih =>
    rw [loopUntil] at ends
    split at ends
    · rename_i leaves
      cases ends
      exact ⟨.refl, leaves⟩
    · rename_i goesOn
      obtain ⟨leads, leaves⟩ := ih ends
      exact ⟨.head ⟨by simpa using goesOn, rfl⟩ leads, leaves⟩

theorem Cycles.next (cycles : Cycles test step state) :
    test state = false ∧ Cycles test step (step state) := by
  obtain ⟨on, leads, cycle⟩ := cycles
  cases leads.cases_head with
  | inl same =>
    subst same
    obtain ⟨_, ⟨goesOn, rfl⟩, back⟩ := TransGen.head'_iff.mp cycle
    exact ⟨goesOn, step state, .refl, TransGen.tail' back ⟨goesOn, rfl⟩⟩
  | inr first =>
    obtain ⟨_, ⟨goesOn, rfl⟩, rest⟩ := first
    exact ⟨goesOn, on, rest, cycle⟩

theorem Cycles.never (cycles : Cycles test step state) (n : Nat) :
    test (step^[n] state) = false := by
  induction n generalizing state with
  | zero => exact cycles.next.1
  | succ n ih => exact ih cycles.next.2

theorem goes_iterate (never : ∀ n, test (step^[n] state) = false) (n count : Nat) :
    ReflTransGen (Goes test step) (step^[n] state) (step^[n + count] state) := by
  induction count with
  | zero => exact .refl
  | succ count ih =>
    exact ih.tail ⟨never (n + count), (Function.iterate_succ_apply' step (n + count) state).symm⟩

/-- A loop that passes finitely many states ends exactly when its rounds lead to no cycle. -/
theorem loopUntil_ends_iff (finite : (Set.range step).Finite) :
    (∃ fuel, (loopUntil test step fuel state).isSome) ↔ ¬ Cycles test step state := by
  rw [loopUntil_ends]
  constructor
  · rintro ⟨n, found⟩ cycles
    rw [cycles.never n] at found
    cases found
  · intro noCycle
    by_contra notFound
    have never : ∀ n, test (step^[n] state) = false := by simpa using notFound
    -- two of the states after the first are the same
    obtain ⟨i, -, j, -, different, same⟩ := Set.infinite_univ.exists_ne_map_eq_of_mapsTo
      (fun n _ => Set.mem_range_self (step^[n] state)) finite
    wlog less : i < j generalizing i j
    · exact this j i different.symm same.symm (by omega)
    obtain ⟨count, rfl⟩ := Nat.exists_eq_add_of_lt less
    have back : step^[i + 1] state = step^[i + 1 + (count + 1)] state := by
      rw [Function.iterate_succ_apply', show i + 1 + (count + 1) = i + count + 1 + 1 by omega,
        Function.iterate_succ_apply']
      exact same
    refine noCycle ⟨step^[i + 1] state, ?_, ?_⟩
    · have leads := goes_iterate never 0 (i + 1)
      rwa [Nat.zero_add] at leads
    · have cycle := TransGen.tail' (goes_iterate never (i + 1) count)
        ⟨never _, (Function.iterate_succ_apply' step _ state).symm⟩
      rwa [Nat.succ_eq_add_one, Nat.add_assoc, ← back] at cycle

end Micro.Lib
