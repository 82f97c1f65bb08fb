import Mathlib.Logic.Relation

/-!
# Runs of a labelled transition system

A component is driven by a sequence of labels: calls made by its clients, ticks
of a clock, or whatever else moves it from one state to the next.  This module
packages the two inductions every development over such a component needs: a
total step function whose calls all return, and a step relation that may be
restricted to the steps meeting a side condition.
-/

namespace Micro.Lib

open Option

universe u v

variable {State : Type u} {Label : Type v} {step : State → Label → Option State}
  {permit : State → Label → Prop} {state next : State} {label : Label} {labels : List Label}

/-- Drive a partial step function along a list of labels. -/
def drive (step : State → Label → Option State) :
    State → List Label → Option State
  | state, [] => some state
  | state, label :: labels =>
      (step state label).bind fun next => drive step next labels

/-- Every label is permitted in the state in which it is used. -/
def Permitted (step : State → Label → Option State)
    (permit : State → Label → Prop) : State → List Label → Prop
  | _, [] => True
  | state, label :: labels =>
      permit state label ∧ ∀ next, step state label = some next → Permitted step permit next labels

theorem Permitted.cons (stepped : step state label = some next) (here : permit state label)
    (rest : Permitted step permit next labels) : Permitted step permit state (label :: labels) := by
  constructor
  · exact here
  · intro _ steppedOther
    rw [stepped] at steppedOther
    cases steppedOther
    exact rest

/-- Total-run rule: when a permitted label always steps and keeps the
invariant, a permitted sequence runs to its end and keeps the invariant. -/
theorem drive_total {invariant : State → Prop}
    (stepTotal : ∀ state label, invariant state → permit state label → ∃ next,
      step state label = some next ∧ invariant next) (labels : List Label) (state : State)
    (holds : invariant state) (permitted : Permitted step permit state labels) :
    ∃ final, drive step state labels = some final ∧ invariant final := by
  induction labels generalizing state with
  | nil => exact ⟨state, rfl, holds⟩
  | cons label labels ih =>
    obtain ⟨permittedHere, permittedRest⟩ := permitted
    obtain ⟨next, stepped, nextHolds⟩ := stepTotal state label holds permittedHere
    obtain ⟨final, driven, finalHolds⟩ := ih next nextHolds (permittedRest next stepped)
    refine ⟨final, ?_, finalHolds⟩
    simp only [drive, stepped]
    exact driven

/-- Invariant rule for a step function whose labels all meet a condition. -/
theorem drive_invariant {permit : Label → Prop} {invariant : State → Prop}
    (preserved : ∀ state label next, invariant state → permit label →
      step state label = some next → invariant next) (labels : List Label) (state final : State)
    (permitted : ∀ label ∈ labels, permit label) (holds : invariant state)
    (driven : drive step state labels = some final) : invariant final := by
  induction labels generalizing state final with
  | nil =>
    simp only [drive, some.injEq] at driven
    subst driven
    exact holds
  | cons label labels ih =>
    obtain ⟨next, stepped, rest⟩ := bind_eq_some_iff.mp driven
    simp only [List.forall_mem_cons] at permitted
    exact ih next final permitted.2 (preserved state label next holds permitted.1 stepped) rest

/-- Simulation rule: when a permitted label steps on both sides and keeps them related, a
permitted sequence runs to its end on both sides and keeps them related. -/
theorem drive_simulates {Abstract : Type u} {abstractStep : Abstract → Label → Option Abstract}
    {related : State → Abstract → Prop}
    (simulated : ∀ state spec label, related state spec → permit state label → ∃ next nextSpec,
      step state label = some next ∧ abstractStep spec label = some nextSpec ∧
        related next nextSpec) (labels : List Label) (state : State) (spec : Abstract)
    (holds : related state spec) (permitted : Permitted step permit state labels) :
    ∃ final finalSpec, drive step state labels = some final ∧
      drive abstractStep spec labels = some finalSpec ∧ related final finalSpec := by
  induction labels generalizing state spec with
  | nil => exact ⟨state, spec, rfl, rfl, holds⟩
  | cons label labels ih =>
    obtain ⟨permittedHere, permittedRest⟩ := permitted
    obtain ⟨next, nextSpec, stepped, stepsSpec, nextHolds⟩ :=
      simulated state spec label holds permittedHere
    obtain ⟨final, finalSpec, driven, drivenSpec, finalHolds⟩ :=
      ih next nextSpec nextHolds (permittedRest next stepped)
    refine ⟨final, finalSpec, ?_, ?_, finalHolds⟩
    · simp only [drive, stepped]
      exact driven
    · simp only [drive, stepsSpec]
      exact drivenSpec

theorem drive_some (step : State → Label → State) (labels : List Label) (state : State) :
    drive (fun state label => some (step state label)) state labels =
      some (labels.foldl step state) := by
  induction labels generalizing state with
  | nil => rfl
  | cons label labels ih => exact ih (step state label)

/-- Finite runs of a step relation, recording the labels taken. -/
inductive Run (step : State → Label → State → Prop) :
    State → List Label → State → Prop where
  | nil (state : State) : Run step state [] state
  | cons {state next final : State} {label : Label} {labels : List Label} :
      step state label next → Run step next labels final →
      Run step state (label :: labels) final

/-- The steps of a relation that meet a condition on the state before them. -/
def Restricted (step : State → Label → State → Prop)
    (condition : State → Label → Prop) (state : State) (label : Label)
    (next : State) : Prop :=
  step state label next ∧ condition state label

theorem Run.invariant {step : State → Label → State → Prop} {P : State → Prop}
    (preserved : ∀ state label next, P state → step state label next → P next)
    {final : State} (run : Run step state labels final) (holds : P state) : P final := by
  induction run with
  | nil => exact holds
  | cons stepped _ ih => exact ih (preserved _ _ _ holds stepped)

/-- A step function that refuses the labels failing a check. -/
def guarded (step : State → Label → Option State) (check : State → Label → Bool)
    (state : State) (label : Label) : Option State :=
  if check state label then step state label else none

theorem guarded_restricted {check : State → Label → Bool}
    (stepped : guarded step check state label = some next) :
    Restricted (fun state label next => step state label = some next)
      (fun state label => check state label = true) state label next := by
  unfold guarded at stepped
  split at stepped
  · rename_i checked
    exact ⟨stepped, checked⟩
  · cases stepped

theorem Run.of_drive {relation : State → Label → State → Prop}
    (computes : ∀ {state label next}, step state label = some next → relation state label next)
    {final : State} (driven : drive step state labels = some final) :
    Run relation state labels final := by
  induction labels generalizing state final with
  | nil =>
    simp only [drive, some.injEq] at driven
    subst driven
    exact .nil state
  | cons label labels ih =>
    rcases bind_eq_some_iff.mp driven with ⟨next, stepped, rest⟩
    exact .cons (computes stepped) (ih rest)

end Micro.Lib
