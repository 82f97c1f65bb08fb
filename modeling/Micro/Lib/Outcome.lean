import Mathlib.Tactic.Common

/-!
# Computations that may end in an error

Rules for the postconditions of computations in `Except`: which values they may return
and which errors they may end in.
-/

namespace Micro.Lib

variable {ε α β : Type}

/-- The computation returns a value with a property, or ends in a tolerated error. -/
def Meets (tolerated : ε → Prop) (run : Except ε α) (post : α → Prop) : Prop :=
  match run with
  | .ok value => post value
  | .error error => tolerated error

namespace Meets

variable {tolerated : ε → Prop} {post : α → Prop} {after : β → Prop} {run : Except ε α}

theorem bind {rest : α → Except ε β} (first : Meets tolerated run post)
    (second : ∀ value, post value → Meets tolerated (rest value) after) :
    Meets tolerated (run >>= rest) after := by
  cases run with
  | ok value => exact second value first
  | error error => exact first

theorem of_ok {value : α} (meets : Meets tolerated run post) (ran : run = .ok value) :
    post value := by
  rw [ran] at meets
  exact meets

theorem of_error {error : ε} (meets : Meets tolerated run post) (ended : run = .error error) :
    tolerated error := by
  rw [ended] at meets
  exact meets

end Meets

theorem toOption_bind (run : Except ε α) (rest : α → Except ε β) :
    (run >>= rest).toOption = run.toOption.bind fun value => (rest value).toOption := by
  cases run <;> rfl

end Micro.Lib
