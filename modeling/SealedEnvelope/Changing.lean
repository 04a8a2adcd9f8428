import SealedEnvelope.Error

/-!
# Changes that may fail

A change of a state leaves a state behind whether it fails or not.  So it can be asked of a
change that fails what it did before it failed, and the answer is a property of that change.
-/

namespace SealedEnvelope

/-- A change of a state that may fail. -/
abbrev Changing (σ : Type) := ExceptT Error (StateM σ)

namespace Changing

variable {σ α : Type}

/-- The state that a change leaves behind, even if it fails. -/
def leaves (change : Changing σ α) (state : σ) : σ := (change.run.run state).2

/-- The state after a change without which one can not go on. -/
def onto (change : Changing σ α) (state : σ) : Except Error σ :=
  let (result, after) := change.run.run state
  result.map fun _ => after

end Changing
end SealedEnvelope
