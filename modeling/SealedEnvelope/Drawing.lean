import SealedEnvelope.Entropy
import SealedEnvelope.Error

/-!
# Computations that draw and may fail

What was drawn before a failure stays drawn: the failure does not put it back.
-/

namespace SealedEnvelope

/-- A computation that draws octets and may fail. -/
abbrev Drawing := ExceptT Error Draw

namespace Drawing

variable {α : Type}

/-- The computation with another error in place of its own. -/
def failingWith (error : Error) (computation : Drawing α) : Drawing α :=
  ExceptT.adapt (fun _ => error) computation

/-- What a computation comes to: a value, a failure, or nothing at all if it draws for ever. -/
def outcome (computation : Drawing α) (random : Entropy) : Option (Except Error α) :=
  (computation.run.run random).map Prod.fst

end Drawing
end SealedEnvelope
