import SealedEnvelope.Json.Number
import SealedEnvelope.Text.Quoted

/-!
# Faults of JSON texts

What can be wrong with a text that is read for a certain kind of value.  The type
parameter holds the reasons for which a value of the right shape can still be
rejected; where there are none it is `Empty`.
-/

namespace SealedEnvelope.Json

/-- What stands where something else was expected. -/
inductive Found where
  | null
  | bool (value : Bool)
  | integer (value : Int)
  | double (value : Float)
  | string (text : String)
  | sequence
  | map

/-- The text for what was found. -/
def Found.message : Found → String
  | .null => "null"
  | .bool b => "boolean `" ++ (if b then "true" else "false") ++ "`"
  | .integer i => "integer `" ++ Decimal.integer i ++ "`"
  | .double x => "floating point `" ++ Decimal.double x ++ "`"
  | .string text => "string " ++ Text.Quoted.encode text
  | .sequence => "sequence"
  | .map => "map"

/-- Why a text can not be read. -/
inductive Fault (ε : Type) where
  /-- The text does not follow the grammar, or leaves its bounds. -/
  | malformed
  | invalidType (found : Found) (expected : String)
  | missingField (name : String)
  | duplicateField (name : String)
  /-- An array that stands for a record ends too early. -/
  | invalidLength (length : Nat) (expected : String)
  /-- The value has the right shape but is not acceptable. -/
  | rejected (cause : ε)

/-- The text of a fault, given the texts of the reasons to reject a value. -/
def Fault.message {ε : Type} (describe : ε → String) : Fault ε → String
  | .malformed => "malformed JSON"
  | .invalidType found expected => "invalid type: " ++ found.message ++ ", expected " ++ expected
  | .missingField name => "missing field `" ++ name ++ "`"
  | .duplicateField name => "duplicate field `" ++ name ++ "`"
  | .invalidLength length expected =>
    "invalid length " ++ Decimal.natural length ++ ", expected " ++ expected
  | .rejected cause => describe cause

end SealedEnvelope.Json
