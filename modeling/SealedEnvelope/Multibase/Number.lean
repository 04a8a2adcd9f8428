import SealedEnvelope.Bytes
import SealedEnvelope.Positional

/-!
# Byte strings as numbers

A byte string is read as one number, the most significant octet first, and the
number is written in another base.  Leading zeros carry no value, so they are
counted apart: each leading zero octet is one leading zero digit.
-/

namespace SealedEnvelope.Multibase.Number

/-- The numeral of a byte string in a base: a zero for each leading zero octet
and then the digits of the number. -/
def digits (base : Nat) (bytes : Bytes) : List Nat :=
  List.replicate (bytes.takeWhile (· == 0)).length 0 ++
    Positional.digits base (Positional.value 256 (bytes.map (·.toNat)))

/-- The byte string with a given numeral. -/
def bytes (base : Nat) (digits : List Nat) : Bytes :=
  List.replicate (digits.takeWhile (· == 0)).length 0 ++
    (Positional.digits 256 (Positional.value base digits)).map UInt8.ofNat

end SealedEnvelope.Multibase.Number
