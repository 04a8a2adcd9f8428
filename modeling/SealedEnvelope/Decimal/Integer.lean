import SealedEnvelope.Positional

/-!
# Decimal integers

The usual text of a whole number: its decimal digits, `0` for zero, and a minus
sign in front of a negative number.
-/

namespace SealedEnvelope.Decimal

/-- The character of a decimal digit. -/
def digit (n : Nat) : Char := Char.ofNat (48 + n)

/-- The characters of a natural number. -/
def naturalChars (n : Nat) : List Char :=
  if n = 0 then ['0'] else (Positional.digits 10 n).map digit

/-- The characters of an integer. -/
def integerChars : Int → List Char
  | .ofNat n => naturalChars n
  | .negSucc n => '-' :: naturalChars (n + 1)

/-- The text of a natural number. -/
def natural (n : Nat) : String := String.ofList (naturalChars n)

/-- The text of an integer. -/
def integer (i : Int) : String := String.ofList (integerChars i)

end SealedEnvelope.Decimal
