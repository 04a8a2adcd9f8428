import SealedEnvelope.Decimal.Double

/-!
# JSON numbers

A number is an integer of at most 64 bits, signed or unsigned, or a double.  Which
of the two it is, is decided by its spelling: an integer literal in range is an
integer, and `-0`, a fraction, an exponent or a larger integer makes a double.

## How a literal becomes a double

The digits are read into a 64-bit integer as long as they fit.  What does not fit
is not rounded but left out: an integer digit that was left out counts as a power
of ten, a digit of the fraction does not count at all.  The integer is then
rounded to a double and multiplied or divided by the power of ten that is missing
(in steps, if the power is too large for a double).  So a literal may become a
neighbour of the double nearest to it, and two texts of one number are not always
the same double.
-/

namespace SealedEnvelope.Json

/-- The least integer of 64 bits with a sign. -/
def least : Int := -9223372036854775808

/-- One more than the greatest integer of 64 bits without a sign. -/
def bound : Nat := 18446744073709551616

/-- An integer that fits 64 bits, with or without a sign. -/
structure Whole where
  value : Int
  inRange : least ≤ value ∧ value < bound
  deriving DecidableEq, Repr

/-- A JSON number. -/
inductive Number where
  | integer (value : Whole)
  | double (value : Float)
  deriving Repr

/-- Equality of numbers: an integer is never equal to a double, and of doubles the
two zeros are equal. -/
def Number.same : Number → Number → Bool
  | .integer a, .integer b => a.value = b.value
  | .double a, .double b => a == b
  | _, _ => false

/-- The characters that write a number. -/
def Number.chars : Number → List Char
  | .integer i => Decimal.integerChars i.value
  | .double x => Decimal.doubleChars x

/-- The parts of a number's spelling. -/
structure Literal where
  negative : Bool
  /-- The digits in front of the point. -/
  whole : List Nat
  /-- The digits behind the point; none without a point. -/
  fraction : List Nat
  exponent : Option Int
  deriving DecidableEq, Repr

/-- Appends digits to a number as long as it stays below `2 ^ 64`, and gives the
digits that are left. -/
def absorb : (n : Nat) → List Nat → Nat × List Nat
  | n, [] => (n, [])
  | n, d :: rest => if n * 10 + d < bound then absorb (n * 10 + d) rest else (n, d :: rest)

/-- The double that is nearest to a number below `2 ^ 64`. -/
def nearestDouble (n : Nat) : Float := n.toUInt64.toFloat

/-- A power of ten that a double can hold. -/
def powerOfTen (e : Nat) : Float := Float.ofScientific 1 false e

/-- Multiplies a double with a power of ten; no answer if the product is too large
for a double. -/
def scale? (x : Float) (exponent : Int) : Option Float :=
  match exponent with
  | .ofNat e =>
    if e ≤ 308 then
      let product := x * powerOfTen e
      if product.isInf then none else some product
    else if x == 0 then some x
    else none
  | .negSucc e =>
    if e < 308 then some (x / powerOfTen (e + 1))
    else if x == 0 then some x
    else scale? (x / powerOfTen 308) (.negSucc (e - 308))
termination_by exponent.natAbs
decreasing_by simp only [Int.natAbs_negSucc]; omega

/-- The number that a literal spells; none if it is too large for a double. -/
def Number.ofLiteral? (literal : Literal) : Option Number :=
  let (n, left) := absorb 0 literal.whole
  let sign (x : Float) : Number := .double (if literal.negative then -x else x)
  if literal.fraction.isEmpty ∧ literal.exponent.isNone ∧ left.isEmpty then
    let i : Int := if literal.negative then -n else n
    if h : (least ≤ i ∧ i < bound) ∧ ¬(literal.negative ∧ n = 0) then
      some (.integer ⟨i, h.1⟩)
    else some (sign (nearestDouble n))
  else
    let (m, unread) := absorb n literal.fraction
    let point : Int := (left.length : Int) - (literal.fraction.length - unread.length : Nat)
    (scale? (nearestDouble m) (point + literal.exponent.getD 0)).map sign

end SealedEnvelope.Json
