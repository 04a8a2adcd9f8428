import SealedEnvelope.Positional

/-!
# The shortest decimal that reads back

A finite double stands for an interval of reals: those that round to it.  Of the
decimals in that interval this module finds one with the fewest digits, and of
those the nearest to the double itself.

All arithmetic is on natural numbers.  A positive double is `m * 2 ^ q`; its
interval reaches half way to its neighbours, and the end points belong to it when
`m` is even, since ties are read to even.  Four times everything is a whole
multiple of `2 ^ (q - 2)`, so after multiplying with a power of two or ten only
whole numbers are compared.

## Why two candidates are enough

The decimals with a given last place are a grid.  If any point of a grid lies in
the interval, then so does one of the two grid points around the double, because
the double itself lies in the interval.
-/

namespace SealedEnvelope.Decimal

/-- A positive decimal: the digits, the first and the last of which are not zero,
and the exponent of ten of the first digit. -/
structure Scientific where
  digits : List Nat
  exponent : Int
  deriving DecidableEq, Repr

/-- A positive double `mantissa * 2 ^ exponent`.  `low` says that its lower
neighbour is only half as far away as its upper one. -/
structure Dyadic where
  mantissa : Nat
  exponent : Int
  low : Bool
  deriving DecidableEq, Repr

/-- The bit that stands before the stored fraction of all but the smallest doubles. -/
def hiddenBit : Nat := 0x10000000000000

/-- The double with the given bits, without its sign, unless it is zero. -/
def Dyadic.ofBits? (bits : Nat) : Option Dyadic :=
  let fraction : Nat := bits % hiddenBit
  let scale : Nat := bits / hiddenBit % 2048
  if scale = 0 then
    if fraction = 0 then none else some ⟨fraction, -1074, false⟩
  else some ⟨hiddenBit + fraction, (scale : Int) - 1075, fraction = 0 && 1 < scale⟩

/-- A quotient of natural numbers. -/
structure Ratio where
  numerator : Nat
  denominator : Nat

/-- `n * base ^ exponent`. -/
def Ratio.scaled (n base : Nat) (exponent : Int) : Ratio :=
  match exponent with
  | .ofNat e => ⟨n * Nat.pow base e, 1⟩
  | .negSucc e => ⟨n, Nat.pow base (e + 1)⟩

/-- Whether one quotient is at most another. -/
def Ratio.le (a b : Ratio) : Bool :=
  a.numerator * b.denominator ≤ b.numerator * a.denominator

/-- Whether one quotient is below another. -/
def Ratio.lt (a b : Ratio) : Bool :=
  a.numerator * b.denominator < b.numerator * a.denominator

namespace Dyadic

/-- The double as a quotient. -/
def value (x : Dyadic) : Ratio := .scaled (4 * x.mantissa) 2 (x.exponent - 2)

/-- The lower end of the reals that round to the double. -/
def lower (x : Dyadic) : Ratio :=
  .scaled (4 * x.mantissa - if x.low then 1 else 2) 2 (x.exponent - 2)

/-- The upper end of the reals that round to the double. -/
def upper (x : Dyadic) : Ratio := .scaled (4 * x.mantissa + 2) 2 (x.exponent - 2)

/-- Whether a real rounds to the double. -/
def covers (x : Dyadic) (r : Ratio) : Bool :=
  if x.mantissa % 2 = 0 then x.lower.le r && r.le x.upper
  else x.lower.lt r && r.lt x.upper

/-- The exponent of ten of the first digit of the double. -/
def magnitude (x : Dyadic) : Int :=
  let v := x.value
  if v.denominator ≤ v.numerator then
    ((Positional.digits 10 (v.numerator / v.denominator)).length : Int) - 1
  else
    let reciprocal := (v.denominator + v.numerator - 1) / v.numerator
    Int.neg (Positional.digits 10 (reciprocal - 1)).length

/-- The number of units `10 ^ place` in the double, rounded down. -/
def unitsBelow (x : Dyadic) (place : Int) : Nat :=
  let v := x.value
  let unit := Ratio.scaled 1 10 place
  v.numerator * unit.denominator / (v.denominator * unit.numerator)

/-- Whether `below` units of `10 ^ place` are nearer to the double than one unit
more; of two that are as near, the even number is taken. -/
def isNearer (x : Dyadic) (place : Int) (below : Nat) : Bool :=
  let v := x.value
  let middle := Ratio.scaled (2 * below + 1) 10 place
  let twice : Ratio := ⟨2 * v.numerator, v.denominator⟩
  twice.lt middle || (twice.le middle && below % 2 = 0)

/-- The nearest number of units `10 ^ place` that rounds to the double. -/
def unitsAt? (x : Dyadic) (place : Int) : Option Nat :=
  let below := x.unitsBelow place
  let fits (n : Nat) : Bool := n ≠ 0 && x.covers (.scaled n 10 place)
  if fits below then
    if fits (below + 1) && !x.isNearer place below then some (below + 1) else some below
  else if fits (below + 1) then some (below + 1)
  else none

/-- The first of the places `magnitude`, `magnitude - 1`, … that has a number of
units that rounds to the double. -/
def search (x : Dyadic) : (attempts : Nat) → (place : Int) → Nat × Int
  | 0, place => (x.unitsBelow place, place)
  | attempts + 1, place =>
    match x.unitsAt? place with
    | some units => (units, place)
    | none => x.search attempts (place - 1)

/-- The list without the zeros at its end. -/
def withoutTrailingZeros (digits : List Nat) : List Nat :=
  (digits.reverse.dropWhile (· == 0)).reverse

/-- The shortest decimal that rounds to the double.  Seventeen digits are always
enough. -/
def shortest (x : Dyadic) : Scientific :=
  let (units, place) := x.search 17 x.magnitude
  let digits := Positional.digits 10 units
  ⟨withoutTrailingZeros digits, place + digits.length - 1⟩

end Dyadic
end SealedEnvelope.Decimal
