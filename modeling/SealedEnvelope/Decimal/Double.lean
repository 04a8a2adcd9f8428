import SealedEnvelope.Decimal.Integer
import SealedEnvelope.Decimal.Shortest

/-!
# The text of a double

A finite double is written with the fewest digits that read back.  Its layout
depends on the exponent of the first digit alone: from `10 ^ -5` up to below
`10 ^ 16` the number is written out, always with a digit on both sides of the
point, and otherwise in scientific form with a signed exponent.
-/

namespace SealedEnvelope.Decimal

/-- Decides how doubles are laid out. -/
structure Layout where
  /-- The least exponent of the first digit for which the number is written out. -/
  least : Int
  /-- The greatest such exponent. -/
  greatest : Int

/-- Numbers are written out from `0.00001` up to below `10 ^ 16`. -/
def Layout.standard : Layout := ⟨-5, 15⟩

/-- Digits written out with a point, a digit standing on both sides of it. -/
def writtenOut (number : Scientific) : List Char :=
  match number.exponent with
  | .ofNat e =>
    let whole := number.digits.take (e + 1)
    let fraction := number.digits.drop (e + 1)
    (whole ++ List.replicate (e + 1 - whole.length) 0).map digit ++
      '.' :: (if fraction.isEmpty then ['0'] else fraction.map digit)
  | .negSucc e => '0' :: '.' :: (List.replicate e 0 ++ number.digits).map digit

/-- Digits with a point after the first one, and the exponent of that digit. -/
def scientific (number : Scientific) : List Char :=
  let fraction := (number.digits.drop 1).map digit
  (number.digits.take 1).map digit ++ (if fraction.isEmpty then [] else '.' :: fraction) ++
    'e' :: (if number.exponent < 0 then integerChars number.exponent
      else '+' :: integerChars number.exponent)

/-- The characters of a finite double. -/
def doubleChars (x : Float) : List Char :=
  let bits := x.toBits.toNat
  let sign := if bits.testBit 63 then ['-'] else []
  match Dyadic.ofBits? bits with
  | none => sign ++ ['0', '.', '0']
  | some magnitude =>
    let number := magnitude.shortest
    sign ++
      if Layout.standard.least ≤ number.exponent ∧ number.exponent ≤ Layout.standard.greatest then
        writtenOut number
      else scientific number

/-- The text of a finite double. -/
def double (x : Float) : String := String.ofList (doubleChars x)

end SealedEnvelope.Decimal
