/-!
# Arithmetic modulo a prime

The numbers below a modulus `n + 1`, with the operations that `Fin` has, and powers
of them by squaring.  Modulo a prime, a power gives the inverse of a number.
-/

namespace SealedEnvelope.Modular

variable {n : Nat}

/-- A power, by squaring. -/
def power (x : Fin (n + 1)) (exponent : Nat) : Fin (n + 1) :=
  if _h : exponent = 0 then 1
  else
    let squares := power (x * x) (exponent / 2)
    if exponent % 2 = 0 then squares else x * squares
termination_by exponent
decreasing_by exact Nat.div_lt_self (Nat.pos_of_ne_zero _h) (by decide)

/-- The inverse of a number modulo a prime; zero for zero. -/
def inverse (x : Fin (n + 1)) : Fin (n + 1) := power x (n - 1)

/-- Whether a number modulo an odd prime is a square. -/
def isSquare (x : Fin (n + 1)) : Bool :=
  let sign := power x (n / 2)
  sign = 0 || sign = 1

/-- The bits of a number, the most significant first, with leading zeros if it has
fewer. -/
def bits : (count : Nat) → (k : Nat) → List Bool
  | 0, _ => []
  | count + 1, k => k.testBit count :: bits count k

end SealedEnvelope.Modular
