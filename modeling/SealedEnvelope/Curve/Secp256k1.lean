import SealedEnvelope.Bytes
import SealedEnvelope.Curve.Modular

/-!
# The curve secp256k1

The points of `y ^ 2 = x ^ 3 + 7` over a prime field, with their addition.  That a
point is on the curve belongs to its type.  The sum of two points is one again; the
addition checks this rather than proves it (`Point.of?`).

Points are written in the formats of SEC 1: a tag and one coordinate, where the tag
gives the parity of the other, or a tag and both coordinates.
-/

namespace SealedEnvelope.Secp256k1

/-- The greatest element of the field, one less than the prime
`2 ^ 256 - 2 ^ 32 - 977`. -/
def greatest : Nat := 0xfffffffffffffffffffffffffffffffffffffffffffffffffffffffefffffc2e

/-- An element of the field. -/
abbrev Element := Fin (greatest + 1)

/-- The element of a number. -/
def element (n : Nat) : Element := Fin.ofNat (greatest + 1) n

/-- The number of points, the infinite one included. -/
def order : Nat := 0xfffffffffffffffffffffffffffffffebaaedce6af48a03bbfd25e8cd0364141

/-- The right hand side of the curve's equation. -/
def cubic (x : Element) : Element := x * x * x + element 7

/-- A point that is not infinite. -/
structure Point where
  x : Element
  y : Element
  onCurve : y * y = cubic x
  deriving DecidableEq

namespace Point

/-- The point with these coordinates, if it is on the curve. -/
def of? (x y : Element) : Option Point :=
  if h : y * y = cubic x then some ⟨x, y, h⟩ else none

@[simp] theorem of?_coordinates (p : Point) : of? p.x p.y = some p := by
  simp [of?, p.onCurve]

/-- The third point on the line with the given slope through two points, with its other
coordinate negated. -/
def third? (slope : Element) (p q : Point) : Option Point :=
  let x := slope * slope - p.x - q.x
  of? x (slope * (p.x - x) - p.y)

/-- Twice a point; none stands for the infinite point. -/
def double (p : Point) : Option Point :=
  third? (element 3 * (p.x * p.x) * Modular.inverse (element 2 * p.y)) p p

/-- The sum of two points; none stands for the infinite point. -/
def add (p q : Point) : Option Point :=
  if p.x = q.x then if p.y = q.y then p.double else none
  else third? ((q.y - p.y) * Modular.inverse (q.x - p.x)) p q

/-- The base point. -/
def base : Point where
  x := element 0x79be667ef9dcbbac55a06295ce870b07029bfcdb2dce28d959f2815b16f81798
  y := element 0x483ada7726a3c4655da4fbfc0e1108a8fd17b448a68554199c47d08ffb10d4b8
  onCurve := by decide +kernel

end Point

/-- The sum of two points, either of which may be infinite. -/
def sum : Option Point → Option Point → Option Point
  | none, q => q
  | p, none => p
  | some p, some q => p.add q

/-- A multiple of a point, for the bits of the factor. -/
def Point.multipleOnto (p : Point) : List Bool → Option Point → Option Point
  | [], total => total
  | bit :: bits, total =>
    let twice := sum total total
    p.multipleOnto bits (if bit then sum twice p else twice)

/-- A multiple of a point. -/
def Point.multiple (p : Point) (k : Nat) : Option Point :=
  p.multipleOnto (Modular.bits 256 k) none

/-! ## Octets -/

/-- The octets of an element, the most significant first. -/
def elementBytes (x : Element) : Bytes := Bytes.ofNatBE 32 x.val

/-- The element of 32 octets, if their number is one. -/
def element? (bytes : Bytes) : Option Element :=
  let n := Bytes.toNatBE bytes
  if h : bytes.length = 32 ∧ n < greatest + 1 then some ⟨n, h.2⟩ else none

/-- A root of a number that is a square. -/
def root (x : Element) : Element := Modular.power x ((greatest + 2) / 4)

/-- The point with a given first coordinate whose other one has the given parity. -/
def Point.decompress? (x : Element) (odd : Bool) : Option Point :=
  let y := root (cubic x)
  of? x (if (y.val % 2 == 1) = odd then y else element 0 - y)

/-- The point that octets stand for: a tag `02` or `03` with one coordinate, `04` with
both, or `05` with one coordinate, the other being even. -/
def Point.ofBytes? : Bytes → Option Point
  | [] => none
  | tag :: rest =>
    if tag = 0x02 ∨ tag = 0x05 then do decompress? (← element? rest) false
    else if tag = 0x03 then do decompress? (← element? rest) true
    else if tag = 0x04 then do
      let x ← element? (rest.take 32)
      let y ← element? (rest.drop 32)
      of? x y
    else none

/-- The octets of a point with one coordinate. -/
def Point.toBytes (p : Point) : Bytes :=
  (if p.y.val % 2 = 0 then 0x02 else 0x03) :: elementBytes p.x

/-! ## Keys -/

/-- A secret key: a factor that is not zero and below the order of the curve. -/
structure Scalar where
  value : Nat
  positive : 0 < value
  below : value < order
  deriving DecidableEq

/-- The secret key of a number, if it is one. -/
def Scalar.ofNat? (n : Nat) : Option Scalar :=
  if h : 0 < n ∧ n < order then some ⟨n, h.1, h.2⟩ else none

/-- The secret key of 24 to 32 octets. -/
def Scalar.ofBytes? (bytes : Bytes) : Option Scalar :=
  if 24 ≤ bytes.length ∧ bytes.length ≤ 32 then Scalar.ofNat? (Bytes.toNatBE bytes) else none

/-- The public key of a secret one.  A multiple of the base point below its order is
not infinite. -/
def Scalar.publicKey (k : Scalar) : Point := (Point.base.multiple k.value).getD .base

/-- The secret that two keys share. -/
def Scalar.agree (k : Scalar) (peer : Point) : Bytes :=
  elementBytes ((peer.multiple k.value).getD peer).x

end SealedEnvelope.Secp256k1
