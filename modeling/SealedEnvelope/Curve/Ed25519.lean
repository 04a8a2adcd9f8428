import SealedEnvelope.Curve.Field25519
import SealedEnvelope.Digest.Sha512

/-!
# Ed25519 public keys

A public key is a point of a twisted Edwards curve, given by one coordinate and the
sign of the other.  The octets of a key are kept as they came; they need not be the
ones that would be written for the point.
-/

namespace SealedEnvelope.Ed25519

open Field25519 (Element element)

/-- The coefficient `-121665 / 121666` of the curve. -/
def coefficient : Element := (element 0 - element 121665) * Modular.inverse (element 121666)

/-- A point with coordinates `x / z` and `y / z`. -/
structure Point where
  x : Element
  y : Element
  z : Element

/-- The sum of two points. -/
def Point.add (p q : Point) : Point :=
  let a := p.z * q.z
  let b := a * a
  let c := p.x * q.x
  let d := p.y * q.y
  let e := coefficient * c * d
  let f := b - e
  let g := b + e
  ⟨a * f * ((p.x + p.y) * (q.x + q.y) - c - d), a * g * (d + c), f * g⟩

/-- The sum of no points. -/
def Point.zero : Point := ⟨element 0, element 1, element 1⟩

/-- The base point. -/
def Point.base : Point :=
  ⟨element 0x216936d3cd6e53fec0a4e231fdd6dc5c692cc7609525a7b2c9562d608f25d51a,
   element 0x6666666666666666666666666666666666666666666666666666666666666658,
   element 1⟩

/-- A multiple of a point, for the bits of the factor. -/
def Point.multiple (p : Point) : List Bool → (sum : Point) → Point
  | [], sum => sum
  | bit :: bits, sum =>
    let twice := sum.add sum
    p.multiple bits (if bit then twice.add p else twice)

/-- The octets of a point: one coordinate, and the parity of the other in the last
bit. -/
def Point.toBytes (p : Point) : Bytes :=
  let inverse := Modular.inverse p.z
  let x := p.x * inverse
  let y := p.y * inverse
  Bytes.ofNatLE 32 (y.val + x.val % 2 * Field25519.lastBit)

/-- Whether 32 octets stand for a point of the curve: whether there is a second
coordinate to the one that they give. -/
def isPoint (bytes : Bytes) : Bool :=
  let y := Field25519.ofBytes bytes
  Modular.isSquare ((y * y - element 1) * (coefficient * (y * y) + element 1))

/-- A public key. -/
structure PublicKey where
  octets : Octets 32
  onCurve : isPoint octets.val
  deriving DecidableEq

/-- The public key with these octets, if they stand for a point. -/
def PublicKey.ofOctets? (octets : Octets 32) : Option PublicKey :=
  if h : isPoint octets.val then some ⟨octets, h⟩ else none

/-- The factor that a secret stands for. -/
def factor (secret : Octets 32) : Nat :=
  Field25519.clamp (Bytes.toNatLE ((Sha512.digest secret.val).take 32))

/-- The octets of the public key of a secret. -/
def publicOctets (secret : Octets 32) : Octets 32 :=
  ⟨(Point.base.multiple (Modular.bits 255 (factor secret)) .zero).toBytes,
    Bytes.length_ofNatLE 32 _⟩

/-- The base point as a public key. -/
def PublicKey.base : PublicKey where
  octets := ⟨Point.base.toBytes, Bytes.length_ofNatLE 32 _⟩
  onCurve := by decide +kernel

/-- The public key of a secret.  A multiple of the base point is a point, so the check never
fails and the base point does not stand in for it. -/
def publicKey (secret : Octets 32) : PublicKey :=
  (PublicKey.ofOctets? (publicOctets secret)).getD .base

end SealedEnvelope.Ed25519
