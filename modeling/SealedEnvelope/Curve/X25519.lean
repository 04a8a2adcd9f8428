import SealedEnvelope.Curve.Field25519

/-!
# X25519

Points of the curve are given by one coordinate, as a quotient.  A multiple of a
point is found by a ladder that carries two neighbouring multiples: the next pair is
the double of one of them and their sum, which can be had from their coordinates
because their difference is the point itself.
-/

namespace SealedEnvelope.X25519

open Field25519 (Element element)

/-- A coordinate as a quotient `x / z`; it is infinite if `z` is zero. -/
structure Coordinate where
  x : Element
  z : Element

/-- The coordinate of twice a point. -/
def Coordinate.double (p : Coordinate) : Coordinate :=
  let s := (p.x + p.z) * (p.x + p.z)
  let d := (p.x - p.z) * (p.x - p.z)
  let e := s - d
  ⟨s * d, e * (s + element 121665 * e)⟩

/-- The coordinate of the sum of two points whose difference has the coordinate `u`. -/
def Coordinate.add (u : Element) (p q : Coordinate) : Coordinate :=
  let a := (q.x - q.z) * (p.x + p.z)
  let b := (q.x + q.z) * (p.x - p.z)
  ⟨(a + b) * (a + b), u * ((a - b) * (a - b))⟩

/-- Goes down the bits of a factor with two neighbouring multiples. -/
def ladder (u : Element) : List Bool → (low high : Coordinate) → Coordinate
  | [], low, _ => low
  | bit :: bits, low, high =>
    let middle := low.add u high
    if bit then ladder u bits middle high.double else ladder u bits low.double middle

/-- The coordinate of a multiple of the point with the coordinate `u`; zero stands for
infinity. -/
def multiple (k : Nat) (u : Element) : Element :=
  let p := ladder u (Modular.bits 255 k) ⟨element 1, element 0⟩ ⟨u, element 1⟩
  p.x * Modular.inverse p.z

/-- The coordinate of the base point. -/
def basePoint : Element := element 9

/-- The factor that a secret stands for. -/
def factor (secret : Octets 32) : Nat := Field25519.clamp (Bytes.toNatLE secret.val)

/-- What a secret makes of the octets of a public key. -/
def exchange (secret peer : Octets 32) : Octets 32 :=
  ⟨Field25519.toBytes (multiple (factor secret) (Field25519.ofBytes peer.val)),
    Field25519.length_toBytes _⟩

/-- The public key of a secret. -/
def publicKey (secret : Octets 32) : Octets 32 :=
  ⟨Field25519.toBytes (multiple (factor secret) basePoint), Field25519.length_toBytes _⟩

/-- The secret that two keys share; none if the result is zero, which tells that the
public key has nothing to do with the secret. -/
def agree? (secret peer : Octets 32) : Option Bytes :=
  let shared := (exchange secret peer).val
  if shared.all (· == 0) then none else some shared

end SealedEnvelope.X25519
