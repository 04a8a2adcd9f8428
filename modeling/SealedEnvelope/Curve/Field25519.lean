import SealedEnvelope.Bytes
import SealedEnvelope.Curve.Modular

/-!
# The field of Curve25519

The two curves that share this field write its elements as 32 octets, the least
significant first.
-/

namespace SealedEnvelope.Field25519

/-- The greatest element, one less than the prime `2 ^ 255 - 19`. -/
def greatest : Nat := 0x7fffffffffffffffffffffffffffffffffffffffffffffffffffffffffffffec

/-- An element of the field. -/
abbrev Element := Fin (greatest + 1)

/-- The element of a number. -/
def element (n : Nat) : Element := Fin.ofNat (greatest + 1) n

/-- The number whose only bit is the last one of 32 octets. -/
def lastBit : Nat := 0x8000000000000000000000000000000000000000000000000000000000000000

/-- The element of 32 octets, whose last bit does not count. -/
def ofBytes (bytes : Bytes) : Element := element (Bytes.toNatLE bytes % lastBit)

/-- The octets of an element. -/
def toBytes (x : Element) : Bytes := Bytes.ofNatLE 32 x.val

@[simp] theorem length_toBytes (x : Element) : (toBytes x).length = 32 :=
  Bytes.length_ofNatLE 32 x.val

/-- A number of 256 bits as the curves take it for a factor: a multiple of eight
between `2 ^ 254` and `2 ^ 255`. -/
def clamp (n : Nat) : Nat := n % (lastBit / 2) / 8 * 8 + lastBit / 2

end SealedEnvelope.Field25519
