import SealedEnvelope.Bytes

/-!
# Hash functions

A hash function with the numbers that other constructions need of it.
-/

namespace SealedEnvelope

/-- A hash function on byte strings. -/
structure Hash where
  /-- The octets that are mixed in at a time. -/
  blockSize : Nat
  /-- The octets of a digest. -/
  size : Nat
  digest : Bytes → Bytes
  length_digest : ∀ message, (digest message).length = size

end SealedEnvelope
