/-!
# Key algorithms

The three kinds of keys, and the tags under which their public halves travel.
-/

namespace SealedEnvelope

/-- A kind of key. -/
inductive Algorithm where
  /-- Signature keys on the Edwards form of Curve25519. -/
  | ed25519
  /-- Agreement keys on the Montgomery form of Curve25519. -/
  | x25519
  /-- Agreement keys on the curve secp256k1. -/
  | secp256k1
  deriving DecidableEq, Repr

namespace Algorithm

/-- The short name of an algorithm. -/
def name : Algorithm → String
  | .ed25519 => "ed25519"
  | .x25519 => "x25519"
  | .secp256k1 => "k256"

/-- The name of an algorithm in the description of a key. -/
def title : Algorithm → String
  | .ed25519 => "Ed25519"
  | .x25519 => "X25519"
  | .secp256k1 => "K256"

/-- Whether two keys can agree on a secret: signature keys can not. -/
def supportsAgreement : Algorithm → Bool
  | .ed25519 => false
  | .x25519 | .secp256k1 => true

end Algorithm
end SealedEnvelope
