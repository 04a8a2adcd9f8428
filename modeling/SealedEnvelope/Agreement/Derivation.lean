import SealedEnvelope.Digest.Sha256

/-!
# Deriving a key from an agreed secret

The secret is hashed together with everything that the two sides have to agree on:
the algorithm, the two parties, the length of the key and, for sender authenticated
agreement, the tag of the ciphertext.  Every part of unknown length comes behind its
length, so no two choices of the parts are hashed alike.  An empty tag is left out.
-/

namespace SealedEnvelope

/-- What a derived key depends on besides the secret. -/
structure Derivation where
  algorithm : String
  /-- The producing party. -/
  partyU : Bytes
  /-- The consuming party. -/
  partyV : Bytes
  /-- The length of the key in octets. -/
  keySize : Nat
  /-- The tag that the key is bound to, if it is not empty. -/
  tag : Bytes
  deriving DecidableEq, Repr

namespace Derivation

/-- A part behind its length, which has to fit four octets. -/
def counted? (part : Bytes) : Option Bytes :=
  if part.length < 0x100000000 then some (Bytes.ofNatBE 4 part.length ++ part) else none

/-- Everything that is hashed. -/
def input? (derivation : Derivation) (secret : Bytes) : Option Bytes := do
  let algorithm ← counted? (Bytes.ofText derivation.algorithm)
  let partyU ← counted? derivation.partyU
  let partyV ← counted? derivation.partyV
  let tag ← if derivation.tag.isEmpty then some [] else counted? derivation.tag
  some ([0, 0, 0, 1] ++ secret ++ algorithm ++ partyU ++ partyV ++
    Bytes.ofNatBE 4 (8 * derivation.keySize) ++ tag)

/-- The derived key, which is the start of one digest. -/
def key? (derivation : Derivation) (secret : Bytes) : Option Bytes :=
  if derivation.keySize ≤ 32 then
    (derivation.input? secret).map fun input => (Sha256.digest input).take derivation.keySize
  else none

end Derivation
end SealedEnvelope
