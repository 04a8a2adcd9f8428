import SealedEnvelope.Key.Basic

/-!
# Agreeing on a secret

Each side makes the secret from its own secret key and the other side's public key.
-/

namespace SealedEnvelope

/-- A secret that two keys share, if they do. -/
def Key.agreed (shared : Option Bytes) : Except Error Bytes :=
  match shared with
  | some shared => .ok shared
  | none => .error .cryptography

/-- The secret that two keys share; the first must come with its secret. -/
def Key.exchange (own peer : Key) : Except Error Bytes :=
  match own, peer with
  | .x25519 _ (some secret), .x25519 coordinate _ =>
    Key.agreed (X25519.agree? secret.val coordinate)
  | .secp256k1 _ (some secret), .secp256k1 point _ => .ok (secret.val.agree point)
  | .ed25519 .., _ | _, .ed25519 .. => .error (.unsupportedAlgorithm .signatureKeyAgreement)
  | _, _ => .error .cryptography

end SealedEnvelope
