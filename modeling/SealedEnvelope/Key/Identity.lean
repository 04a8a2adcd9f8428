import SealedEnvelope.Key.Basic
import SealedEnvelope.Key.Multikey

/-!
# Identities

A key under the name by which envelopes refer to it.
-/

namespace SealedEnvelope

/-- A key and its name. -/
structure Identity where
  key : Key
  kid : String

namespace Identity

/-- The public key of a multikey under a name. -/
def ofMultikey (text kid : String) : Except Error Identity := do
  let (algorithm, bytes) ← Multikey.decode text
  .ok ⟨← Key.ofPublicBytes algorithm bytes, kid⟩

/-- The kind of the key. -/
def algorithm (identity : Identity) : Algorithm := identity.key.algorithm

/-- Whether the secret is there. -/
def hasSecret (identity : Identity) : Bool := identity.key.hasSecret

/-- The public key as a multikey. -/
def multikey (identity : Identity) : String :=
  Multikey.encode identity.key.algorithm identity.key.publicBytes

/-- The identity without its secret. -/
def toPublic (identity : Identity) : Identity := ⟨identity.key.toPublic, identity.kid⟩

/-- Whether two identities have the same name and the same public key. -/
def same (a b : Identity) : Bool := a.kid = b.kid && a.key.same b.key

/-- The description of an identity, which does not show the secret. -/
def describe (identity : Identity) : String :=
  "KeyIdentity \x7b kid: " ++ Text.Quoted.encode identity.kid ++
    ", key: " ++ identity.key.describe ++ " \x7d"

end Identity
end SealedEnvelope
