import SealedEnvelope.Agreement.KeyWrap
import SealedEnvelope.Content.Encryption
import SealedEnvelope.Envelope.Header
import SealedEnvelope.Key.Identity

/-!
# Reading the parameters of an envelope

What a recipient takes from the headers before it uses its key.  Only an absent
ephemeral key is reported as such: one that is there and can not be used fails like
a decryption, since what it looks like is up to whoever made the envelope.
-/

namespace SealedEnvelope

/-- Any failure as the failure of a decryption. -/
def opaquely {α : Type} (result : Except Error α) : Except Error α :=
  result.mapError fun _ => .decryptionFailed

/-- The key wrap of a key management algorithm: the name of the algorithm is that of
its family, a plus sign, and the key wrap. -/
def keyWrapOf (family alg : String) : Except Error KeyWrap :=
  match KeyWrap.all.find? fun wrap => family ++ "+" ++ wrap.id = alg with
  | some wrap => .ok wrap
  | none => .error (.unsupportedAlgorithm (.keyManagement alg))

/-- A parameter that has to be there. -/
def requireHeader (value : Option String) (name : String) : Except Error String :=
  match value with
  | some text => .ok text
  | none => .error (.missingHeader name)

/-- Makes sure that an identity comes with its secret. -/
def requireSecret (identity : Identity) : Except Error Unit :=
  if identity.hasSecret then .ok () else .error (.missingSecret identity.kid)

namespace Header

/-- The sender's ephemeral key. -/
def requireEphemeralKey (header : Header) : Except Error Key := do
  match ← opaquely header.ephemeralKey with
  | none => .error .missingEphemeralKey
  | some jwk => opaquely (Key.ofJwk jwk)

/-- The octets of a parameter in base64url; none if it is absent or no string. -/
def octets (header : Header) (name : String) : Except Error Bytes :=
  match header.text? name with
  | some text => Key.decodeOctets text
  | none => .ok []

/-- The octets of a parameter of a recipient, whose own header goes before the
protected one. -/
def octetsFor (protectedHeader recipient : Header) (name : String) : Except Error Bytes :=
  match recipient.get? name with
  | some _ => recipient.octets name
  | none => protectedHeader.octets name

end Header
end SealedEnvelope
