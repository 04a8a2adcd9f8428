import SealedEnvelope.Json.Fault
import SealedEnvelope.Key.Algorithm
import SealedEnvelope.Multibase.Basic
import SealedEnvelope.Text.Base64Url

/-!
# What can go wrong

Every error is a cause with what belongs to it; its wording is in one place,
`Error.message`.

Errors of decryption are coarse on purpose.  Whatever key material, ciphertext or
tag an envelope carries, opening it fails with `decryptionFailed` alone, so that a
failure tells nothing that the headers do not already show.
-/

namespace SealedEnvelope

/-- A call that does not fit what was configured before. -/
inductive Misconfiguration where
  | protectedHeaderAlreadySet
  | aadAfterPayload
  | duplicateRecipient (kid : String)
  | protectedHeaderNotSet
  | payloadBeforeProtectedHeader
  | payloadAlreadySet
  | payloadNeverSet
  | bothKeyEncodingsSet
  deriving DecidableEq, Repr

/-- The text of a misconfiguration. -/
def Misconfiguration.message : Misconfiguration → String
  | .protectedHeaderAlreadySet => "protected header is already set"
  | .aadAfterPayload => "aad must be set before the payload"
  | .duplicateRecipient kid => "duplicate recipient kid " ++ kid
  | .protectedHeaderNotSet => "protected header is not set"
  | .payloadBeforeProtectedHeader => "protected header must be set before the payload"
  | .payloadAlreadySet => "payload is already set"
  | .payloadNeverSet => "ciphertext, iv and tag were never set"
  | .bothKeyEncodingsSet => "both publicKeyMultibase and publicKeyBase58 are set"

/-- An algorithm, or a combination, that is not supported. -/
inductive Unsupported where
  | contentEncryption (id : String)
  | keyWrap (id : String)
  | keyManagement (alg : String)
  /-- A content encryption that does not go with the key management. -/
  | combination (enc alg : String)
  | curve (kty crv : String)
  | codec (tag : Bytes)
  /-- Signature keys were to agree on a secret. -/
  | signatureKeyAgreement
  | recipientAgreement (algorithm : Algorithm) (kid : String)
  deriving DecidableEq, Repr

/-- The text for something that is not supported. -/
def Unsupported.message : Unsupported → String
  | .contentEncryption id => "content encryption " ++ id
  | .keyWrap id => "key wrap " ++ id
  | .keyManagement alg => "key management " ++ alg
  | .combination enc alg => enc ++ " with " ++ alg
  | .curve kty crv => "JWK kty=" ++ kty ++ " crv=" ++ crv
  | .codec tag => "multicodec 0x" ++ Text.Hex.encode tag
  | .signatureKeyAgreement => "ed25519 key agreement"
  | .recipientAgreement algorithm kid =>
    algorithm.name ++ " can not be used for key agreement (" ++ kid ++ ")"

/-- Why key material is no key. -/
inductive KeyFault where
  | wrongLength (algorithm : Algorithm) (length : Nat)
  | notACurvePoint
  | notASec1Point
  | secretOutOfRange
  | missingY
  | coordinateLength
  | codecMissing
  | multibase (fault : Multibase.Fault)
  deriving DecidableEq, Repr

/-- The text of a fault in key material. -/
def KeyFault.message : KeyFault → String
  | .wrongLength algorithm length =>
    algorithm.name ++ ": expected 32 bytes, got " ++ Decimal.natural length
  | .notACurvePoint => Algorithm.ed25519.name ++ ": public key is not a curve point"
  | .notASec1Point => Algorithm.secp256k1.name ++ ": public key is not a SEC1 point"
  | .secretOutOfRange => Algorithm.secp256k1.name ++ ": secret key out of range"
  | .missingY => Algorithm.secp256k1.name ++ ": JWK missing y coordinate"
  | .coordinateLength => Algorithm.secp256k1.name ++ ": bad JWK coordinate length"
  | .codecMissing => "multicodec value too short"
  | .multibase fault => "multibase: " ++ fault.message

/-- Why an encoded header is no header. -/
inductive HeaderFault where
  | encoding (fault : Text.Base64Url.Fault)
  | content (fault : Json.Fault Empty)

/-- The text of a fault in an encoded header. -/
def HeaderFault.message : HeaderFault → String
  | .encoding fault => "invalid base64url: " ++ fault.message
  | .content fault => "protected header: " ++ fault.message nofun

/-- Why a value inside an envelope's text is rejected although it has the right
type. -/
inductive MemberFault where
  | octets (fault : Text.Base64Url.Fault)
  | protectedHeader (fault : HeaderFault)
  | missingRecipients
  | duplicateRecipient (kid : String)

/-- What is put in front of the text of whatever is wrong with an envelope. -/
def parseTitle : String := "failed to parse as JWE: "

/-- The text of a fault of a value inside an envelope's text. -/
def MemberFault.message : MemberFault → String
  | .octets fault => fault.message
  | .protectedHeader fault => parseTitle ++ fault.message
  | .missingRecipients => parseTitle ++ "missing recipients"
  | .duplicateRecipient kid => parseTitle ++ "duplicate recipient kid " ++ kid

/-- Why something that belongs to an envelope can not be read. -/
inductive ParseFault where
  /-- The text of the envelope itself. -/
  | envelope (fault : Json.Fault MemberFault)
  /-- An encoded protected header that came on its own. -/
  | protectedHeader (fault : HeaderFault)
  /-- Octets in a header or in a key. -/
  | octets (fault : Text.Base64Url.Fault)
  | ephemeralKey (fault : Json.Fault Empty)

/-- The text of a fault in something that belongs to an envelope. -/
def ParseFault.message : ParseFault → String
  | .envelope fault => fault.message MemberFault.message
  | .protectedHeader fault => fault.message
  | .octets fault => "invalid base64url: " ++ fault.message
  | .ephemeralKey fault => "malformed epk: " ++ fault.message nofun

/-- What an encryption failed in. -/
inductive EncryptionStage where
  | keyWrap
  | content
  deriving DecidableEq, Repr

/-- The text for a stage of encryption. -/
def EncryptionStage.message : EncryptionStage → String
  | .keyWrap => "key wrap"
  | .content => "content encryption"

/-- Why an operation failed. -/
inductive Error where
  | noRecipients
  | configuration (cause : Misconfiguration)
  | unsupportedAlgorithm (what : Unsupported)
  | unsupportedMethodType (name : String)
  | invalidKeyMaterial (fault : KeyFault)
  | algorithmMismatch (expected found : Algorithm)
  | missingMember (name : String)
  | inconsistentRecipients
  | missingSecret (kid : String)
  | recipientNotFound (kids : String)
  | missingEphemeralKey
  | missingHeader (name : String)
  | parse (fault : ParseFault)
  | encryptionFailed (stage : EncryptionStage)
  | decryptionFailed
  /-- A cipher, an agreement or a key wrap failed. -/
  | cryptography
  /-- A text that belongs to no envelope can not be read. -/
  | document (fault : Json.Fault Empty)

/-- The text of an error. -/
def Error.message : Error → String
  | .noRecipients => "no message recipients"
  | .configuration cause => "invalid configuration: " ++ cause.message
  | .unsupportedAlgorithm what => "unsupported algorithm: " ++ what.message
  | .unsupportedMethodType name => "unsupported verification method type: " ++ name
  | .invalidKeyMaterial fault => "invalid key material: " ++ fault.message
  | .algorithmMismatch expected found =>
    "key algorithm mismatch: expected " ++ expected.name ++ ", found " ++ found.name
  | .missingMember name => "verification method missing " ++ name
  | .inconsistentRecipients => "recipient key types must be consistent"
  | .missingSecret kid => "secret key material required for " ++ kid
  | .recipientNotFound kids => "recipient header not found: " ++ kids
  | .missingEphemeralKey => "missing ephemeral key"
  | .missingHeader name => "missing required header: " ++ name
  | .parse fault => parseTitle ++ fault.message
  | .encryptionFailed stage => "error " ++ stage.message
  | .decryptionFailed => "decryption failed"
  | .cryptography => "plugged cryptography failure"
  | .document fault => fault.message nofun

end SealedEnvelope
