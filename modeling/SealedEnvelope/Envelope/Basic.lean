import SealedEnvelope.Envelope.Header

/-!
# Envelopes

An envelope holds a message that was encrypted once, and for each recipient the
content key encrypted to that recipient.

The ciphertext is bound to the protected header and to the additional data of the
envelope, joined by a dot (`Envelope.associatedData`).  Base64url text has no dot,
so a protected header that was written never runs into what follows it.
-/

namespace SealedEnvelope

/-- The content key for one recipient, and the parameters to recover it with. -/
structure Recipient where
  header : Header
  encryptedKey : Bytes

namespace Recipient

/-- The name of the recipient's key, if it is given as text. -/
def kid? (recipient : Recipient) : Option String := recipient.header.kid?

/-- Equality of recipients. -/
def same (a b : Recipient) : Bool :=
  a.header.same b.header && a.encryptedKey = b.encryptedKey

end Recipient

/-- What encryption makes of a message. -/
structure Payload where
  ciphertext : Bytes
  nonce : Bytes
  tag : Bytes
  deriving DecidableEq, Repr

/-- An encrypted message for one or more recipients. -/
structure Envelope where
  protectedHeader : ProtectedHeader
  unprotected : Option Header
  recipients : List Recipient
  /-- Additional data in base64url. -/
  aad : Option String
  payload : Payload
  /-- Whether the only recipient is to be written without a list around it. -/
  flattened : Bool

/-- The octets of a protected header and of additional data that a ciphertext is
bound to. -/
def associatedData (protectedHeader : ProtectedHeader) (aad : Option String) : Bytes :=
  match aad with
  | none => Bytes.ofText protectedHeader.encoded
  | some aad => Bytes.ofText protectedHeader.encoded ++ 0x2e :: Bytes.ofText aad

namespace Envelope

/-- What the ciphertext is bound to. -/
def associatedData (envelope : Envelope) : Bytes :=
  SealedEnvelope.associatedData envelope.protectedHeader envelope.aad

/-- The entry of the recipient with the given name. -/
def recipient? (envelope : Envelope) (kid : String) : Option Recipient :=
  envelope.recipients.find? (·.kid? = some kid)

/-- The names of the recipients, in order. -/
def kids (envelope : Envelope) : List String := envelope.recipients.filterMap Recipient.kid?

/-- Equality of envelopes, where the order of parameters in a header does not
count. -/
def same (a b : Envelope) : Bool :=
  a.protectedHeader.same b.protectedHeader &&
  (match a.unprotected, b.unprotected with
    | none, none => true
    | some x, some y => x.same y
    | _, _ => false) &&
  a.recipients.length = b.recipients.length &&
  (a.recipients.zip b.recipients).all (fun (x, y) => x.same y) &&
  a.aad = b.aad && a.payload = b.payload && a.flattened = b.flattened

end Envelope

/-- The first name that occurs a second time in a list. -/
def firstRepeated? : (seen names : List String) → Option String
  | _, [] => none
  | seen, name :: rest =>
    if seen.contains name then some name else firstRepeated? (name :: seen) rest

end SealedEnvelope
