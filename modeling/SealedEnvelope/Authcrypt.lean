import SealedEnvelope.Anoncrypt

/-!
# Sender authenticated encryption

A message is encrypted under a fresh content key, and the content key is encrypted to
each recipient with one ephemeral key and the sender's own key.  All recipients have
keys of the sender's kind.  Their names, sorted, stand in the protected header, so
that the envelope does not depend on the order in which they are given.

The content comes first: the keys that encrypt the content key are bound to the tag
of the ciphertext, so a recipient can not pass the content key on under another
ciphertext.  That needs a cipher whose tag commits to the key, so only the ciphers
with keyed hashing are accepted.
-/

namespace SealedEnvelope.Authcrypt

/-- The family of key management algorithms. -/
def family : String := "ECDH-1PU"

/-- The key wrap that is used for encryption. -/
def keyWrap : KeyWrap := .a256Kw

/-- The key management algorithm that is used for encryption. -/
def alg : String := family ++ "+" ++ keyWrap.id

/-- The content encryption that is used for encryption. -/
def encryption : ContentEncryption := .a256CbcHs512

/-- The sorted names of recipients, with dots between them. -/
def joinedKids (recipients : List Identity) : String :=
  String.intercalate "." ((recipients.map (·.kid)).mergeSort fun a b => a ≤ b)

/-- Makes sure that all recipients have keys of the sender's kind. -/
def requireSameAlgorithm (sender : Identity) (recipients : List Identity) : Except Error Unit :=
  if recipients.all (·.algorithm = sender.algorithm) then .ok ()
  else .error .inconsistentRecipients

/-- The protected header. -/
def protectedHeader (sender : Identity) (parties : Agreement) (ephemeral : Key) : Header :=
  Header.mk [("alg", .string parties.algorithm), ("enc", .string encryption.id),
    ("apu", .string (Text.Base64Url.encode parties.partyU)),
    ("apv", .string (Text.Base64Url.encode parties.partyV)),
    ("epk", ephemeral.toJwk.toJson), ("skid", .string sender.kid)]

/-- What the sender and the recipients have in common. -/
def parties (sender : Identity) (recipients : List Identity) : Agreement :=
  ⟨alg, Bytes.ofText sender.kid, Bytes.ofText (joinedKids recipients)⟩

/-- The entry of a recipient. -/
def entry (parties : Agreement) (sender : Identity) (ephemeral : Key) (contentKey : ContentKey)
    (tag : Bytes) (recipient : Identity) : Except Error Recipient :=
  match Ecdh1Pu.wrapKey parties keyWrap ephemeral sender.key recipient.key contentKey tag with
  | .error _ => .error (.encryptionFailed .keyWrap)
  | .ok wrapped => .ok ⟨Header.empty.insert "kid" (.string recipient.kid), wrapped⟩

/-- Adds an entry for each recipient. -/
def addEntries (entry : Identity → Except Error Recipient) :
    Builder → List Identity → Except Error Builder
  | builder, [] => .ok builder
  | builder, recipient :: rest => do
    addEntries entry (← (Builder.addRecipient (← entry recipient)).onto builder) rest

/-- Encrypts a message into an envelope that was begun before. -/
def encryptInto (builder : Builder) (recipients : List Identity) (sender : Identity)
    (message : Bytes) : Drawing Envelope := do
  if recipients.isEmpty then throw .noRecipients
  requireSecret sender
  Anoncrypt.requireAgreement sender
  requireSameAlgorithm sender recipients
  let parties := parties sender recipients
  let ephemeral ← Key.generate sender.algorithm
  let builder ← (Builder.setProtected (protectedHeader sender parties ephemeral)).onto builder
  let contentKey ← ContentKey.generate encryption
  let aad ← builder.associatedData
  let payload ← (contentKey.encrypt message aad).failingWith (.encryptionFailed .content)
  let builder ← addEntries (entry parties sender ephemeral contentKey payload.tag) builder
    recipients
  let builder ← (Builder.setPayload payload).onto builder
  builder.build

/-- Encrypts a message, and gives the text of the envelope. -/
def encrypt (recipients : List Identity) (sender : Identity) (message : Bytes) :
    Drawing String := do
  let envelope ← encryptInto .empty recipients sender message
  pure envelope.render

/-- The cipher of a name, which has to be one with keyed hashing. -/
def encryptionOf (alg enc : String) : Except Error ContentEncryption := do
  let encryption ← ContentEncryption.ofId enc
  if encryption.isCbcHmac then .ok encryption
  else .error (.unsupportedAlgorithm (.combination encryption.id alg))

/-- Decrypts an envelope as one of its recipients, from a known sender. -/
def decryptEnvelope (envelope : Envelope) (recipient sender : Identity) : Except Error Bytes := do
  let header := envelope.protectedHeader.header
  let alg ← requireHeader header.alg? "alg"
  let wrap ← keyWrapOf family alg
  let enc ← requireHeader header.enc? "enc"
  let encryption ← encryptionOf alg enc
  match envelope.recipient? recipient.kid with
  | none => .error (.recipientNotFound recipient.kid)
  | some entry => do
    requireSecret recipient
    let ephemeral ← header.requireEphemeralKey
    let partyU ← header.octets "apu"
    let partyV ← header.octets "apv"
    opaquely do
      let contentKey ← Ecdh1Pu.unwrapKey ⟨alg, partyU, partyV⟩ wrap encryption ephemeral
        sender.key recipient.key entry.encryptedKey envelope.payload.tag
      contentKey.decrypt envelope.payload envelope.associatedData

/-- Decrypts an envelope from a source as one of its recipients, from a known sender. -/
def decrypt (source : Source) (recipient sender : Identity) : Except Error Bytes := do
  decryptEnvelope (← source.envelope) recipient sender

end SealedEnvelope.Authcrypt
