import SealedEnvelope.Agreement.Wrapping
import SealedEnvelope.Envelope.Builder
import SealedEnvelope.Envelope.Parameters
import SealedEnvelope.Envelope.Text

/-!
# Anonymous encryption

A message is encrypted under a fresh content key, and the content key is encrypted to
each recipient with an ephemeral key of its own.  The envelope does not say who sent
it, and nobody but a recipient can open it.
-/

namespace SealedEnvelope

namespace Anoncrypt

/-- The family of key management algorithms. -/
def family : String := "ECDH-ES"

/-- The key wrap that is used for encryption. -/
def keyWrap : KeyWrap := .a256Kw

/-- The key management algorithm that is used for encryption. -/
def alg : String := family ++ "+" ++ keyWrap.id

/-- The content encryption that is used for encryption. -/
def encryption : ContentEncryption := .xc20p

/-- Makes sure that an identity can agree on secrets. -/
def requireAgreement (identity : Identity) : Except Error Unit :=
  if identity.algorithm.supportsAgreement then .ok ()
  else .error (.unsupportedAlgorithm (.recipientAgreement identity.algorithm identity.kid))

/-- Makes sure that all identities can agree on secrets. -/
def requireAgreements : List Identity → Except Error Unit
  | [] => .ok ()
  | identity :: rest => do
    requireAgreement identity
    requireAgreements rest

/-- The entry of a recipient, for an ephemeral key. -/
def entry (contentKey : ContentKey) (recipient : Identity) (ephemeral : Key) :
    Except Error Recipient :=
  match EcdhEs.wrapKey ⟨alg, [], []⟩ keyWrap ephemeral recipient.key contentKey with
  | .error _ => .error (.encryptionFailed .keyWrap)
  | .ok wrapped =>
    let header := (Header.empty.insert "kid" (.string recipient.kid)).insert "epk"
      ephemeral.toJwk.toJson
    .ok ⟨header, wrapped⟩

/-- Adds an entry for each recipient. -/
def addEntries (contentKey : ContentKey) : Builder → List Identity → Drawing Builder
  | builder, [] => pure builder
  | builder, recipient :: rest => do
    let ephemeral ← Key.generate recipient.algorithm
    let entry ← entry contentKey recipient ephemeral
    addEntries contentKey (← (Builder.addRecipient entry).onto builder) rest

/-- The protected header. -/
def protectedHeader : Header :=
  (Header.empty.insert "alg" (.string alg)).insert "enc" (.string encryption.id)

/-- Encrypts a message into an envelope that was begun before. -/
def encryptInto (builder : Builder) (recipients : List Identity) (message : Bytes) :
    Drawing Envelope := do
  if recipients.isEmpty then throw .noRecipients
  requireAgreements recipients
  let contentKey ← ContentKey.generate encryption
  let builder ← addEntries contentKey builder recipients
  let builder ← (Builder.setProtected protectedHeader).onto builder
  let aad ← builder.associatedData
  let payload ← (contentKey.encrypt message aad).failingWith (.encryptionFailed .content)
  let builder ← (Builder.setPayload payload).onto builder
  builder.build

/-- Encrypts a message, and gives the text of the envelope. -/
def encrypt (recipients : List Identity) (message : Bytes) : Drawing String := do
  let envelope ← encryptInto .empty recipients message
  pure envelope.render

/-- Decrypts an envelope as one of its recipients. -/
def decryptEnvelope (envelope : Envelope) (recipient : Identity) : Except Error Bytes := do
  let header := envelope.protectedHeader.header
  let alg ← requireHeader header.alg? "alg"
  let wrap ← keyWrapOf family alg
  match envelope.recipient? recipient.kid with
  | none => .error (.recipientNotFound recipient.kid)
  | some entry => do
    let enc ← requireHeader (header.enc? <|> entry.header.enc?) "enc"
    let encryption ← ContentEncryption.ofId enc
    requireSecret recipient
    let ephemeral ← entry.header.requireEphemeralKey
    let partyU ← header.octetsFor entry.header "apu"
    let partyV ← header.octetsFor entry.header "apv"
    opaquely do
      let contentKey ← EcdhEs.unwrapKey ⟨alg, partyU, partyV⟩ wrap encryption ephemeral
        recipient.key entry.encryptedKey
      contentKey.decrypt envelope.payload envelope.associatedData

/-- Decrypts an envelope from a source as one of its recipients. -/
def decrypt (source : Source) (recipient : Identity) : Except Error Bytes := do
  decryptEnvelope (← source.envelope) recipient

end Anoncrypt
end SealedEnvelope
