import SealedEnvelope.Changing
import SealedEnvelope.Envelope.Basic

/-!
# Building an envelope

An envelope is put together in steps.  The order of the steps is free as far as
the ciphertext allows: what it is bound to, the protected header and the additional
data, has to be there before the payload and stays as it is afterwards.  A step that
does not fit fails.
-/

namespace SealedEnvelope

/-- An envelope in the making. -/
structure Builder where
  protectedHeader : Option ProtectedHeader
  unprotected : Option Header
  recipients : List Recipient
  aad : Option String
  payload : Option Payload
  /-- Whether an only recipient is to be written without a list around it. -/
  flatten : Bool

namespace Builder

/-- The builder of which nothing was set yet. -/
def empty : Builder := ⟨none, none, [], none, none, false⟩

/-- Says whether an only recipient is to be written without a list around it. -/
def withFlatten (builder : Builder) (flatten : Bool) : Builder := { builder with flatten }

/-- Sets the protected header, once. -/
def setProtected (header : Header) : Changing Builder Unit := do
  if (← get).protectedHeader.isSome then throw (.configuration .protectedHeaderAlreadySet)
  modify fun builder => { builder with protectedHeader := some (.ofHeader header) }

/-- Sets the unprotected header. -/
def setUnprotected (header : Header) : Changing Builder Unit :=
  modify fun builder => { builder with unprotected := some header }

/-- Sets the additional data, as long as there is no payload. -/
def setAad (aad : Bytes) : Changing Builder Unit := do
  if (← get).payload.isSome then throw (.configuration .aadAfterPayload)
  modify fun builder => { builder with aad := some (Text.Base64Url.encode aad) }

/-- Whether a recipient has the given name. -/
def hasRecipient (builder : Builder) (kid : String) : Bool :=
  builder.recipients.any (·.kid? = some kid)

/-- Adds a recipient, whose name must be new if it has one. -/
def addRecipient (recipient : Recipient) : Changing Builder Unit := do
  if let some kid := recipient.kid? then
    if (← get).hasRecipient kid then throw (.configuration (.duplicateRecipient kid))
  modify fun builder => { builder with recipients := builder.recipients ++ [recipient] }

/-- The text of the protected header. -/
def protectedText (builder : Builder) : Except Error String :=
  match builder.protectedHeader with
  | some header => .ok header.encoded
  | none => .error (.configuration .protectedHeaderNotSet)

/-- What the payload has to be bound to. -/
def associatedData (builder : Builder) : Except Error Bytes :=
  match builder.protectedHeader with
  | some header => .ok (SealedEnvelope.associatedData header builder.aad)
  | none => .error (.configuration .protectedHeaderNotSet)

/-- Sets the payload, once, after the protected header. -/
def setPayload (payload : Payload) : Changing Builder Unit := do
  if (← get).protectedHeader.isNone then
    throw (.configuration .payloadBeforeProtectedHeader)
  if (← get).payload.isSome then throw (.configuration .payloadAlreadySet)
  modify fun builder => { builder with payload := some payload }

/-- The finished envelope. -/
def build (builder : Builder) : Except Error Envelope :=
  if builder.recipients.isEmpty then .error .noRecipients
  else
    match builder.protectedHeader, builder.payload with
    | some header, some payload =>
      .ok ⟨header, builder.unprotected, builder.recipients, builder.aad, payload, builder.flatten⟩
    | _, _ => .error (.configuration .payloadNeverSet)

/-! ## Whole histories -/

/-- One step of putting an envelope together. -/
inductive Step where
  | flatten (flatten : Bool)
  | protectedHeader (header : Header)
  | unprotected (header : Header)
  | aad (aad : Bytes)
  | recipient (recipient : Recipient)
  | payload (payload : Payload)

/-- Takes a step. -/
def take : Step → Changing Builder Unit
  | .flatten flatten => modify (·.withFlatten flatten)
  | .protectedHeader header => setProtected header
  | .unprotected header => setUnprotected header
  | .aad aad => setAad aad
  | .recipient recipient => addRecipient recipient
  | .payload payload => setPayload payload

/-- Takes steps one after the other.  If one of them fails, it goes on with what that one left
behind. -/
def run (builder : Builder) (steps : List Step) : Builder :=
  steps.foldl (fun builder step => (take step).leaves builder) builder

end Builder
end SealedEnvelope
