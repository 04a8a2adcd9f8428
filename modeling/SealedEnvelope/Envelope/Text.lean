import SealedEnvelope.Envelope.Basic
import SealedEnvelope.Json.Record

/-!
# The text of an envelope

An envelope is a JSON object whose octets are base64url texts.  There are two
forms: the general one with a list of recipients, and the flattened one where the
header and the encrypted key of the only recipient are members of the envelope.
If a text has both, the list counts.

Reading has two steps.  `Envelope.schema` collects the members (`Envelope.Parts`),
and `Parts.toEnvelope` sees to what concerns several of them: there must be
recipients, and no two of them may have the same name.
-/

namespace SealedEnvelope

open Json (Reader Schema Fault)
open Text

/-- Reads octets given in base64url. -/
def octetsReader : Reader MemberFault Bytes :=
  .textThen fun text => (Base64Url.decode text).mapError .octets

namespace Recipient

/-- What was read of a recipient so far. -/
structure Parts where
  header : Option Header
  encryptedKey : Option Bytes

/-- The members of a recipient; a missing header is empty. -/
def schema : Schema MemberFault Parts Recipient where
  title := "struct Recipient"
  fields :=
    [.of "header" Header.reader fun header parts => { parts with header := some header },
     .of "encrypted_key" octetsReader fun key parts => { parts with encryptedKey := some key }]
  blank := ⟨none, none⟩
  finish := fun parts =>
    match parts.encryptedKey with
    | some key => .ok ⟨parts.header.getD .empty, key⟩
    | none => .error "encrypted_key"
  positional := true
  keep := none

/-- A recipient as a JSON value. -/
def toJson (recipient : Recipient) : Json :=
  .object [("header", recipient.header.toJson),
    ("encrypted_key", .string (Base64Url.encode recipient.encryptedKey))]

end Recipient

/-- Reads a protected header. -/
def ProtectedHeader.reader : Reader MemberFault ProtectedHeader :=
  .textThen fun text => (ProtectedHeader.ofEncoded text).mapError .protectedHeader

namespace Envelope

/-- The members of an envelope. -/
structure Parts where
  protectedHeader : ProtectedHeader
  unprotected : Option Header
  recipients : Option (List Recipient)
  header : Option Header
  encryptedKey : Option Bytes
  aad : Option String
  payload : Payload

/-- What was read of an envelope so far. -/
structure Draft where
  protectedHeader : Option ProtectedHeader
  unprotected : Option Header
  recipients : Option (List Recipient)
  header : Option Header
  encryptedKey : Option Bytes
  aad : Option String
  iv : Option Bytes
  ciphertext : Option Bytes
  tag : Option Bytes

/-- The members of an envelope. -/
def schema : Schema MemberFault Draft Parts where
  title := "struct JweParts"
  fields :=
    [.of "protected" ProtectedHeader.reader fun header draft =>
       { draft with protectedHeader := some header },
     .of "unprotected" (Header.reader).optional fun unprotected draft =>
       { draft with unprotected },
     .of "recipients" (Reader.list Recipient.schema.read).optional fun recipients draft =>
       { draft with recipients },
     .of "header" (Header.reader).optional fun header draft => { draft with header },
     .of "encrypted_key" octetsReader.optional fun encryptedKey draft =>
       { draft with encryptedKey },
     .of "aad" Reader.text.optional fun aad draft => { draft with aad },
     .of "iv" octetsReader fun iv draft => { draft with iv := some iv },
     .of "ciphertext" octetsReader fun ciphertext draft =>
       { draft with ciphertext := some ciphertext },
     .of "tag" octetsReader fun tag draft => { draft with tag := some tag }]
  blank := ⟨none, none, none, none, none, none, none, none, none⟩
  finish := fun draft => do
    let protectedHeader ← draft.protectedHeader.elim (.error "protected") .ok
    let iv ← draft.iv.elim (.error "iv") .ok
    let ciphertext ← draft.ciphertext.elim (.error "ciphertext") .ok
    let tag ← draft.tag.elim (.error "tag") .ok
    .ok ⟨protectedHeader, draft.unprotected, draft.recipients, draft.header, draft.encryptedKey,
      draft.aad, ⟨ciphertext, iv, tag⟩⟩
  positional := true
  keep := none

/-- The recipients that the members name, and whether they name the only one
without a list. -/
def Parts.recipients? (parts : Parts) : Option (List Recipient × Bool) :=
  match parts.recipients, parts.encryptedKey with
  | some recipients, _ => some (recipients, false)
  | none, some key => some ([⟨parts.header.getD .empty, key⟩], true)
  | none, none => none

/-- The envelope that has these members. -/
def Parts.toEnvelope (parts : Parts) : Except MemberFault Envelope :=
  match parts.recipients? with
  | none => .error .missingRecipients
  | some (recipients, flattened) =>
    match firstRepeated? [] (recipients.filterMap Recipient.kid?) with
    | some kid => .error (.duplicateRecipient kid)
    | none =>
      .ok ⟨parts.protectedHeader, parts.unprotected, recipients, parts.aad, parts.payload,
        flattened⟩

/-- Reads an envelope. -/
def reader : Reader MemberFault Envelope := fun depth tree => do
  let parts ← schema.read depth tree
  parts.toEnvelope.mapError .rejected

/-- Reads an envelope from the octets of its text. -/
def ofBytes (text : Bytes) : Except Error Envelope :=
  (reader.whole text).mapError fun fault => .parse (.envelope fault)

/-- Reads an envelope from its text. -/
def ofText (text : String) : Except Error Envelope := ofBytes (Bytes.ofText text)

/-! ## Writing -/

/-- The members that say for whom an envelope is. -/
def recipientMembers (envelope : Envelope) : Json.Members :=
  match envelope.flattened, envelope.recipients with
  | true, [recipient] =>
    [("header", recipient.header.toJson),
     ("encrypted_key", .string (Base64Url.encode recipient.encryptedKey))]
  | _, recipients => [("recipients", .array (recipients.map Recipient.toJson))]

/-- The members of an envelope's text, in order. -/
def toMembers (envelope : Envelope) : Json.Members :=
  [("protected", .string envelope.protectedHeader.encoded)] ++
    (envelope.unprotected.map fun header => ("unprotected", header.toJson)).toList ++
    envelope.recipientMembers ++
    (envelope.aad.map fun aad => ("aad", Json.string aad)).toList ++
    [("iv", .string (Base64Url.encode envelope.payload.nonce)),
     ("ciphertext", .string (Base64Url.encode envelope.payload.ciphertext)),
     ("tag", .string (Base64Url.encode envelope.payload.tag))]

/-- The text of an envelope. -/
def render (envelope : Envelope) : String := (Json.object envelope.toMembers).render

end Envelope

/-- What an envelope is taken from. -/
inductive Source where
  | octets (bytes : Bytes)
  | text (characters : String)
  | parsed (envelope : Envelope)

/-- The envelope of a source. -/
def Source.envelope : Source → Except Error Envelope
  | .octets bytes => Envelope.ofBytes bytes
  | .text characters => Envelope.ofText characters
  | .parsed envelope => .ok envelope

end SealedEnvelope
