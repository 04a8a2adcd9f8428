import SealedEnvelope.Error
import SealedEnvelope.Key.Jwk

/-!
# Headers

A header is a JSON object whose members keep their order.  The protected header of
an envelope travels as base64url text, and it is that text, not the members, that
the ciphertext is bound to.  So a protected header keeps the text that it came as:
spelling a header again could change it.
-/

namespace SealedEnvelope

/-- A JSON object of parameters. -/
structure Header where
  members : Json.Members

namespace Header

/-- A header without parameters. -/
def empty : Header := ⟨[]⟩

/-- The header with one more parameter, or with another value for one that is
there. -/
def insert (header : Header) (name : String) (value : Json) : Header :=
  ⟨header.members.insert name value⟩

/-- The value of a parameter. -/
def get? (header : Header) (name : String) : Option Json := header.members.find? name

/-- The text of a parameter; none if it is absent or no string. -/
def text? (header : Header) (name : String) : Option String :=
  header.get? name >>= Json.asString?

/-- The key management algorithm. -/
def alg? (header : Header) : Option String := header.text? "alg"

/-- The content encryption algorithm. -/
def enc? (header : Header) : Option String := header.text? "enc"

/-- What is known of the sending party. -/
def apu? (header : Header) : Option String := header.text? "apu"

/-- What is known of the receiving party. -/
def apv? (header : Header) : Option String := header.text? "apv"

/-- The name of the sender's key. -/
def skid? (header : Header) : Option String := header.text? "skid"

/-- The name of the recipient's key. -/
def kid? (header : Header) : Option String := header.text? "kid"

/-- The sender's ephemeral key, if there is one. -/
def ephemeralKey (header : Header) : Except Error (Option Jwk) :=
  match header.get? "epk" with
  | none => .ok none
  | some value =>
    match Jwk.ofJson value with
    | .ok jwk => .ok (some jwk)
    | .error fault => .error (.parse (.ephemeralKey fault))

/-- The header as a JSON value. -/
def toJson (header : Header) : Json := .object header.members

/-- The text of a header. -/
def render (header : Header) : String := header.toJson.render

/-- Equality of headers, where the order of parameters does not count. -/
def same (a b : Header) : Bool := a.toJson.same b.toJson

/-- Reads a header. -/
def reader {ε : Type} : Json.Reader ε Header := fun depth tree =>
  (Json.Reader.members depth tree).map Header.mk

/-- Reads a header from a text. -/
def ofText {ε : Type} (text : Bytes) : Except (Json.Fault ε) Header := reader.whole text

end Header

/-- A header and the text that it travels as. -/
structure ProtectedHeader where
  encoded : String
  header : Header

namespace ProtectedHeader

/-- A header with its own text. -/
def ofHeader (header : Header) : ProtectedHeader :=
  ⟨Text.Base64Url.encode (Bytes.ofText header.render), header⟩

/-- The header that a text encodes; the text is kept as it is. -/
def ofEncoded (encoded : String) : Except HeaderFault ProtectedHeader :=
  match Text.Base64Url.decode encoded with
  | .error fault => .error (.encoding fault)
  | .ok text =>
    match Header.ofText text with
    | .error fault => .error (.content fault)
    | .ok header => .ok ⟨encoded, header⟩

/-- Equality of protected headers: the same text and the same parameters. -/
def same (a b : ProtectedHeader) : Bool := a.encoded = b.encoded && a.header.same b.header

end ProtectedHeader
end SealedEnvelope
