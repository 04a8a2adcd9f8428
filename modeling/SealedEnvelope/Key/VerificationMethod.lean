import SealedEnvelope.Json.Record
import SealedEnvelope.Key.Identity

/-!
# Verification methods

A verification method is a record of a public key in a document about somebody's
keys.  The record names a type, and the type says how the key is given.

* A `Multikey` is self-describing.
* The types that belong to one algorithm give the octets of the key alone, or behind
  the tag of that algorithm, in multibase or in plain base 58.

Octets alone and octets behind a tag can not be mixed up: the former have a length
that the latter never have, or start with the tag of a point, which starts no
algorithm's tag.
-/

namespace SealedEnvelope

open Json (Reader Schema)

/-- The type of a verification method. -/
inductive MethodType where
  | multikey
  | ed25519VerificationKey2018
  | ed25519VerificationKey2020
  | x25519KeyAgreementKey2019
  | x25519KeyAgreementKey2020
  | ecdsaSecp256k1VerificationKey2019
  | unsupported (name : String)
  deriving DecidableEq, Repr

namespace MethodType

/-- The types that are supported. -/
def supported : List MethodType :=
  [.multikey, .ed25519VerificationKey2018, .ed25519VerificationKey2020,
   .x25519KeyAgreementKey2019, .x25519KeyAgreementKey2020, .ecdsaSecp256k1VerificationKey2019]

/-- The name of a type. -/
def name : MethodType → String
  | .multikey => "Multikey"
  | .ed25519VerificationKey2018 => "Ed25519VerificationKey2018"
  | .ed25519VerificationKey2020 => "Ed25519VerificationKey2020"
  | .x25519KeyAgreementKey2019 => "X25519KeyAgreementKey2019"
  | .x25519KeyAgreementKey2020 => "X25519KeyAgreementKey2020"
  | .ecdsaSecp256k1VerificationKey2019 => "EcdsaSecp256k1VerificationKey2019"
  | .unsupported name => name

/-- The type of a name. -/
def ofName (name : String) : MethodType :=
  (supported.find? (·.name = name)).getD (.unsupported name)

/-- The algorithm that a type belongs to, if it belongs to one. -/
def algorithm? : MethodType → Option Algorithm
  | .ed25519VerificationKey2018 | .ed25519VerificationKey2020 => some .ed25519
  | .x25519KeyAgreementKey2019 | .x25519KeyAgreementKey2020 => some .x25519
  | .ecdsaSecp256k1VerificationKey2019 => some .secp256k1
  | .multikey | .unsupported _ => none

end MethodType

/-- A record of a public key. -/
structure VerificationMethod where
  id : Option String
  type : Option String
  controller : Option String
  publicKeyMultibase : Option String
  publicKeyBase58 : Option String
  deriving DecidableEq, Repr

namespace VerificationMethod

/-- The members of a verification method, none of which is required. -/
def schema : Schema Empty VerificationMethod VerificationMethod where
  title := "struct VerificationMethod"
  fields :=
    [.of "id" Reader.text.optional fun id method => { method with id },
     .of "type" Reader.text.optional fun type method => { method with type },
     .of "controller" Reader.text.optional fun controller method => { method with controller },
     .withAlias "publicKeyMultibase" "publicKeyMultiBase" Reader.text.optional
       fun publicKeyMultibase method => { method with publicKeyMultibase },
     .of "publicKeyBase58" Reader.text.optional fun publicKeyBase58 method =>
       { method with publicKeyBase58 }]
  blank := ⟨none, none, none, none, none⟩
  finish := .ok
  positional := true
  keep := none

/-- Reads a verification method from a text. -/
def ofText (text : String) : Except Error VerificationMethod :=
  (schema.read.whole (Bytes.ofText text)).mapError .document

/-- The members of a verification method's text, in order. -/
def toMembers (method : VerificationMethod) : Json.Members :=
  let member (name : String) (value : Option String) : Json.Members :=
    (value.map fun text => (name, Json.string text)).toList
  member "id" method.id ++ member "type" method.type ++ member "controller" method.controller ++
    member "publicKeyMultibase" method.publicKeyMultibase ++
    member "publicKeyBase58" method.publicKeyBase58

/-- The text of a verification method. -/
def render (method : VerificationMethod) : String := (Json.object method.toMembers).render

/-- A member that has to be there. -/
def required (member : Option String) (name : String) : Except Error String :=
  match member with
  | some text => .ok text
  | none => .error (.missingMember name)

/-- The name of the key.  An identifier that starts with `#` is relative to the
controller. -/
def kid (method : VerificationMethod) : Except Error String := do
  let id ← required method.id "id"
  let controller ← required method.controller "controller"
  .ok (if id.toList.head? = some '#' then controller ++ id else id)

/-- The type of the method. -/
def methodType (method : VerificationMethod) : Except Error MethodType := do
  .ok (.ofName (← required method.type "type"))

/-- The octets that are given for the key. -/
def material (method : VerificationMethod) : Except Error Bytes :=
  match method.publicKeyMultibase, method.publicKeyBase58 with
  | some text, none => Multikey.octets text
  | none, some text => Multikey.octets ("z" ++ text)
  | some _, some _ => .error (.configuration .bothKeyEncodingsSet)
  | none, none => .error (.missingMember "publicKeyMultibase")

/-- Whether octets are a key alone, without a tag. -/
def isRaw (algorithm : Algorithm) (bytes : Bytes) : Bool :=
  if bytes.length = 32 then true
  else
    match algorithm, bytes with
    | .secp256k1, first :: _ =>
      if first = 0x02 ∨ first = 0x03 then bytes.length = 33
      else first = 0x04 && bytes.length = 65
    | _, _ => false

/-- The key that octets stand for, alone or behind a tag. -/
def keyOfMaterial (expected : Algorithm) (bytes : Bytes) : Except Error Key :=
  if isRaw expected bytes then Key.ofPublicBytes expected bytes
  else do
    let (found, rest) ← Multikey.unwrap bytes
    if found = expected then Key.ofPublicBytes found rest
    else .error (.algorithmMismatch expected found)

/-- The identity that a verification method stands for. -/
def resolve (method : VerificationMethod) : Except Error Identity := do
  let type ← method.methodType
  let kid ← method.kid
  match type, type.algorithm? with
  | .multikey, _ => do
    Identity.ofMultikey (← required method.publicKeyMultibase "publicKeyMultibase") kid
  | _, some expected => do .ok ⟨← keyOfMaterial expected (← method.material), kid⟩
  | type, none => .error (.unsupportedMethodType type.name)

end VerificationMethod
end SealedEnvelope
