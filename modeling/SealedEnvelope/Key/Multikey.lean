import SealedEnvelope.Error

/-!
# Multikeys

A public key as one text: a tag of two octets says what kind of key it is, the octets
of the key follow, and the whole is written in multibase.  Writing uses base 58;
reading accepts every multibase encoding.
-/

namespace SealedEnvelope

namespace Algorithm

/-- The name of the tag for the public keys of an algorithm. -/
def codecName : Algorithm → String
  | .ed25519 => "ed25519-pub"
  | .x25519 => "x25519-pub"
  | .secp256k1 => "secp256k1-pub"

/-- The tag for the public keys of an algorithm. -/
def tag : Algorithm → UInt8 × UInt8
  | .ed25519 => (0xed, 0x01)
  | .x25519 => (0xec, 0x01)
  | .secp256k1 => (0xe7, 0x01)

/-- All algorithms. -/
def all : List Algorithm := [.ed25519, .x25519, .secp256k1]

/-- The algorithm whose public keys have a tag. -/
def ofTag? (tag : UInt8 × UInt8) : Option Algorithm := all.find? (·.tag = tag)

@[simp] theorem ofTag?_tag (algorithm : Algorithm) : ofTag? algorithm.tag = some algorithm := by
  cases algorithm <;> rfl

end Algorithm

namespace Multikey

/-- The octets of a key behind their tag. -/
def wrap (algorithm : Algorithm) (bytes : Bytes) : Bytes :=
  algorithm.tag.1 :: algorithm.tag.2 :: bytes

/-- The octets of a key without their tag, and what the tag says. -/
def unwrap : Bytes → Except Error (Algorithm × Bytes)
  | a :: b :: bytes =>
    match Algorithm.ofTag? (a, b) with
    | some algorithm => .ok (algorithm, bytes)
    | none => .error (.unsupportedAlgorithm (.codec [a, b]))
  | _ => .error (.invalidKeyMaterial .codecMissing)

@[simp] theorem unwrap_wrap (algorithm : Algorithm) (bytes : Bytes) :
    unwrap (wrap algorithm bytes) = .ok (algorithm, bytes) := by
  cases algorithm <;> rfl

/-- The text of a key. -/
def encode (algorithm : Algorithm) (bytes : Bytes) : String :=
  Multibase.encodeBase58 (wrap algorithm bytes)

/-- The octets that a multibase text spells. -/
def octets (text : String) : Except Error Bytes :=
  (Multibase.decode text).mapError fun fault => .invalidKeyMaterial (.multibase fault)

/-- The octets of a key, and what kind of key it is. -/
def decode (text : String) : Except Error (Algorithm × Bytes) := do unwrap (← octets text)

end Multikey
end SealedEnvelope
