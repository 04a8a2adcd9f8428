import SealedEnvelope.Error

/-!
# Content encryption algorithms

The ciphers for messages, by the names that headers use, with the lengths in octets
of their keys, nonces and tags.
-/

namespace SealedEnvelope

/-- A cipher for messages. -/
inductive ContentEncryption where
  | a128Gcm
  | a256Gcm
  | a128CbcHs256
  | a256CbcHs512
  | xc20p
  deriving DecidableEq, Repr

namespace ContentEncryption

/-- All ciphers. -/
def all : List ContentEncryption := [.a128Gcm, .a256Gcm, .a128CbcHs256, .a256CbcHs512, .xc20p]

/-- The name of a cipher. -/
def id : ContentEncryption → String
  | .a128Gcm => "A128GCM"
  | .a256Gcm => "A256GCM"
  | .a128CbcHs256 => "A128CBC-HS256"
  | .a256CbcHs512 => "A256CBC-HS512"
  | .xc20p => "XC20P"

/-- The cipher of a name. -/
def ofId (id : String) : Except Error ContentEncryption :=
  match all.find? (·.id = id) with
  | some encryption => .ok encryption
  | none => .error (.unsupportedAlgorithm (.contentEncryption id))

@[simp] theorem ofId_id (encryption : ContentEncryption) :
    ofId encryption.id = .ok encryption := by
  cases encryption <;> rfl

/-- The length of a key. -/
def keySize : ContentEncryption → Nat
  | .a128Gcm => 16
  | .a256Gcm | .a128CbcHs256 | .xc20p => 32
  | .a256CbcHs512 => 64

/-- The length of a nonce. -/
def nonceSize : ContentEncryption → Nat
  | .a128Gcm | .a256Gcm => 12
  | .a128CbcHs256 | .a256CbcHs512 => 16
  | .xc20p => 24

/-- The length of a tag. -/
def tagSize : ContentEncryption → Nat
  | .a256CbcHs512 => 32
  | _ => 16

/-- Whether the cipher is made of chained blocks and keyed hashing. -/
def isCbcHmac : ContentEncryption → Bool
  | .a128CbcHs256 | .a256CbcHs512 => true
  | _ => false

end ContentEncryption
end SealedEnvelope
