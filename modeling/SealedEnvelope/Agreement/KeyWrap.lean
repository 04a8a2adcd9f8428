import SealedEnvelope.Cipher.Aes.KeyWrap
import SealedEnvelope.Error

/-!
# Key wrap algorithms

The algorithms that encrypt a content key under an agreed one, by the names that
headers use.
-/

namespace SealedEnvelope

/-- A way to encrypt a content key. -/
inductive KeyWrap where
  | a128Kw
  | a256Kw
  deriving DecidableEq, Repr

namespace KeyWrap

/-- All key wraps. -/
def all : List KeyWrap := [.a128Kw, .a256Kw]

/-- The name of a key wrap. -/
def id : KeyWrap → String
  | .a128Kw => "A128KW"
  | .a256Kw => "A256KW"

/-- The key wrap of a name. -/
def ofId? (id : String) : Option KeyWrap := all.find? (·.id = id)

/-- The key wrap of a name, which has to be one. -/
def ofId (id : String) : Except Error KeyWrap :=
  match ofId? id with
  | some wrap => .ok wrap
  | none => .error (.unsupportedAlgorithm (.keyWrap id))

@[simp] theorem ofId?_id (wrap : KeyWrap) : ofId? wrap.id = some wrap := by
  cases wrap <;> rfl

/-- The length of the key that encrypts. -/
def keySize : KeyWrap → Nat
  | .a128Kw => 16
  | .a256Kw => 32

/-- The cipher for a key, which must have the right length. -/
def cipher? (wrap : KeyWrap) (key : Bytes) : Option Aes.Key :=
  if key.length = wrap.keySize then Aes.Key.ofBytes? key else none

/-- Encrypts a content key. -/
def wrap? (wrap : KeyWrap) (key secret : Bytes) : Option Bytes := do
  Aes.KeyWrap.wrap? (← wrap.cipher? key) secret

/-- Decrypts a content key, if it was encrypted under the same key. -/
def unwrap? (wrap : KeyWrap) (key wrapped : Bytes) : Option Bytes := do
  Aes.KeyWrap.unwrap? (← wrap.cipher? key) wrapped

end KeyWrap
end SealedEnvelope
