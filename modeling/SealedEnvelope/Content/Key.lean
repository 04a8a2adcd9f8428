import SealedEnvelope.Cipher.Aes.Gcm
import SealedEnvelope.Cipher.CbcHmac
import SealedEnvelope.Cipher.XChaChaPoly
import SealedEnvelope.Content.Encryption
import SealedEnvelope.Digest.Sha256
import SealedEnvelope.Digest.Sha512
import SealedEnvelope.Drawing
import SealedEnvelope.Envelope.Basic

/-!
# Content keys

A content key belongs to one cipher and has the length that the cipher asks for.
`ContentKey.sealWith` encrypts under a given nonce, `ContentKey.encrypt` draws the
nonce first.  Decrypting needs a nonce and a tag of the right lengths, and all its
failures look the same.
-/

namespace SealedEnvelope

/-- A key for the cipher of a message. -/
structure ContentKey where
  encryption : ContentEncryption
  secret : Octets encryption.keySize

namespace ContentKey

/-- Draws a key. -/
def generate (encryption : ContentEncryption) : Draw ContentKey := do
  let secret ← Entropy.draw encryption.keySize
  pure ⟨encryption, secret⟩

/-- The key of octets that are as many as the cipher asks for. -/
def ofBytes (encryption : ContentEncryption) (bytes : Bytes) : Except Error ContentKey :=
  match Octets.ofBytes? encryption.keySize bytes with
  | some secret => .ok ⟨encryption, secret⟩
  | none => .error .cryptography

/-- The octets of a key. -/
def bytes (key : ContentKey) : Bytes := key.secret.val

/-- The cipher of a key under a nonce, which must have the right length. -/
def cipher? (key : ContentKey) (nonce : Bytes) : Option Cipher :=
  if nonce.length = key.encryption.nonceSize then
    match key.encryption with
    | .a128Gcm | .a256Gcm => (Aes.Key.ofBytes? key.bytes).map (Aes.Gcm.cipher · nonce)
    | .xc20p => some (XChaChaPoly.cipher key.bytes nonce)
    | .a128CbcHs256 => CbcHmac.cipher? Sha256.hash key.bytes nonce
    | .a256CbcHs512 => CbcHmac.cipher? Sha512.hash key.bytes nonce
  else none

/-- Encrypts a message under a given nonce. -/
def sealWith (key : ContentKey) (nonce aad message : Bytes) : Except Error Payload :=
  match key.cipher? nonce with
  | some cipher =>
    let (ciphertext, tag) := cipher.sealMessage aad message
    .ok ⟨ciphertext, nonce, tag⟩
  | none => .error .cryptography

/-- Encrypts a message under a nonce that is drawn. -/
def encrypt (key : ContentKey) (message aad : Bytes) : Drawing Payload := do
  let nonce ← Entropy.draw key.encryption.nonceSize
  liftM (key.sealWith nonce.val aad message)

/-- The message of a payload, if its nonce and its tag have the right lengths and the
tag belongs to it. -/
def open? (key : ContentKey) (payload : Payload) (aad : Bytes) : Option Bytes :=
  if payload.tag.length = key.encryption.tagSize then
    key.cipher? payload.nonce >>= (·.openMessage? aad payload.ciphertext payload.tag)
  else none

/-- Decrypts a message. -/
def decrypt (key : ContentKey) (payload : Payload) (aad : Bytes) : Except Error Bytes :=
  match key.open? payload aad with
  | some message => .ok message
  | none => .error .cryptography

end ContentKey
end SealedEnvelope
