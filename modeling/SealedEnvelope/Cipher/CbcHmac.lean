import SealedEnvelope.Cipher.Aes.Cbc
import SealedEnvelope.Cipher.Sealed
import SealedEnvelope.Digest.Hmac

/-!
# Chained blocks with keyed hashing

The first half of a key authenticates, the second half enciphers.  What is
authenticated is the additional data, the nonce and the ciphertext, one behind the
other, and the length of the additional data.  There are no separators: the length
at the end and the fixed length of a nonce tell the parts apart.

The tag is the first half of the authentication code, and the tag of an envelope has
to be exactly that long.
-/

namespace SealedEnvelope.CbcHmac

/-- What is authenticated. -/
def authenticated (aad nonce ciphertext : Bytes) : Bytes :=
  aad ++ nonce ++ ciphertext ++ Bytes.ofNatBE 8 (8 * aad.length)

/-- The tag of a ciphertext under a key, as long as half a key. -/
def tag (hash : Hash) (key aad nonce ciphertext : Bytes) : Bytes :=
  let half := key.length / 2
  (Hmac.code hash (key.take half) (authenticated aad nonce ciphertext)).take half

/-- The cipher for a key of twice sixteen or twice 32 octets and a nonce of sixteen. -/
def cipher? (hash : Hash) (key nonce : Bytes) : Option Cipher := do
  let block ← Aes.Key.ofBytes? (key.drop (key.length / 2))
  let initial ← Aes.Block.ofBytes? nonce
  some
    { encipher := Aes.Cbc.encrypt block initial
      decipher? := Aes.Cbc.decrypt? block initial
      tag := fun aad ciphertext => tag hash key aad nonce ciphertext }

end SealedEnvelope.CbcHmac
