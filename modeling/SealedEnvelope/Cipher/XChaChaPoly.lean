import SealedEnvelope.Cipher.ChaCha
import SealedEnvelope.Cipher.Poly1305
import SealedEnvelope.Cipher.Sealed
import SealedEnvelope.Cipher.Stream

/-!
# XChaCha20 with Poly1305

The first sixteen octets of the nonce go into the key, the other eight are the nonce
of the stream.  The first block of the key stream is the key of the authenticator,
and the message is enciphered from the second one on.
-/

namespace SealedEnvelope.XChaChaPoly

/-- What is authenticated: both texts filled up with zeros, and their lengths. -/
def authenticated (aad ciphertext : Bytes) : Bytes :=
  aad ++ Bytes.zeroFill 16 aad ++ ciphertext ++ Bytes.zeroFill 16 ciphertext ++
    Bytes.ofNatLE 8 aad.length ++ Bytes.ofNatLE 8 ciphertext.length

/-- The key stream for a key of 32 octets and a nonce of 24. -/
def keyStream (key nonce : Bytes) : Nat → Bytes :=
  ChaCha.block (ChaCha.derivedKey key (nonce.take 16)) (List.replicate 4 0 ++ nonce.drop 16)

/-- The cipher for a key of 32 octets and a nonce of 24. -/
def cipher (key nonce : Bytes) : Cipher where
  encipher := Stream.add 63 (keyStream key nonce) 1
  decipher? := fun ciphertext => some (Stream.add 63 (keyStream key nonce) 1 ciphertext)
  tag := fun aad ciphertext => Poly1305.tag (keyStream key nonce 0) (authenticated aad ciphertext)

@[simp] theorem length_keyStream (key nonce : Bytes) (number : Nat) :
    (keyStream key nonce number).length = 64 :=
  ChaCha.length_block _ _ number

@[simp] theorem length_encipher (key nonce message : Bytes) :
    ((cipher key nonce).encipher message).length = message.length :=
  Stream.length_add (length_keyStream key nonce) 1 message

@[simp] theorem decipher?_encipher (key nonce message : Bytes) :
    (cipher key nonce).decipher? ((cipher key nonce).encipher message) = some message :=
  congrArg some (Stream.add_add (length_keyStream key nonce) 1 message)

@[simp] theorem length_tag (key nonce aad ciphertext : Bytes) :
    ((cipher key nonce).tag aad ciphertext).length = 16 :=
  Poly1305.length_tag _ _

end SealedEnvelope.XChaChaPoly
