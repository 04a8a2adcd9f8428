import SealedEnvelope.Bytes

/-!
# Authenticated ciphers

An authenticated cipher turns a message into a ciphertext and a tag, which depends on
the ciphertext and on additional data.  Opening compares the tag first and gives
nothing away unless it is the one that the key makes.

A cipher is given by three functions (`Cipher`); sealing and opening are the same for
all ciphers.
-/

namespace SealedEnvelope

/-- An authenticated cipher under one key and one nonce. -/
structure Cipher where
  encipher : Bytes → Bytes
  /-- Undoes `encipher`; a ciphertext that no message has may have no answer. -/
  decipher? : Bytes → Option Bytes
  /-- The tag of additional data and a ciphertext. -/
  tag : (aad ciphertext : Bytes) → Bytes

namespace Cipher

/-- The ciphertext of a message, and its tag. -/
def sealMessage (cipher : Cipher) (aad message : Bytes) : Bytes × Bytes :=
  let ciphertext := cipher.encipher message
  (ciphertext, cipher.tag aad ciphertext)

/-- The message of a ciphertext, if the tag belongs to it. -/
def openMessage? (cipher : Cipher) (aad ciphertext tag : Bytes) : Option Bytes :=
  if cipher.tag aad ciphertext = tag then cipher.decipher? ciphertext else none

end Cipher
end SealedEnvelope
