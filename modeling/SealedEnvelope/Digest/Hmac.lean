import SealedEnvelope.Digest.Hash

/-!
# Keyed hashing

A message is authenticated by hashing it twice under a key: once behind the key
mixed with one constant, and the digest again behind the key mixed with another.
-/

namespace SealedEnvelope.Hmac

/-- A key as one block of the hash function: a long key is hashed, a short one is
filled up with zeros. -/
def blockKey (hash : Hash) (key : Bytes) : Bytes :=
  let short := if hash.blockSize < key.length then hash.digest key else key
  short ++ List.replicate (hash.blockSize - short.length) 0

/-- The authentication code of a message under a key. -/
def code (hash : Hash) (key message : Bytes) : Bytes :=
  let inner := (blockKey hash key).map (· ^^^ 0x36)
  let outer := (blockKey hash key).map (· ^^^ 0x5c)
  hash.digest (outer ++ hash.digest (inner ++ message))

@[simp] theorem length_code (hash : Hash) (key message : Bytes) :
    (code hash key message).length = hash.size :=
  hash.length_digest _

end SealedEnvelope.Hmac
