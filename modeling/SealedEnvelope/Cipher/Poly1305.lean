import SealedEnvelope.Bytes

/-!
# The Poly1305 authenticator

A message is a polynomial over the integers modulo `2 ^ 130 - 5`: each piece of
sixteen octets is a coefficient, with a one put behind its last octet.  The tag is
its value at one half of the key, some bits of which are cleared, plus the other
half.
-/

namespace SealedEnvelope.Poly1305

/-- The modulus `2 ^ 130 - 5`. -/
def modulus : Nat := 0x3fffffffffffffffffffffffffffffffb

/-- The bits of the first half of a key that are not cleared. -/
def clamp : Nat := 0x0ffffffc0ffffffc0ffffffc0fffffff

/-- The value of a message's polynomial. -/
def evaluate (point : Nat) (message : Bytes) : Nat :=
  (Bytes.pieces 15 message).foldl
    (fun sum piece => (sum + Bytes.toNatLE (piece ++ [1])) * point % modulus) 0

/-- The tag of a message under a key of 32 octets. -/
def tag (key message : Bytes) : Bytes :=
  let point := Bytes.toNatLE (key.take 16) &&& clamp
  let offset := Bytes.toNatLE ((key.drop 16).take 16)
  Bytes.ofNatLE 16 (evaluate point message + offset)

@[simp] theorem length_tag (key message : Bytes) : (tag key message).length = 16 := by
  simp [tag]

end SealedEnvelope.Poly1305
