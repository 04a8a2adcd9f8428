import SealedEnvelope.Curve.Ed25519
import SealedEnvelope.Curve.Secp256k1
import SealedEnvelope.Curve.X25519
import SealedEnvelope.Entropy
import SealedEnvelope.Error
import SealedEnvelope.Key.Jwk

/-!
# Keys

A key is a public key that may come with its secret.  That the secret belongs to the
public key is part of the type, so a key that can decrypt is always the one that was
encrypted to.

Public keys travel as octets (`Key.publicBytes`, `Key.ofPublicBytes`) and as JSON
(`Key.toJwk`, `Key.ofJwk`).  Two keys are the same if their public halves are.
-/

namespace SealedEnvelope

/-- A public key that may come with its secret. -/
inductive Key where
  | ed25519 (point : Ed25519.PublicKey)
      (secret : Option { s : Octets 32 // Ed25519.publicKey s = point })
  | x25519 (coordinate : Octets 32)
      (secret : Option { s : Octets 32 // X25519.publicKey s = coordinate })
  | secp256k1 (point : Secp256k1.Point)
      (secret : Option { k : Secp256k1.Scalar // k.publicKey = point })

namespace Key

/-- The kind of a key. -/
def algorithm : Key → Algorithm
  | .ed25519 .. => .ed25519
  | .x25519 .. => .x25519
  | .secp256k1 .. => .secp256k1

/-- Whether the secret is there. -/
def hasSecret : Key → Bool
  | .ed25519 _ secret => secret.isSome
  | .x25519 _ secret => secret.isSome
  | .secp256k1 _ secret => secret.isSome

/-- The key without its secret. -/
def toPublic : Key → Key
  | .ed25519 point _ => .ed25519 point none
  | .x25519 coordinate _ => .x25519 coordinate none
  | .secp256k1 point _ => .secp256k1 point none

@[simp] theorem algorithm_toPublic (key : Key) : key.toPublic.algorithm = key.algorithm := by
  cases key <;> rfl

@[simp] theorem hasSecret_toPublic (key : Key) : key.toPublic.hasSecret = false := by
  cases key <;> rfl

/-- The octets of the public key. -/
def publicBytes : Key → Bytes
  | .ed25519 point _ => point.octets.val
  | .x25519 coordinate _ => coordinate.val
  | .secp256k1 point _ => point.toBytes

@[simp] theorem publicBytes_toPublic (key : Key) :
    key.toPublic.publicBytes = key.publicBytes := by
  cases key <;> rfl

/-- Whether two keys have the same public half. -/
def same (a b : Key) : Bool := a.algorithm = b.algorithm && a.publicBytes = b.publicBytes

/-! ## Making keys -/

/-- The Ed25519 key of a secret. -/
def ofEd25519Secret (secret : Octets 32) : Key :=
  .ed25519 (Ed25519.publicKey secret) (some ⟨secret, rfl⟩)

/-- The X25519 key of a secret. -/
def ofX25519Secret (secret : Octets 32) : Key :=
  .x25519 (X25519.publicKey secret) (some ⟨secret, rfl⟩)

/-- The secp256k1 key of a secret. -/
def ofScalar (secret : Secp256k1.Scalar) : Key :=
  .secp256k1 secret.publicKey (some ⟨secret, rfl⟩)

/-- Octets that have to be 32. -/
def exactly32 (algorithm : Algorithm) (bytes : Bytes) : Except Error (Octets 32) :=
  match Octets.ofBytes? 32 bytes with
  | some octets => .ok octets
  | none => .error (.invalidKeyMaterial (.wrongLength algorithm bytes.length))

/-- The public key that octets stand for. -/
def ofPublicBytes (algorithm : Algorithm) (bytes : Bytes) : Except Error Key :=
  match algorithm with
  | .ed25519 => do
    match Ed25519.PublicKey.ofOctets? (← exactly32 .ed25519 bytes) with
    | some point => .ok (.ed25519 point none)
    | none => .error (.invalidKeyMaterial .notACurvePoint)
  | .x25519 => do .ok (.x25519 (← exactly32 .x25519 bytes) none)
  | .secp256k1 =>
    match Secp256k1.Point.ofBytes? bytes with
    | some point => .ok (.secp256k1 point none)
    | none => .error (.invalidKeyMaterial .notASec1Point)

/-- The key whose secret the octets are. -/
def ofSecretBytes (algorithm : Algorithm) (bytes : Bytes) : Except Error Key :=
  match algorithm with
  | .ed25519 => do .ok (ofEd25519Secret (← exactly32 .ed25519 bytes))
  | .x25519 => do .ok (ofX25519Secret (← exactly32 .x25519 bytes))
  | .secp256k1 =>
    match Secp256k1.Scalar.ofBytes? bytes with
    | some secret => .ok (ofScalar secret)
    | none => .error (.invalidKeyMaterial .secretOutOfRange)

/-! ## Keys as JSON -/

/-- The public key as JSON. -/
def toJwk : Key → Jwk
  | .ed25519 point _ => .octetPair "Ed25519" point.octets.val
  | .x25519 coordinate _ => .octetPair "X25519" coordinate.val
  | .secp256k1 point _ =>
    .point "secp256k1" (Secp256k1.elementBytes point.x) (Secp256k1.elementBytes point.y)

/-- Octets that a header or a key gives in base64url. -/
def decodeOctets (text : String) : Except Error Bytes :=
  (Text.Base64Url.decode text).mapError fun fault => .parse (.octets fault)

/-- The public key with two coordinates of 32 octets each. -/
def ofCoordinates (x y : Bytes) : Except Error Key :=
  if x.length = 32 ∧ y.length = 32 then ofPublicBytes .secp256k1 (0x04 :: (x ++ y))
  else .error (.invalidKeyMaterial .coordinateLength)

/-- The public key that JSON stands for. -/
def ofJwk (jwk : Jwk) : Except Error Key := do
  let x ← decodeOctets jwk.x
  if jwk.kty = "OKP" ∧ jwk.crv = "Ed25519" then ofPublicBytes .ed25519 x
  else if jwk.kty = "OKP" ∧ jwk.crv = "X25519" then ofPublicBytes .x25519 x
  else if jwk.kty = "EC" ∧ jwk.crv = "secp256k1" then
    match jwk.y with
    | none => .error (.invalidKeyMaterial .missingY)
    | some y => do ofCoordinates x (← decodeOctets y)
  else .error (.unsupportedAlgorithm (.curve jwk.kty jwk.crv))

/-! ## Drawing keys -/

/-- Draws 32 octets until they are a secret key.  There is no bound on how often that may take,
so nothing is given from a source in which no secret key comes. -/
def drawScalar (source : Entropy) : Option (Secp256k1.Scalar × Entropy) := do
  let (octets, source) ← Entropy.draw 32 source
  match Secp256k1.Scalar.ofNat? (Bytes.toNatBE octets.val) with
  | some secret => some (secret, source)
  -- Given by `apply`, the call is a bare term, with no mark of its place in the text.
  | none => by apply drawScalar; exact source
partial_fixpoint

/-- Draws a key. -/
def generate (algorithm : Algorithm) : Draw Key :=
  match algorithm with
  | .ed25519 => do
    let secret ← Entropy.draw 32
    pure (ofEd25519Secret secret)
  | .x25519 => do
    let secret ← Entropy.draw 32
    pure (ofX25519Secret secret)
  | .secp256k1 => do
    let secret ← (drawScalar : Draw Secp256k1.Scalar)
    pure (ofScalar secret)

/-- The description of a key, which does not show the secret. -/
def describe (key : Key) : String :=
  "Key \x7b alg: " ++ key.algorithm.title ++
    ", public: " ++ Text.Quoted.encode (Text.Base64Url.encode key.publicBytes) ++
    ", secret: " ++ (if key.hasSecret then "true" else "false") ++ " \x7d"

end Key
end SealedEnvelope
