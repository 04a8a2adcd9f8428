import SealedEnvelope.Envelope.Parameters
import SealedEnvelope.Proofs.Curve.Order
import SealedEnvelope.Proofs.Octets
import SealedEnvelope.Proofs.RoundTrip.Jwk
import SealedEnvelope.Text.Base64Url.RoundTrip

/-!
# Public keys, there and back

A public key is read back from its JSON value (`Key.ofJwk_toJwk`), and so the ephemeral key
of a header is the one that was put there.  The octets of a public key tell it apart from
all others of its kind (`Key.toPublic_eq`).

For a point on secp256k1 the octets hold one coordinate and the parity of the other.  Two
points with the same first coordinate are inverse to each other, and the two values that
their second coordinates can have sum up to the prime, which is odd: so only one is even.
-/

namespace SealedEnvelope

namespace Secp256k1

open SealedEnvelope.Modular (residue)

theorem toNatBE_elementBytes (x : Element) : Bytes.toNatBE (elementBytes x) = x.val := by
  have hlt : x.val < 256 ^ 32 := Nat.lt_of_lt_of_le x.isLt (by decide)
  rw [elementBytes, Bytes.toNatBE_ofNatBE, Nat.mod_eq_of_lt hlt]

@[simp] theorem length_elementBytes (x : Element) : (elementBytes x).length = 32 :=
  Bytes.length_ofNatBE 32 x.val

@[simp] theorem element?_elementBytes (x : Element) : element? (elementBytes x) = some x := by
  have hx := toNatBE_elementBytes x
  rw [element?, dif_pos ⟨length_elementBytes x, hx ▸ x.isLt⟩]
  exact congrArg some (Fin.ext hx)

theorem elementBytes_injective : Function.Injective elementBytes := fun x y h => by
  have hsome := congrArg element? h
  rw [element?_elementBytes, element?_elementBytes] at hsome
  exact Option.some.inj hsome

/-- A point is read back from both of its coordinates. -/
theorem Point.ofBytes?_coordinates (p : Point) :
    Point.ofBytes? (0x04 :: (elementBytes p.x ++ elementBytes p.y)) = some p := by
  have htake : (elementBytes p.x ++ elementBytes p.y).take 32 = elementBytes p.x :=
    List.take_left' (length_elementBytes p.x)
  have hdrop : (elementBytes p.x ++ elementBytes p.y).drop 32 = elementBytes p.y :=
    List.drop_left' (length_elementBytes p.x)
  rw [ofBytes?, if_neg (by decide), if_neg (by decide), if_pos rfl, htake, hdrop,
    element?_elementBytes, element?_elementBytes]
  exact p.of?_coordinates

/-- An element and its inverse do not have the same parity, unless both are zero. -/
theorem eq_of_parity {x y : Element} (h : residue x = -residue y)
    (hparity : x.val % 2 = y.val % 2) :
    x = y := by
  have hzero : residue (x + y) = residue 0 := by
    rw [Modular.residue_add, h, neg_add_cancel]
    exact Nat.cast_zero.symm
  have hsum : (x.val + y.val) % (greatest + 1) = 0 :=
    congrArg Fin.val (Modular.residue_injective hzero)
  have hx := x.isLt
  have hy := y.isLt
  have hodd : (greatest + 1) % 2 = 1 := by decide
  refine Fin.ext ?_
  by_cases hlt : x.val + y.val < greatest + 1
  · rw [Nat.mod_eq_of_lt hlt] at hsum
    omega
  · rw [Nat.mod_eq_sub_mod (Nat.not_lt.mp hlt), Nat.mod_eq_of_lt (by omega)] at hsum
    omega

/-- The octets of a point determine it. -/
theorem Point.toBytes_injective : Function.Injective Point.toBytes := by
  intro p q h
  obtain ⟨htag, hx⟩ := List.cons.inj h
  obtain ⟨px, py, hp⟩ := p
  obtain ⟨qx, qy, hq⟩ := q
  obtain rfl : px = qx := elementBytes_injective hx
  have hparity : py.val % 2 = qy.val % 2 := by
    dsimp only at htag
    split at htag <;> split at htag <;> first | omega | exact absurd htag (by decide)
  have hsquare : residue py * residue py = residue qy * residue qy := by
    rw [← Modular.residue_mul, ← Modular.residue_mul, hp, hq]
  obtain rfl : py = qy := by
    rcases mul_self_eq_mul_self_iff.mp hsquare with h | h
    · exact Modular.residue_injective h
    · exact eq_of_parity h hparity
  rfl

end Secp256k1

namespace Key

@[simp] theorem toPublic_toPublic (key : Key) : key.toPublic.toPublic = key.toPublic := by
  cases key <;> rfl

theorem decodeOctets_encode (bytes : Bytes) :
    decodeOctets (Text.Base64Url.encode bytes) = .ok bytes := by
  rw [decodeOctets, Text.Base64Url.decode_encode]
  rfl

@[simp] theorem exactly32_val (algorithm : Algorithm) (octets : Octets 32) :
    exactly32 algorithm octets.val = .ok octets := by
  rw [exactly32, Octets.ofBytes?_val]

/-- **A public key is read back from its JSON value.** -/
theorem ofJwk_toJwk (key : Key) : ofJwk key.toJwk = .ok key.toPublic := by
  cases key with
  | ed25519 point secret =>
    have hpoint : Ed25519.PublicKey.ofOctets? point.octets = some point := by
      rw [Ed25519.PublicKey.ofOctets?, dif_pos point.onCurve]
    rw [toJwk, Jwk.octetPair, ofJwk, decodeOctets_encode]
    show ofPublicBytes .ed25519 point.octets.val = _
    rw [ofPublicBytes, exactly32_val]
    simp only [bind, Except.bind, hpoint]
    rfl
  | x25519 coordinate secret =>
    rw [toJwk, Jwk.octetPair, ofJwk, decodeOctets_encode]
    show ofPublicBytes .x25519 coordinate.val = _
    rw [ofPublicBytes, exactly32_val]
    rfl
  | secp256k1 point secret =>
    rw [toJwk, Jwk.point, ofJwk, decodeOctets_encode]
    show (decodeOctets (Text.Base64Url.encode (Secp256k1.elementBytes point.y)) >>= fun y =>
      ofCoordinates (Secp256k1.elementBytes point.x) y) = _
    rw [decodeOctets_encode]
    show ofCoordinates (Secp256k1.elementBytes point.x) (Secp256k1.elementBytes point.y) = _
    rw [ofCoordinates, if_pos ⟨Secp256k1.length_elementBytes _, Secp256k1.length_elementBytes _⟩,
      ofPublicBytes, Secp256k1.Point.ofBytes?_coordinates]
    rfl

/-- The JSON value of a public key names no member twice. -/
theorem distinct_toJwk (key : Key) : key.toJwk.toJson.Distinct := by
  cases key with
  | ed25519 point secret =>
    exact ⟨(by decide : ["kty", "crv", "x"].Nodup), trivial, trivial, trivial, trivial⟩
  | x25519 coordinate secret =>
    exact ⟨(by decide : ["kty", "crv", "x"].Nodup), trivial, trivial, trivial, trivial⟩
  | secp256k1 point secret =>
    exact ⟨(by decide : ["kty", "crv", "x", "y"].Nodup), trivial, trivial, trivial, trivial,
      trivial⟩

theorem integral_toJwk (key : Key) : key.toJwk.toJson.Integral := by
  cases key with
  | ed25519 point secret => exact ⟨trivial, trivial, trivial, trivial⟩
  | x25519 coordinate secret => exact ⟨trivial, trivial, trivial, trivial⟩
  | secp256k1 point secret => exact ⟨trivial, trivial, trivial, trivial, trivial⟩

theorem depth_toJwk (key : Key) : key.toJwk.toJson.depth = 1 := by
  cases key <;> rfl

/-- The octets of a public key tell it apart from all others of its kind. -/
theorem toPublic_eq {a b : Key} (halgorithm : a.algorithm = b.algorithm)
    (hbytes : a.publicBytes = b.publicBytes) : a.toPublic = b.toPublic := by
  cases a <;> cases b <;> cases halgorithm
  · next p _ q _ =>
    obtain ⟨octets, hp⟩ := p
    obtain ⟨octets', hq⟩ := q
    obtain rfl : octets = octets' := Subtype.ext hbytes
    rfl
  · next c _ d _ =>
    obtain rfl : c = d := Subtype.ext hbytes
    rfl
  · next p _ q _ =>
    obtain rfl : p = q := Secp256k1.Point.toBytes_injective hbytes
    rfl

end Key

/-- The ephemeral key of a header is the one that was put there. -/
theorem Header.requireEphemeralKey_eq_ok {header : Header} {key : Key}
    (h : header.get? "epk" = some key.toJwk.toJson) :
    header.requireEphemeralKey = .ok key.toPublic := by
  have hjwk : header.ephemeralKey = .ok (some key.toJwk) := by
    rw [ephemeralKey, h]
    dsimp only
    rw [Jwk.ofJson_toJson key.toJwk key.distinct_toJwk]
  rw [requireEphemeralKey, hjwk]
  show opaquely (Key.ofJwk key.toJwk) = _
  rw [Key.ofJwk_toJwk]
  rfl

end SealedEnvelope
