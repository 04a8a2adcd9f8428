import SealedEnvelope.Proofs.Curve.Ed25519
import SealedEnvelope.Proofs.Reading.Rewriting
import SealedEnvelope.Proofs.RoundTrip.Multikey

/-!
# The public forms of a key

A public key travels as octets and as JSON, and the two forms are not made of the same parts: the
octets of a point hold one coordinate and a parity, its JSON value holds both coordinates.  A key is
read back from each of its forms, and both give the same key, the one without its secret
(`Key.public_forms_agree`).

In the other direction a JSON value that is read need not be the one that is written.  What it says
apart from the key is gone, and so is the fill of its texts, but nothing else changes
(`Key.toJwk_of_ofJwk`): no two values that differ in more than this are read as one key.
-/

namespace SealedEnvelope

/-- What is left of a JSON value if only the public key is kept: its texts without their fill, and
the second coordinate only for a point. -/
def Jwk.bare (jwk : Jwk) : Jwk where
  kty := jwk.kty
  crv := jwk.crv
  x := Text.Base64Url.unfilled jwk.x
  y := if jwk.kty = "EC" then jwk.y.map Text.Base64Url.unfilled else none
  kid := none
  extras := .empty

namespace Key

variable {jwk : Jwk} {key : Key} {x y : Bytes}

@[simp] theorem toJwk_toPublic (key : Key) : key.toPublic.toJwk = key.toJwk := by
  cases key <;> rfl

/-- Octets are written as the text that they were read from, without its fill. -/
theorem encode_of_decodeOctets {text : String} {bytes : Bytes} (h : decodeOctets text = .ok bytes) :
    Text.Base64Url.encode bytes = Text.Base64Url.unfilled text :=
  Text.Base64Url.encode_eq_unfilled (mapError_eq_ok_iff.1 h)

/-- Of two coordinates nothing is dropped when a point is read. -/
theorem ofCoordinates_eq_ok (h : ofCoordinates x y = .ok key) :
    ∃ point : Secp256k1.Point, key = .secp256k1 point none ∧
      x = Secp256k1.elementBytes point.x ∧ y = Secp256k1.elementBytes point.y := by
  rw [ofCoordinates] at h
  split at h
  · next hlength =>
    obtain ⟨hx, hy⟩ := hlength
    generalize hbytes : (0x04 : UInt8) :: (x ++ y) = bytes at h
    obtain ⟨halgorithm, hspells⟩ := ofPublicBytes_eq_ok_iff.1 h
    cases hspells with
    | ed25519 | x25519 => cases halgorithm
    | @secp256k1 point _ hpoint =>
      cases hpoint with
      | compressed =>
        -- the octets with one coordinate are too short
        have hlength := congrArg List.length hbytes
        rw [List.length_cons, List.length_append, hx, hy, Secp256k1.Point.length_toBytes] at hlength
        exact absurd hlength (by decide)
      | compact => exact absurd (List.cons.inj hbytes).1 (by decide)
      | uncompressed =>
        have hlengths := hx.trans (Secp256k1.length_elementBytes point.x).symm
        exact ⟨point, rfl, List.append_inj (List.cons.inj hbytes).2 hlengths⟩
  · cases h

/-- **The JSON value that is written for a key that was read** is the one that was read, without
what is no part of the key. -/
theorem toJwk_of_ofJwk (h : ofJwk jwk = .ok key) : key.toJwk = jwk.bare := by
  obtain ⟨x, hx, h⟩ := bind_eq_ok_iff.1 h
  have hx := encode_of_decodeOctets hx
  split at h
  · next hkind =>
    obtain ⟨hkty, hcrv⟩ := hkind
    obtain ⟨halgorithm, hspells⟩ := ofPublicBytes_eq_ok_iff.1 h
    cases hspells with
    | ed25519 point => rw [toJwk, Jwk.octetPair, hx, Jwk.bare, hkty, hcrv, if_neg (by decide)]
    | x25519 | secp256k1 => cases halgorithm
  split at h
  · next hkind =>
    obtain ⟨hkty, hcrv⟩ := hkind
    obtain ⟨halgorithm, hspells⟩ := ofPublicBytes_eq_ok_iff.1 h
    cases hspells with
    | x25519 coordinate => rw [toJwk, Jwk.octetPair, hx, Jwk.bare, hkty, hcrv, if_neg (by decide)]
    | ed25519 | secp256k1 => cases halgorithm
  split at h
  · next hkind =>
    obtain ⟨hkty, hcrv⟩ := hkind
    split at h
    · cases h
    · next text htext =>
      obtain ⟨y, hy, h⟩ := bind_eq_ok_iff.1 h
      have hy := encode_of_decodeOctets hy
      obtain ⟨point, rfl, rfl, rfl⟩ := ofCoordinates_eq_ok h
      rw [toJwk, Jwk.point, hx, hy, Jwk.bare, hkty, hcrv, htext, if_pos rfl, Option.map_some]
  · cases h

/-- **All public forms of a key agree.**  A key is read back from its octets and from its JSON
value, and what is read is the key without its secret, which has the same octets and JSON value.
The octets of a key that was made from a secret are the ones computed for it, with no substitute.
And a JSON value that is read is written again as it was, without what is no part of the key. -/
theorem public_forms_agree :
    (∀ key : Key,
      ofPublicBytes key.algorithm key.publicBytes = .ok key.toPublic ∧
      ofJwk key.toJwk = .ok key.toPublic ∧
      key.toPublic.hasSecret = false ∧ key.toPublic.algorithm = key.algorithm ∧
      key.toPublic.publicBytes = key.publicBytes ∧ key.toPublic.toJwk = key.toJwk) ∧
    (∀ secret, (ofEd25519Secret secret).publicBytes = (Ed25519.publicOctets secret).val) ∧
    (∀ secret : Secp256k1.Scalar, ∃ point, Secp256k1.Point.base.multiple secret.value = some point ∧
      (ofScalar secret).publicBytes = point.toBytes) ∧
    ∀ jwk key, ofJwk jwk = .ok key → key.toJwk = jwk.bare := by
  refine ⟨fun key => ?_, fun secret => ?_, fun secret => ?_, fun _ _ h => toJwk_of_ofJwk h⟩
  · exact ⟨ofPublicBytes_publicBytes key, ofJwk_toJwk key, key.hasSecret_toPublic,
      key.algorithm_toPublic, key.publicBytes_toPublic, key.toJwk_toPublic⟩
  · rw [ofEd25519Secret, publicBytes,
      Ed25519.PublicKey.ofOctets?_eq_some_iff.1 (Ed25519.ofOctets?_publicOctets secret)]
  · exact ⟨secret.publicKey, secret.multiple_base, rfl⟩

/-- The base point with fill, a name and a member that no key has, and an agreement key with a
second coordinate and with octets that no element of the field is written as. -/
theorem public_forms_agree_of_padded_texts :
    let base : Jwk :=
      ⟨"EC", "secp256k1", "eb5mfvncu6xVoGKVzocLBwKb_NstzijZWfKBWxb4F5g=",
        some "SDradyajxGVdpPv8DhEIqP0XtEimhVQZnEfQj_sQ1Lg=", some "a",
        Jwk.Extras.empty.insert "use" (.string "enc")⟩
    let octets : Jwk :=
      ⟨"OKP", "X25519", "__________________________________________8=", some "AQ", none, .empty⟩
    (∃ key, ofJwk base = .ok key ∧ key.toJwk =
      ⟨"EC", "secp256k1", "eb5mfvncu6xVoGKVzocLBwKb_NstzijZWfKBWxb4F5g",
        some "SDradyajxGVdpPv8DhEIqP0XtEimhVQZnEfQj_sQ1Lg", none, .empty⟩) ∧
    ∃ key, ofJwk octets = .ok key ∧ key.toJwk =
      ⟨"OKP", "X25519", "__________________________________________8", none, none, .empty⟩ := by
  intro base octets
  have hbase : (ofJwk base).toOption.any (fun _ => true) = true := by decide +kernel
  have hoctets : (ofJwk octets).toOption.any (fun _ => true) = true := by decide +kernel
  obtain ⟨point, hpoint, -⟩ := exists_eq_ok_of_any hbase
  obtain ⟨coordinate, hcoordinate, -⟩ := exists_eq_ok_of_any hoctets
  refine ⟨⟨point, hpoint, ?_⟩, coordinate, hcoordinate, ?_⟩
  · rw [public_forms_agree.2.2.2 base point hpoint, Jwk.bare, Jwk.mk.injEq]
    exact ⟨rfl, rfl, by decide +kernel, by decide +kernel, rfl, rfl⟩
  · rw [public_forms_agree.2.2.2 octets coordinate hcoordinate, Jwk.bare, Jwk.mk.injEq]
    exact ⟨rfl, rfl, by decide +kernel, by decide +kernel, rfl, rfl⟩

end Key

end SealedEnvelope
