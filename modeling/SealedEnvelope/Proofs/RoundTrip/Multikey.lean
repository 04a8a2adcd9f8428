import SealedEnvelope.Key.Identity
import SealedEnvelope.Proofs.Curve.Compression
import SealedEnvelope.Proofs.Opening.Steps
import SealedEnvelope.Proofs.RoundTrip.Base58

/-!
# Multikeys, there and back

A public key is read back from its multikey, and a multikey that is read is the one that is
written, up to two things: the text may use another encoding than base 58, and a point may be
spelled with another tag than the one that is written (`Identity.multikey_there_and_back`).

What octets are read as which key is said once by `Key.Spells`, and `Key.ofPublicBytes_eq_ok_iff`
says that reading does just that.
-/

namespace SealedEnvelope

/-! ## Octets of keys -/

theorem Ed25519.PublicKey.ofOctets?_eq_some_iff {octets : Octets 32} {point : PublicKey} :
    ofOctets? octets = some point ↔ point.octets = octets := by
  obtain ⟨own, hown⟩ := point
  rw [ofOctets?]
  split
  · rw [Option.some.injEq, mk.injEq]
    exact eq_comm
  · next hpoint =>
    constructor
    · intro h
      cases h
    · rintro rfl
      exact absurd hown hpoint

namespace Key

/-- A public key without its secret, and octets that it can be given by. -/
inductive Spells : Key → Bytes → Prop
  | ed25519 (point : Ed25519.PublicKey) : Spells (.ed25519 point none) point.octets.val
  | x25519 (coordinate : Octets 32) : Spells (.x25519 coordinate none) coordinate.val
  | secp256k1 {point : Secp256k1.Point} {bytes : Bytes} (h : point.Spells bytes) :
      Spells (.secp256k1 point none) bytes

variable {algorithm : Algorithm} {bytes : Bytes} {key : Key}

theorem exactly32_eq_ok_iff {octets : Octets 32} :
    exactly32 algorithm bytes = .ok octets ↔ octets.val = bytes := by
  rw [← Octets.ofBytes?_eq_some, exactly32]
  cases Octets.ofBytes? 32 bytes <;> simp

/-- **A public key is read from each of its spellings, and from nothing else.** -/
theorem ofPublicBytes_eq_ok_iff :
    ofPublicBytes algorithm bytes = .ok key ↔ key.algorithm = algorithm ∧ key.Spells bytes := by
  constructor
  · intro h
    cases algorithm with
    | ed25519 =>
      obtain ⟨octets, hoctets, hkey⟩ := bind_eq_ok_iff.1 h
      obtain rfl := exactly32_eq_ok_iff.1 hoctets
      split at hkey
      · next point hpoint =>
        obtain rfl := Except.ok.inj hkey
        obtain rfl := Ed25519.PublicKey.ofOctets?_eq_some_iff.1 hpoint
        exact ⟨rfl, .ed25519 point⟩
      · cases hkey
    | x25519 =>
      obtain ⟨octets, hoctets, hkey⟩ := bind_eq_ok_iff.1 h
      obtain rfl := exactly32_eq_ok_iff.1 hoctets
      obtain rfl := Except.ok.inj hkey
      exact ⟨rfl, .x25519 octets⟩
    | secp256k1 =>
      rw [ofPublicBytes] at h
      split at h
      · next point hpoint =>
        obtain rfl := Except.ok.inj h
        exact ⟨rfl, .secp256k1 (Secp256k1.Point.ofBytes?_eq_some_iff.1 hpoint)⟩
      · cases h
  · rintro ⟨rfl, hspells⟩
    cases hspells with
    | ed25519 point =>
      show ofPublicBytes .ed25519 point.octets.val = _
      refine bind_eq_ok_iff.2 ⟨point.octets, exactly32_eq_ok_iff.2 rfl, ?_⟩
      rw [Ed25519.PublicKey.ofOctets?_eq_some_iff.2 rfl]
    | x25519 coordinate =>
      show ofPublicBytes .x25519 coordinate.val = _
      exact bind_eq_ok_iff.2 ⟨coordinate, exactly32_eq_ok_iff.2 rfl, rfl⟩
    | secp256k1 h =>
      show ofPublicBytes .secp256k1 bytes = _
      rw [ofPublicBytes, Secp256k1.Point.ofBytes?_eq_some_iff.2 h]

/-- The octets that are written for a public key spell it. -/
theorem spells_publicBytes (key : Key) : key.toPublic.Spells key.publicBytes := by
  cases key with
  | ed25519 point secret => exact .ed25519 point
  | x25519 coordinate secret => exact .x25519 coordinate
  | secp256k1 point secret => exact .secp256k1 .compressed

/-- A public key is read back from its octets. -/
theorem ofPublicBytes_publicBytes (key : Key) :
    ofPublicBytes key.algorithm key.publicBytes = .ok key.toPublic :=
  ofPublicBytes_eq_ok_iff.2 ⟨key.algorithm_toPublic, key.spells_publicBytes⟩

/-- Public keys are told apart by their kind and their octets. -/
theorem toPublic_eq_iff {a b : Key} : a.toPublic = b.toPublic ↔
    a.algorithm = b.algorithm ∧ a.publicBytes = b.publicBytes := by
  constructor
  · intro h
    rw [← a.algorithm_toPublic, ← a.publicBytes_toPublic, h, algorithm_toPublic,
      publicBytes_toPublic]
    exact ⟨rfl, rfl⟩
  · rintro ⟨halgorithm, hbytes⟩
    have hread := ofPublicBytes_publicBytes a
    rw [halgorithm, hbytes, ofPublicBytes_publicBytes] at hread
    exact (Except.ok.inj hread).symm

theorem Spells.toPublic_eq (h : key.Spells bytes) : key.toPublic = key := by
  cases h <;> rfl

end Key

/-! ## Tags -/

/-- An algorithm is known by its tag. -/
theorem Algorithm.ofTag?_eq_some_iff {tag : UInt8 × UInt8} {algorithm : Algorithm} :
    ofTag? tag = some algorithm ↔ algorithm.tag = tag := by
  constructor
  · intro h
    simpa using List.find?_some h
  · rintro rfl
    exact ofTag?_tag algorithm

namespace Multikey

variable {algorithm : Algorithm} {bytes : Bytes} {text : String}

/-- Octets behind a tag are known by the tag. -/
theorem unwrap_eq_ok_iff {tagged : Bytes} :
    unwrap tagged = .ok (algorithm, bytes) ↔ tagged = wrap algorithm bytes := by
  constructor
  · intro h
    unfold unwrap at h
    split at h
    · next a b rest =>
      split at h
      · next found hfound =>
        cases h
        rw [wrap, Algorithm.ofTag?_eq_some_iff.1 hfound]
      · cases h
    · cases h
  · rintro rfl
    exact unwrap_wrap algorithm bytes

theorem decode_eq_ok_iff :
    decode text = .ok (algorithm, bytes) ↔ Multibase.decode text = .ok (wrap algorithm bytes) := by
  rw [decode, bind_eq_ok_iff]
  simp only [octets, mapError_eq_ok_iff, unwrap_eq_ok_iff]
  constructor
  · rintro ⟨_, h, rfl⟩
    exact h
  · exact fun h => ⟨_, h, rfl⟩

@[simp] theorem decode_encode (algorithm : Algorithm) (bytes : Bytes) :
    decode (encode algorithm bytes) = .ok (algorithm, bytes) :=
  decode_eq_ok_iff.2 (Multibase.decode_encodeBase58 _)

/-- A multikey in base 58 is the one that is written for what it is read as. -/
theorem encode_of_decode (hcode : text.toList.head? = some 'z')
    (h : decode text = .ok (algorithm, bytes)) : encode algorithm bytes = text :=
  Multibase.encodeBase58_of_decode hcode (decode_eq_ok_iff.1 h)

theorem head?_encode (algorithm : Algorithm) (bytes : Bytes) :
    (encode algorithm bytes).toList.head? = some 'z' := by
  rw [encode, Multibase.encodeBase58, String.toList_ofList]
  rfl

/-- Octets of a key as they are written: a point has one coordinate, and the tag says which parity
the other one has. -/
def Canonical (algorithm : Algorithm) (bytes : Bytes) : Prop :=
  algorithm = .secp256k1 → bytes.length = 33 ∧ (bytes.head? = some 0x02 ∨ bytes.head? = some 0x03)

end Multikey

namespace Secp256k1.Point

theorem canonical_toBytes (p : Point) : Multikey.Canonical .secp256k1 p.toBytes := by
  refine fun _ => ⟨p.length_toBytes, ?_⟩
  rcases Nat.mod_two_eq_zero_or_one p.y.val with heven | hodd
  · exact .inl (by rw [toBytes_of_even heven]; rfl)
  · exact .inr (by rw [toBytes_of_odd hodd]; rfl)

/-- Of the spellings of a point only one is canonical, and this one is written. -/
theorem Spells.toBytes_eq_iff {p : Point} {bytes : Bytes} (h : p.Spells bytes) :
    p.toBytes = bytes ↔ Multikey.Canonical .secp256k1 bytes := by
  refine ⟨fun heq => heq ▸ p.canonical_toBytes, fun hcanonical => ?_⟩
  obtain ⟨-, htag⟩ := hcanonical rfl
  cases h with
  | compressed => rfl
  | compact => exact absurd htag (by simp)
  | uncompressed => exact absurd htag (by simp)

end Secp256k1.Point

/-- Of the spellings of a key only one is canonical, and this one is written. -/
theorem Key.Spells.publicBytes_eq_iff {key : Key} {bytes : Bytes} (h : key.Spells bytes) :
    key.publicBytes = bytes ↔ Multikey.Canonical key.algorithm bytes := by
  cases h with
  | ed25519 point => exact iff_of_true rfl nofun
  | x25519 coordinate => exact iff_of_true rfl nofun
  | secp256k1 h => exact h.toBytes_eq_iff

/-! ## Identities -/

namespace Identity

variable {text kid : String} {imported : Identity}

theorem ofMultikey_eq_ok_iff :
    ofMultikey text kid = .ok imported ↔ imported.kid = kid ∧
      ∃ bytes, Multikey.decode text = .ok (imported.algorithm, bytes) ∧
        imported.key.Spells bytes := by
  obtain ⟨key, name⟩ := imported
  constructor
  · intro h
    obtain ⟨⟨algorithm, bytes⟩, hdecode, h⟩ := bind_eq_ok_iff.1 h
    obtain ⟨read, hread, h⟩ := bind_eq_ok_iff.1 h
    cases h
    obtain ⟨rfl, hspells⟩ := Key.ofPublicBytes_eq_ok_iff.1 hread
    exact ⟨rfl, bytes, hdecode, hspells⟩
  · rintro ⟨rfl, bytes, hdecode, hspells⟩
    refine bind_eq_ok_iff.2 ⟨_, hdecode, bind_eq_ok_iff.2 ⟨key, ?_, rfl⟩⟩
    exact Key.ofPublicBytes_eq_ok_iff.2 ⟨rfl, hspells⟩

/-- A public key is read back from its multikey. -/
theorem ofMultikey_multikey (identity : Identity) (kid : String) :
    ofMultikey identity.multikey kid = .ok ⟨identity.key.toPublic, kid⟩ := by
  refine ofMultikey_eq_ok_iff.2 ⟨rfl, identity.key.publicBytes, ?_, identity.key.spells_publicBytes⟩
  rw [multikey, Multikey.decode_encode, algorithm, Key.algorithm_toPublic]

/-- Multikeys tell public keys apart. -/
theorem multikey_eq_iff {a b : Identity} :
    a.multikey = b.multikey ↔
      a.algorithm = b.algorithm ∧ a.key.publicBytes = b.key.publicBytes := by
  constructor
  · intro h
    have hdecode := congrArg Multikey.decode h
    rw [multikey, multikey, Multikey.decode_encode, Multikey.decode_encode] at hdecode
    exact Prod.mk.inj (Except.ok.inj hdecode)
  · rintro ⟨halgorithm, hbytes⟩
    rw [multikey, multikey, hbytes]
    exact congrArg (Multikey.encode · _) halgorithm

/-- **Writing and reading multikeys are inverse to each other.**  A public key is read back from its
multikey, whatever name it is given, and multikeys tell public keys apart.  A text that can be read
is the multikey of what it is read as exactly if it is in base 58 and its octets are those that are
written for a key.  Whatever the text was, its key is read back from the multikey. -/
theorem multikey_there_and_back :
    (∀ (identity : Identity) (kid : String), ∃ imported,
      ofMultikey identity.multikey kid = .ok imported ∧ imported.kid = kid ∧
      imported.algorithm = identity.algorithm ∧
      imported.key.publicBytes = identity.key.publicBytes ∧ imported.hasSecret = false ∧
      imported.key = identity.key.toPublic) ∧
    (∀ a b : Identity, a.multikey = b.multikey ↔
      a.algorithm = b.algorithm ∧ a.key.publicBytes = b.key.publicBytes) ∧
    ∀ text kid imported, ofMultikey text kid = .ok imported →
      (imported.multikey = text ↔ text.toList.head? = some 'z' ∧
        ∃ bytes, Multikey.decode text = .ok (imported.algorithm, bytes) ∧
          Multikey.Canonical imported.algorithm bytes) ∧
      ofMultikey imported.multikey kid = .ok imported := by
  refine ⟨fun identity kid => ?_, fun _ _ => multikey_eq_iff, fun text kid imported h => ?_⟩
  · exact ⟨_, ofMultikey_multikey identity kid, rfl, identity.key.algorithm_toPublic,
      identity.key.publicBytes_toPublic, identity.key.hasSecret_toPublic, rfl⟩
  · obtain ⟨rfl, bytes, hdecode, hspells⟩ := ofMultikey_eq_ok_iff.1 h
    refine ⟨⟨fun hsame => ?_, ?_⟩, ?_⟩
    · obtain rfl : imported.key.publicBytes = bytes := by
        rw [← hsame, multikey, Multikey.decode_encode] at hdecode
        exact (Prod.mk.inj (Except.ok.inj hdecode)).2
      refine ⟨?_, _, hdecode, hspells.publicBytes_eq_iff.1 rfl⟩
      rw [← hsame]
      exact Multikey.head?_encode _ _
    · rintro ⟨hcode, bytes', hdecode', hcanonical⟩
      obtain ⟨-, rfl⟩ := Prod.mk.inj (Except.ok.inj (hdecode.symm.trans hdecode'))
      rw [multikey, hspells.publicBytes_eq_iff.2 hcanonical]
      exact Multikey.encode_of_decode hcode hdecode
    · rw [ofMultikey_multikey, hspells.toPublic_eq]

/-- An agreement key in base 58 is written as it was read.  The base point in hexadecimal digits and
with both coordinates is not, but it is read back. -/
theorem multikey_there_and_back_of_two_spellings :
    let own := "z6LSqPZfn9krvgXma2icTMKf2uVcYhKXsudCmPoUzqGYW24U"
    let base := "fe70104" ++ "79be667ef9dcbbac55a06295ce870b07029bfcdb2dce28d959f2815b16f81798" ++
      "483ada7726a3c4655da4fbfc0e1108a8fd17b448a68554199c47d08ffb10d4b8"
    (∃ imported, ofMultikey own "a" = .ok imported ∧ imported.multikey = own) ∧
      ∃ imported, ofMultikey base "b" = .ok imported ∧ imported.multikey ≠ base ∧
        ofMultikey imported.multikey "b" = .ok imported := by
  intro own base
  have hown : (ofMultikey own "a").toOption.any (fun imported =>
      imported.algorithm = .x25519 && (Multikey.decode own).toOption.any fun pair =>
        pair.1 = imported.algorithm) = true := by
    decide +kernel
  have hbase : (ofMultikey base "b").toOption.any (fun _ => true) = true := by decide +kernel
  obtain ⟨imported, himported, hgiven⟩ := exists_eq_ok_of_any hown
  obtain ⟨point, hpoint, -⟩ := exists_eq_ok_of_any hbase
  rw [Bool.and_eq_true, decide_eq_true_eq] at hgiven
  obtain ⟨halgorithm, hdecode⟩ := hgiven
  obtain ⟨⟨found, bytes⟩, hdecode, hfound⟩ := exists_eq_ok_of_any hdecode
  obtain rfl : found = imported.algorithm := of_decide_eq_true hfound
  refine ⟨⟨imported, himported, ?_⟩, point, hpoint, fun hsame => ?_, ?_⟩
  · refine (multikey_there_and_back.2.2 own "a" imported himported).1.2
      ⟨by decide +kernel, bytes, hdecode, ?_⟩
    rw [halgorithm]
    exact nofun
  · exact absurd ((multikey_there_and_back.2.2 base "b" point hpoint).1.1 hsame).1
      (by decide +kernel)
  · exact (multikey_there_and_back.2.2 base "b" point hpoint).2

end Identity

end SealedEnvelope
