import SealedEnvelope.Proofs.Curve.X25519
import SealedEnvelope.Proofs.Drawing
import SealedEnvelope.Proofs.Opening.Steps
import SealedEnvelope.Proofs.RoundTrip.Key

/-!
# Secrets and messages, there and back

Two keys agree on the same secret from both sides (`Key.exchange_comm`), and a content key
opens what it sealed, whatever its cipher and whatever the message is
(`ContentKey.decrypt_sealWith`).

The keys on the two sides need not be the ones that the other side has in hand: all that
counts is that their public halves are the same, and that a key which comes with its secret
is the key of that secret.
-/

namespace SealedEnvelope

/-! ## Agreed secrets -/

namespace Key

variable {own peer own' peer' : Key} {shared : Bytes}

theorem exists_eq_x25519 {key : Key} {coordinate : Octets 32}
    (h : key.toPublic = .x25519 coordinate none) : ∃ secret, key = .x25519 coordinate secret := by
  cases key <;> cases h
  exact ⟨_, rfl⟩

theorem exists_eq_secp256k1 {key : Key} {point : Secp256k1.Point}
    (h : key.toPublic = .secp256k1 point none) : ∃ secret, key = .secp256k1 point secret := by
  cases key <;> cases h
  exact ⟨_, rfl⟩

theorem agreed_eq_ok_iff {agreement : Option Bytes} :
    agreed agreement = .ok shared ↔ agreement = some shared := by
  cases agreement with
  | none => exact ⟨nofun, nofun⟩
  | some _ => rw [agreed, Except.ok.injEq, Option.some.injEq]

/-- Keys that agree on a secret are on one curve, and the first is that of its secret. -/
theorem exchange_eq_ok (h : own.exchange peer = .ok shared) :
    (∃ (secret coordinate : Octets 32), own.toPublic = .x25519 (X25519.publicKey secret) none ∧
      peer.toPublic = .x25519 coordinate none ∧
        X25519.agree? secret coordinate = some shared) ∨
    ∃ (scalar : Secp256k1.Scalar) (point : Secp256k1.Point),
      own.toPublic = .secp256k1 scalar.publicKey none ∧
        peer.toPublic = .secp256k1 point none ∧ scalar.agree point = shared := by
  unfold exchange at h
  split at h
  · next coordinate secret coordinate' _ =>
    refine .inl ⟨secret.val, coordinate', ?_, rfl, agreed_eq_ok_iff.mp h⟩
    rw [secret.property]
    rfl
  · next point secret point' _ =>
    obtain rfl := Except.ok.inj h
    refine .inr ⟨secret.val, point', ?_, rfl, rfl⟩
    rw [secret.property]
    rfl
  · cases h
  · cases h
  · cases h

/-- **Both sides agree on the same secret.** -/
theorem exchange_comm (h : own.exchange peer = .ok shared) (hsecret : peer'.hasSecret = true)
    (hpeer : peer'.toPublic = peer.toPublic) (hown : own'.toPublic = own.toPublic) :
    peer'.exchange own' = .ok shared := by
  rcases exchange_eq_ok h with
    ⟨secret, coordinate, ho, hp, hagree⟩ | ⟨scalar, point, ho, hp, hagree⟩
  · obtain ⟨secret', rfl⟩ := exists_eq_x25519 (hpeer.trans hp)
    obtain ⟨secret'', rfl⟩ := exists_eq_x25519 (hown.trans ho)
    obtain ⟨other, rfl⟩ := Option.isSome_iff_exists.mp hsecret
    have hcomm : X25519.agree? other.val (X25519.publicKey secret) = some shared := by
      rw [X25519.agree?_publicKey_comm, other.property]
      exact hagree
    exact agreed_eq_ok_iff.mpr hcomm
  · obtain ⟨secret', rfl⟩ := exists_eq_secp256k1 (hpeer.trans hp)
    obtain ⟨secret'', rfl⟩ := exists_eq_secp256k1 (hown.trans ho)
    obtain ⟨other, rfl⟩ := Option.isSome_iff_exists.mp hsecret
    rw [exchange, Secp256k1.Scalar.agree_publicKey_comm, other.property, hagree]

end Key

/-! ## Messages -/

/-- A cipher undoes what it does, and its tags have one length. -/
structure Cipher.Sound (cipher : Cipher) (tagSize : Nat) : Prop where
  decipher?_encipher : ∀ message, cipher.decipher? (cipher.encipher message) = some message
  length_tag : ∀ aad ciphertext, (cipher.tag aad ciphertext).length = tagSize

/-- A cipher with keyed hashing is made of chained blocks and a tag, whatever its key is. -/
theorem CbcHmac.exists_keys_of_cipher? {hash : Hash} {key nonce : Bytes} {cipher : Cipher}
    (h : CbcHmac.cipher? hash key nonce = some cipher) :
    ∃ block initial, cipher =
      { encipher := Aes.Cbc.encrypt block initial
        decipher? := Aes.Cbc.decrypt? block initial
        tag := fun aad ciphertext => CbcHmac.tag hash key aad nonce ciphertext } := by
  obtain ⟨block, -, h⟩ := Option.bind_eq_some_iff.1 h
  obtain ⟨initial, -, h⟩ := Option.bind_eq_some_iff.1 h
  exact ⟨block, initial, (Option.some.inj h).symm⟩

theorem CbcHmac.cipher?_sound {hash : Hash} {key nonce : Bytes} {cipher : Cipher}
    (h : CbcHmac.cipher? hash key nonce = some cipher) (hsize : key.length / 2 ≤ hash.size) :
    cipher.Sound (key.length / 2) := by
  obtain ⟨block, initial, rfl⟩ := CbcHmac.exists_keys_of_cipher? h
  refine ⟨Aes.Cbc.decrypt?_encrypt block initial, fun aad ciphertext => ?_⟩
  show ((Hmac.code hash _ _).take _).length = _
  rw [List.length_take, Hmac.length_code, Nat.min_eq_left hsize]

/-- The cipher of a content key undoes what it does, and its tags have the length that is
asked for. -/
theorem ContentKey.cipher?_sound {key : ContentKey} {nonce : Bytes} {cipher : Cipher}
    (h : key.cipher? nonce = some cipher) : cipher.Sound key.encryption.tagSize := by
  unfold ContentKey.cipher? at h
  split at h
  · obtain ⟨encryption, secret, hsecret⟩ := key
    cases encryption with
    | a128Gcm =>
      obtain ⟨block, -, rfl⟩ := Option.map_eq_some_iff.1 h
      exact ⟨Aes.Gcm.decipher?_encipher block nonce, Aes.Gcm.length_tag block nonce⟩
    | a256Gcm =>
      obtain ⟨block, -, rfl⟩ := Option.map_eq_some_iff.1 h
      exact ⟨Aes.Gcm.decipher?_encipher block nonce, Aes.Gcm.length_tag block nonce⟩
    | a128CbcHs256 =>
      have hhalf : secret.length / 2 = 16 := by rw [hsecret]; rfl
      have hsound := CbcHmac.cipher?_sound h (by rw [bytes, hhalf]; decide)
      rw [bytes, hhalf] at hsound
      exact hsound
    | a256CbcHs512 =>
      have hhalf : secret.length / 2 = 32 := by rw [hsecret]; rfl
      have hsound := CbcHmac.cipher?_sound h (by rw [bytes, hhalf]; decide)
      rw [bytes, hhalf] at hsound
      exact hsound
    | xc20p =>
      cases h
      exact ⟨XChaChaPoly.decipher?_encipher secret nonce, XChaChaPoly.length_tag secret nonce⟩
  · cases h

/-- **A content key opens what it sealed.** -/
theorem ContentKey.decrypt_sealWith {key : ContentKey} {nonce aad message : Bytes}
    {payload : Payload} (h : key.sealWith nonce aad message = .ok payload) :
    key.decrypt payload aad = .ok message := by
  unfold ContentKey.sealWith at h
  split at h
  · next cipher hcipher =>
    cases h
    have hsound := cipher?_sound hcipher
    exact ContentKey.decrypt_eq_ok_iff.2
      { nonce_length := length_nonce_of_cipher? hcipher
        tag_length := hsound.length_tag _ _
        computed := ⟨cipher, hcipher, rfl, hsound.decipher?_encipher message⟩ }
  · cases h

/-- A content key that is drawn is one for the cipher that was asked for. -/
theorem ContentKey.encryption_of_gives {encryption : ContentEncryption} {key : ContentKey}
    (h : (liftM (ContentKey.generate encryption) : Drawing ContentKey).Gives key) :
    key.encryption = encryption := by
  obtain ⟨random, rest, hdraw⟩ := h.of_draw
  cases hdraw
  rfl

/-- A content key opens what it encrypted, whatever nonce was drawn. -/
theorem ContentKey.decrypt_of_gives {key : ContentKey} {message aad : Bytes} {payload : Payload}
    (h : (key.encrypt message aad).Gives payload) : key.decrypt payload aad = .ok message := by
  obtain ⟨nonce, -, h⟩ := h.of_bind
  exact decrypt_sealWith (Drawing.gives_liftM_iff.1 h)

end SealedEnvelope
