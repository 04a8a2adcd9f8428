import SealedEnvelope.Proofs.Sending.Sealing

/-!
# What chained blocks with keyed hashing accept

A payload is accepted exactly if its nonce is one block, its ciphertext is made of whole blocks,
and its tag is the start of one authentication code (`CbcHmac.Accepted`).  Everything else fails
with the same error, and a shorter or longer tag is as wrong as any other
(`ContentKey.cbcHmac_acceptance`).

The code is that of additional data, nonce and ciphertext one behind the other.  No separator stands
between them, and none is needed: the octets at the end give the length of the additional data, and
a nonce has a fixed length, so the parts are found again (`CbcHmac.authenticated_inj`).  That holds
as long as the eight octets hold the length in bits.
-/

namespace SealedEnvelope

/-- The hash function of a cipher that is made of chained blocks and keyed hashing. -/
def ContentEncryption.hash? : ContentEncryption → Option Hash
  | .a128CbcHs256 => some Sha256.hash
  | .a256CbcHs512 => some Sha512.hash
  | _ => none

namespace CbcHmac

variable {aad nonce ciphertext aad' nonce' ciphertext' : Bytes}

/-- **What is authenticated tells its parts apart.** -/
theorem authenticated_inj (haad : aad.length < 2 ^ 61) (haad' : aad'.length < 2 ^ 61)
    (hnonce : nonce.length = nonce'.length)
    (h : authenticated aad nonce ciphertext = authenticated aad' nonce' ciphertext') :
    aad = aad' ∧ nonce = nonce' ∧ ciphertext = ciphertext' := by
  have hwidths : (Bytes.ofNatBE 8 (8 * aad.length)).length =
      (Bytes.ofNatBE 8 (8 * aad'.length)).length := by
    rw [Bytes.length_ofNatBE, Bytes.length_ofNatBE]
  obtain ⟨h, hbits⟩ := List.append_inj' h hwidths
  have hlength : aad.length = aad'.length :=
    Nat.eq_of_mul_eq_mul_left (by decide) (Bytes.ofNatBE_inj (by omega) (by omega) hbits)
  have hfront : (aad ++ nonce).length = (aad' ++ nonce').length := by
    rw [List.length_append, List.length_append, hlength, hnonce]
  obtain ⟨h, hciphertext⟩ := List.append_inj h hfront
  obtain ⟨haads, hnonces⟩ := List.append_inj h hlength
  exact ⟨haads, hnonces, hciphertext⟩

/-- What makes a key accept a payload. -/
structure Accepted (hash : Hash) (key : ContentKey) (payload : Payload) (aad : Bytes) : Prop where
  nonce_length : payload.nonce.length = 16
  nonempty : payload.ciphertext ≠ []
  whole_blocks : 16 ∣ payload.ciphertext.length
  /-- The tag is the start of the authentication code under the first half of the key. -/
  tag_eq : payload.tag =
    (Hmac.code hash (key.bytes.take (key.encryption.keySize / 2))
      (aad ++ payload.nonce ++ payload.ciphertext ++ Bytes.ofNatBE 8 (8 * aad.length))).take
      key.encryption.tagSize

end CbcHmac

/-- The tag of such a cipher, and what it deciphers. -/
theorem CbcHmac.tag_and_decipher? {hash : Hash} {key nonce : Bytes} {cipher : Cipher}
    (h : CbcHmac.cipher? hash key nonce = some cipher) (aad ciphertext : Bytes) :
    cipher.tag aad ciphertext = CbcHmac.tag hash key aad nonce ciphertext ∧
      ((cipher.decipher? ciphertext).isSome ↔ ciphertext ≠ [] ∧ ciphertext.length % 16 = 0) := by
  obtain ⟨block, initial, rfl⟩ := CbcHmac.exists_keys_of_cipher? h
  exact ⟨rfl, Aes.Cbc.decrypt?_isSome block initial ciphertext⟩

/-- A nonce is one block, and a tag is as long as half a key and not longer than a digest. -/
theorem ContentEncryption.sizes_of_hash? {encryption : ContentEncryption} {hash : Hash}
    (h : encryption.hash? = some hash) :
    encryption.nonceSize = 16 ∧ encryption.tagSize = encryption.keySize / 2 ∧
      encryption.tagSize ≤ hash.size := by
  cases encryption with
  | a128CbcHs256 | a256CbcHs512 =>
    cases h
    decide
  | a128Gcm | a256Gcm | xc20p => cases h

namespace ContentKey

variable {key : ContentKey} {hash : Hash} {payload : Payload} {aad nonce : Bytes}

theorem cipher?_of_hash? (hkey : key.encryption.hash? = some hash) (hnonce : nonce.length = 16) :
    key.cipher? nonce = CbcHmac.cipher? hash key.bytes nonce := by
  obtain ⟨encryption, secret⟩ := key
  cases encryption with
  | a128CbcHs256 | a256CbcHs512 =>
    cases hkey
    exact if_pos hnonce
  | a128Gcm | a256Gcm | xc20p => cases hkey

/-- The tag under a key, with its lengths as the cipher says. -/
theorem tag_of_hash? (hkey : key.encryption.hash? = some hash) (aad nonce ciphertext : Bytes) :
    CbcHmac.tag hash key.bytes aad nonce ciphertext =
      (Hmac.code hash (key.bytes.take (key.encryption.keySize / 2))
        (aad ++ nonce ++ ciphertext ++ Bytes.ofNatBE 8 (8 * aad.length))).take
        key.encryption.tagSize := by
  obtain ⟨-, htag, -⟩ := ContentEncryption.sizes_of_hash? hkey
  rw [CbcHmac.tag, key.length_bytes, htag]
  rfl

/-- **A key accepts exactly the payloads that `CbcHmac.Accepted` describes.** -/
theorem exists_decrypt_iff_accepted (hkey : key.encryption.hash? = some hash) :
    (∃ message, key.decrypt payload aad = .ok message) ↔
      CbcHmac.Accepted hash key payload aad := by
  obtain ⟨hnonceSize, -, htagSize⟩ := ContentEncryption.sizes_of_hash? hkey
  simp only [decrypt_eq_ok_iff]
  constructor
  · rintro ⟨message, hopens⟩
    have hnonce := hopens.nonce_length.trans hnonceSize
    obtain ⟨cipher, hcipher, htag, hmessage⟩ := hopens.computed
    rw [cipher?_of_hash? hkey hnonce] at hcipher
    obtain ⟨htags, hdecipher⟩ := CbcHmac.tag_and_decipher? hcipher aad payload.ciphertext
    obtain ⟨hnonempty, hblocks⟩ := hdecipher.1 (Option.isSome_iff_exists.2 ⟨message, hmessage⟩)
    exact
      { nonce_length := hnonce
        nonempty := hnonempty
        whole_blocks := Nat.dvd_of_mod_eq_zero hblocks
        tag_eq := by rw [← htag, htags, tag_of_hash? hkey] }
  · intro h
    obtain ⟨cipher, hcipher⟩ := key.exists_cipher? (h.nonce_length.trans hnonceSize.symm)
    have hchained := hcipher
    rw [cipher?_of_hash? hkey h.nonce_length] at hchained
    obtain ⟨htags, hdecipher⟩ := CbcHmac.tag_and_decipher? hchained aad payload.ciphertext
    obtain ⟨message, hmessage⟩ := Option.isSome_iff_exists.1
      (hdecipher.2 ⟨h.nonempty, Nat.mod_eq_zero_of_dvd h.whole_blocks⟩)
    refine ⟨message, ⟨h.nonce_length.trans hnonceSize.symm, ?_, cipher, hcipher, ?_, hmessage⟩⟩
    · rw [h.tag_eq, List.length_take, Hmac.length_code, Nat.min_eq_left htagSize]
    · rw [htags, tag_of_hash? hkey, ← h.tag_eq]

/-- What is not decrypted fails with one error. -/
theorem decrypt_eq_error (h : ¬∃ message, key.decrypt payload aad = .ok message) :
    key.decrypt payload aad = .error .cryptography := by
  rw [decrypt] at h ⊢
  split at h
  · next message _ => exact absurd ⟨message, rfl⟩ h
  · rfl

/-- **Acceptance is exact, and nothing is authenticated as something else.**  A payload is
decrypted exactly if its nonce is one block, its ciphertext is made of whole blocks and its tag is
the start of the authentication code; everything else fails with the same error, and so does an
accepted payload under any other tag, be it a part of the right one or longer.  Two choices of
additional data, nonce and ciphertext are not authenticated alike. -/
theorem cbcHmac_acceptance (hkey : key.encryption.hash? = some hash) :
    (∀ payload aad,
      (CbcHmac.Accepted hash key payload aad → ∃ message, key.decrypt payload aad = .ok message) ∧
      (¬CbcHmac.Accepted hash key payload aad → key.decrypt payload aad = .error .cryptography) ∧
      (CbcHmac.Accepted hash key payload aad → ∀ tag, tag ≠ payload.tag →
        key.decrypt { payload with tag } aad = .error .cryptography)) ∧
    ∀ aad nonce ciphertext aad' nonce' ciphertext' : Bytes,
      aad.length < 2 ^ 61 → aad'.length < 2 ^ 61 → nonce.length = 16 → nonce'.length = 16 →
      CbcHmac.authenticated aad nonce ciphertext = CbcHmac.authenticated aad' nonce' ciphertext' →
      (aad, nonce, ciphertext) = (aad', nonce', ciphertext') := by
  refine ⟨fun payload aad =>
      ⟨(exists_decrypt_iff_accepted hkey).2, fun h => ?_, fun h tag htag => ?_⟩,
    fun aad nonce ciphertext aad' nonce' ciphertext' haad haad' hnonce hnonce' h => ?_⟩
  · exact decrypt_eq_error (mt (exists_decrypt_iff_accepted hkey).1 h)
  · refine decrypt_eq_error fun hother => htag ?_
    exact ((exists_decrypt_iff_accepted hkey).1 hother).tag_eq.trans h.tag_eq.symm
  · obtain ⟨rfl, rfl, rfl⟩ :=
      CbcHmac.authenticated_inj haad haad' (hnonce.trans hnonce'.symm) h
    rfl

/-- A block under a nonce of zeros: the right tag is accepted, but not without its last octet and
not with one more.  And if one octet moves from the ciphertext to the nonce, and another one from
the nonce to the additional data, something else is authenticated. -/
theorem cbcHmac_acceptance_of_one_block :
    let key : ContentKey := ⟨.a128CbcHs256, ⟨(List.range 32).map UInt8.ofNat, rfl⟩⟩
    let tag : Bytes := [154, 9, 109, 184, 6, 130, 113, 9, 17, 136, 136, 217, 5, 32, 20, 217]
    let payload : Payload := ⟨List.replicate 16 7, List.replicate 16 0, tag⟩
    (∃ message, key.decrypt payload [1, 2] = .ok message) ∧
      key.decrypt { payload with tag := tag.take 15 } [1, 2] = .error .cryptography ∧
      key.decrypt { payload with tag := tag ++ [0] } [1, 2] = .error .cryptography ∧
      CbcHmac.authenticated [1, 2] (List.replicate 16 0) (List.replicate 16 7) ≠
        CbcHmac.authenticated [1, 2, 0] (List.replicate 15 0 ++ [7]) (List.replicate 15 7) := by
  intro key tag payload
  have haccepted : CbcHmac.Accepted Sha256.hash key payload [1, 2] :=
    { nonce_length := rfl
      nonempty := by decide
      whole_blocks := by decide
      tag_eq := by decide +kernel }
  have hkey : key.encryption.hash? = some Sha256.hash := rfl
  obtain ⟨hright, -, hother⟩ := (cbcHmac_acceptance hkey).1 payload [1, 2]
  refine ⟨hright haccepted, hother haccepted _ (by decide), hother haccepted _ (by decide),
    fun h => ?_⟩
  have hparts := (cbcHmac_acceptance hkey).2 _ _ _ _ _ _ (by decide) (by decide) rfl rfl h
  exact absurd (congrArg Prod.fst hparts) (by decide)

end ContentKey

end SealedEnvelope
