import SealedEnvelope.Proofs.Sending.Sealing

/-!
# Sealed messages

Every key seals every message, and opens what it sealed (`ContentKey.encrypt_then_decrypt`).  What a
sealed message looks like from outside says no more than the cipher and how long the message is: the
nonce and the tag have fixed lengths, and the ciphertext is as long as the message or, with chained
blocks, as long as the message after it was filled up (`ContentEncryption.ciphertextSize`).

With chained blocks a message is always filled up, so that the empty message and one of whole blocks
become a block longer.  That is what lets the fill be taken off again without looking at all of it.
-/

namespace SealedEnvelope

/-- How many octets a message of the given length is enciphered to. -/
def ContentEncryption.ciphertextSize (encryption : ContentEncryption) (size : ℕ) : ℕ :=
  if encryption.isCbcHmac then 16 * (size / 16 + 1) else size

theorem CbcHmac.length_encipher {hash : Hash} {key nonce : Bytes} {cipher : Cipher}
    (h : CbcHmac.cipher? hash key nonce = some cipher) (message : Bytes) :
    (cipher.encipher message).length = 16 * (message.length / 16 + 1) := by
  obtain ⟨block, initial, rfl⟩ := CbcHmac.exists_keys_of_cipher? h
  exact Aes.Cbc.length_encrypt block initial message

namespace ContentKey

variable {key : ContentKey} {nonce aad message : Bytes} {payload : Payload}

/-- The length of a ciphertext depends on the cipher and on the length of the message only. -/
theorem length_encipher {cipher : Cipher} (h : key.cipher? nonce = some cipher) (message : Bytes) :
    (cipher.encipher message).length = key.encryption.ciphertextSize message.length := by
  unfold ContentKey.cipher? at h
  split at h
  · obtain ⟨encryption, secret⟩ := key
    cases encryption with
    | a128Gcm | a256Gcm =>
      obtain ⟨block, -, rfl⟩ := Option.map_eq_some_iff.1 h
      exact Aes.Gcm.length_encipher block nonce message
    | a128CbcHs256 | a256CbcHs512 => exact CbcHmac.length_encipher h message
    | xc20p =>
      cases h
      exact XChaChaPoly.length_encipher _ nonce message
  · cases h

/-- What is sealed goes under the nonce that was given, and its parts have the lengths that the
cipher says. -/
theorem sizes_of_sealWith (h : key.sealWith nonce aad message = .ok payload) :
    payload.nonce = nonce ∧ payload.tag.length = key.encryption.tagSize ∧
      payload.ciphertext.length = key.encryption.ciphertextSize message.length := by
  unfold ContentKey.sealWith at h
  split at h
  · next cipher hcipher =>
    cases h
    exact ⟨rfl, (cipher?_sound hcipher).length_tag _ _, length_encipher hcipher message⟩
  · cases h

/-- **Every message is sealed, and opened again by the same key.**  Whatever the cipher is, the
nonce is what was drawn, nonce and tag have the lengths that the cipher asks for, and the ciphertext
is as long as the message, or as the message filled up to whole blocks. -/
theorem encrypt_then_decrypt (key : ContentKey) (message aad : Bytes) (random : Entropy) :
    ∃ payload, (key.encrypt message aad).run.run random =
        some (.ok payload, random.skip key.encryption.nonceSize) ∧
      payload.nonce = random.next key.encryption.nonceSize ∧
      payload.nonce.length = key.encryption.nonceSize ∧
      payload.tag.length = key.encryption.tagSize ∧
      payload.ciphertext.length =
        (if key.encryption.isCbcHmac then 16 * (message.length / 16 + 1) else message.length) ∧
      key.decrypt payload aad = .ok message := by
  obtain ⟨payload, hencrypt⟩ := exists_encrypt key message aad random
  have hseal : key.sealWith (random.next key.encryption.nonceSize) aad message = .ok payload :=
    (Prod.mk.inj (Option.some.inj hencrypt)).1
  obtain ⟨hnonce, htag, hciphertext⟩ := sizes_of_sealWith hseal
  refine ⟨payload, hencrypt, hnonce, ?_, htag, hciphertext, decrypt_sealWith hseal⟩
  rw [hnonce, random.length_next]

end ContentKey

end SealedEnvelope
