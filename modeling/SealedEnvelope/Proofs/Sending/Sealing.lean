import SealedEnvelope.Proofs.Drawing
import SealedEnvelope.Proofs.RoundTrip.Content

/-!
# Sealing and wrapping succeed

All lengths fit: content keys have the length that their cipher asks for, nonces that are
drawn have it too, and derived keys are as long as the key wrap wants them.  So a message is
always sealed (`ContentKey.exists_encrypt`).  A content key is wrapped for every two keys that
agree on a secret, if the names of the algorithm and of the parties have lengths that fit four
octets (`EcdhEs.exists_wrapKey`, `Ecdh1Pu.exists_wrapKey`).
-/

namespace SealedEnvelope

/-! ## Keys of the block cipher -/

theorem Aes.Block.exists_ofBytes? {bytes : Bytes} (h : bytes.length = 16) :
    ∃ block, Aes.Block.ofBytes? bytes = some block := by
  match bytes, h with
  | [_, _, _, _, _, _, _, _, _, _, _, _, _, _, _, _], _ => exact ⟨_, rfl⟩

theorem Aes.Key.exists_ofBytes? {bytes : Bytes} (h : bytes.length = 16 ∨ bytes.length = 32) :
    ∃ key, Aes.Key.ofBytes? bytes = some key := by
  obtain ⟨blocks, hblocks⟩ := Option.isSome_iff_exists.1
    ((Aes.Block.listOfBytes?_isSome bytes).2 (by omega))
  have hlength : 16 * blocks.length = bytes.length := by
    rw [← Aes.Block.length_listToBytes, Aes.Block.listToBytes_of_listOfBytes? hblocks]
  rw [Aes.Key.ofBytes?, hblocks]
  match blocks, hlength with
  | [], hlength => rcases h with h | h <;> rw [h] at hlength <;> cases hlength
  | [_], _ => exact ⟨_, rfl⟩
  | [_, _], _ => exact ⟨_, rfl⟩
  | _ :: _ :: _ :: _, hlength =>
    simp only [List.length_cons] at hlength
    omega

/-! ## Sealing -/

/-- Both halves of a key for chained blocks are as long as a key of the block cipher. -/
theorem CbcHmac.exists_cipher? {hash : Hash} {key nonce : Bytes}
    (hkey : key.length = 32 ∨ key.length = 64) (hnonce : nonce.length = 16) :
    ∃ cipher, CbcHmac.cipher? hash key nonce = some cipher := by
  obtain ⟨block, hblock⟩ : ∃ block, Aes.Key.ofBytes? (key.drop (key.length / 2)) = some block := by
    refine Aes.Key.exists_ofBytes? ?_
    rw [List.length_drop]
    omega
  obtain ⟨initial, hinitial⟩ := Aes.Block.exists_ofBytes? hnonce
  rw [CbcHmac.cipher?, hblock, hinitial]
  exact ⟨_, rfl⟩

namespace ContentKey

variable {key : ContentKey} {nonce : Bytes}

theorem length_bytes (key : ContentKey) : key.bytes.length = key.encryption.keySize :=
  key.secret.property

theorem exists_cipher? (h : nonce.length = key.encryption.nonceSize) :
    ∃ cipher, key.cipher? nonce = some cipher := by
  have hbytes := key.length_bytes
  obtain ⟨encryption, secret⟩ := key
  rw [cipher?, if_pos h]
  cases encryption with
  | a128Gcm =>
    obtain ⟨block, hblock⟩ := Aes.Key.exists_ofBytes? (.inl hbytes)
    exact ⟨_, Option.map_eq_some_iff.2 ⟨block, hblock, rfl⟩⟩
  | a256Gcm =>
    obtain ⟨block, hblock⟩ := Aes.Key.exists_ofBytes? (.inr hbytes)
    exact ⟨_, Option.map_eq_some_iff.2 ⟨block, hblock, rfl⟩⟩
  | a128CbcHs256 => exact CbcHmac.exists_cipher? (.inl hbytes) h
  | a256CbcHs512 => exact CbcHmac.exists_cipher? (.inr hbytes) h
  | xc20p => exact ⟨_, rfl⟩

theorem exists_sealWith (h : nonce.length = key.encryption.nonceSize) (aad message : Bytes) :
    ∃ payload, key.sealWith nonce aad message = .ok payload := by
  obtain ⟨cipher, hcipher⟩ := exists_cipher? h
  rw [sealWith, hcipher]
  exact ⟨_, rfl⟩

/-- **Every message is sealed**, and one nonce is drawn for it. -/
theorem exists_encrypt (key : ContentKey) (message aad : Bytes) (random : Entropy) :
    ∃ payload, (key.encrypt message aad).run.run random =
      some (.ok payload, random.skip key.encryption.nonceSize) := by
  obtain ⟨payload, hpayload⟩ :=
    exists_sealWith (random.length_next key.encryption.nonceSize) aad message
  refine ⟨payload, ?_⟩
  show some (key.sealWith (random.next key.encryption.nonceSize) aad message, _) = _
  rw [hpayload]

theorem gives_encrypt (key : ContentKey) (message aad : Bytes) :
    ∃ payload, (key.encrypt message aad).Gives payload := by
  obtain ⟨payload, hpayload⟩ := exists_encrypt key message aad ⟨[], fun _ => 0, 0⟩
  exact ⟨payload, _, _, hpayload⟩

/-- The tag of a payload has the length that its cipher says, which fits four octets. -/
theorem length_tag_lt {message aad : Bytes} {payload : Payload}
    (h : (key.encrypt message aad).Gives payload) :
    payload.tag.length < 0x100000000 := by
  rw [(decrypt_eq_ok_iff.1 (decrypt_of_gives h)).tag_length]
  cases key.encryption <;> decide

end ContentKey

/-! ## Wrapping -/

theorem Aes.Half.exists_listOfBytes? (count : Nat) {bytes : Bytes} (h : bytes.length = 8 * count) :
    ∃ halves, Aes.Half.listOfBytes? bytes = some halves := by
  induction count generalizing bytes with
  | zero =>
    obtain rfl := List.eq_nil_of_length_eq_zero h
    exact ⟨[], rfl⟩
  | succ count ih =>
    match bytes, h with
    | _ :: _ :: _ :: _ :: _ :: _ :: _ :: _ :: rest, h =>
      obtain ⟨halves, hhalves⟩ := ih (show rest.length = 8 * count by
        simp only [List.length_cons] at h
        omega)
      exact ⟨_, Option.map_eq_some_iff.2 ⟨halves, hhalves, rfl⟩⟩

/-- The keys of all ciphers are made of half blocks. -/
theorem KeyWrap.exists_wrap? {wrap : KeyWrap} {wrapping : Bytes}
    (h : wrapping.length = wrap.keySize) (key : ContentKey) :
    ∃ wrapped, wrap.wrap? wrapping key.bytes = some wrapped := by
  obtain ⟨cipher, hcipher⟩ : ∃ cipher, Aes.Key.ofBytes? wrapping = some cipher := by
    refine Aes.Key.exists_ofBytes? ?_
    cases wrap with
    | a128Kw => exact .inl h
    | a256Kw => exact .inr h
  obtain ⟨halves, hhalves⟩ : ∃ halves, Aes.Half.listOfBytes? key.bytes = some halves := by
    refine Aes.Half.exists_listOfBytes? (key.encryption.keySize / 8) ?_
    rw [key.length_bytes]
    cases key.encryption <;> rfl
  have hwrapping : wrap.cipher? wrapping = some cipher := by rw [cipher?, if_pos h, hcipher]
  rw [wrap?, hwrapping]
  show ∃ wrapped, Aes.KeyWrap.wrap? cipher key.bytes = some wrapped
  rw [Aes.KeyWrap.wrap?, hhalves]
  exact ⟨_, rfl⟩

/-- The lengths that are hashed into a derived key fit four octets. -/
structure Agreement.Fits (agreement : Agreement) : Prop where
  algorithm : (Bytes.ofText agreement.algorithm).length < 0x100000000
  partyU : agreement.partyU.length < 0x100000000
  partyV : agreement.partyV.length < 0x100000000

theorem Derivation.exists_counted? {part : Bytes} (h : part.length < 0x100000000) :
    ∃ counted, Derivation.counted? part = some counted :=
  ⟨_, if_pos h⟩

namespace Agreement

variable {agreement : Agreement} {tag : Bytes}

/-- A wrapping key is derived from every secret, and has the length that the key wrap asks
for. -/
theorem Fits.exists_wrappingKey (hfits : agreement.Fits) (htag : tag.length < 0x100000000)
    (wrap : KeyWrap) (secret : Bytes) :
    ∃ wrapping, agreement.wrappingKey wrap secret tag = .ok wrapping ∧
      wrapping.length = wrap.keySize := by
  have hsize : wrap.keySize ≤ 32 := by cases wrap <;> decide
  obtain ⟨algorithm, halgorithm⟩ := Derivation.exists_counted? hfits.algorithm
  obtain ⟨partyU, hpartyU⟩ := Derivation.exists_counted? hfits.partyU
  obtain ⟨partyV, hpartyV⟩ := Derivation.exists_counted? hfits.partyV
  obtain ⟨counted, hcounted⟩ := Derivation.exists_counted? htag
  obtain ⟨input, hinput⟩ : ∃ input, (⟨agreement.algorithm, agreement.partyU, agreement.partyV,
      wrap.keySize, tag⟩ : Derivation).input? secret = some input := by
    simp only [Derivation.input?, halgorithm, hpartyU, hpartyV, hcounted, Option.bind_eq_bind,
      Option.bind_some]
    -- An empty tag is left out, and any other one is counted.
    by_cases hempty : tag.isEmpty = true
    · exact ⟨_, if_pos hempty⟩
    · exact ⟨_, if_neg hempty⟩
  refine ⟨(Sha256.digest input).take wrap.keySize, wrappingKey_eq_ok_iff.2 ?_, ?_⟩
  · rw [Derivation.key?, if_pos hsize, hinput]
    rfl
  · rw [List.length_take, Sha256.length_digest, Nat.min_eq_left hsize]

theorem Fits.exists_wrapUnder (hfits : agreement.Fits) (htag : tag.length < 0x100000000)
    (wrap : KeyWrap) (secret : Bytes) (key : ContentKey) :
    ∃ wrapped, agreement.wrapUnder wrap secret tag key = .ok wrapped := by
  obtain ⟨wrapping, hwrapping, hlength⟩ := hfits.exists_wrappingKey htag wrap secret
  obtain ⟨wrapped, hwrapped⟩ := KeyWrap.exists_wrap? hlength key
  exact ⟨wrapped, wrapUnder_eq_ok_iff.2 ⟨wrapping, hwrapping, hwrapped⟩⟩

end Agreement

variable {agreement : Agreement} {ephemeral sender recipient : Key}
  {ephemeralSecret staticSecret tag : Bytes}

/-- **A content key is wrapped for every two keys that agree on a secret.** -/
theorem EcdhEs.exists_wrapKey (hfits : agreement.Fits)
    (hexchange : ephemeral.exchange recipient = .ok ephemeralSecret) (wrap : KeyWrap)
    (key : ContentKey) :
    ∃ wrapped, EcdhEs.wrapKey agreement wrap ephemeral recipient key = .ok wrapped := by
  have htag : ([] : Bytes).length < 0x100000000 := by decide
  obtain ⟨wrapped, hwrapped⟩ := hfits.exists_wrapUnder htag wrap ephemeralSecret key
  exact ⟨wrapped, bind_eq_ok_iff.2 ⟨ephemeralSecret, hexchange, hwrapped⟩⟩

/-- **A content key is wrapped if the sender's key agrees with the recipient's as well.** -/
theorem Ecdh1Pu.exists_wrapKey (hfits : agreement.Fits) (htag : tag.length < 0x100000000)
    (hephemeral : ephemeral.exchange recipient = .ok ephemeralSecret)
    (hstatic : sender.exchange recipient = .ok staticSecret) (wrap : KeyWrap) (key : ContentKey) :
    ∃ wrapped, Ecdh1Pu.wrapKey agreement wrap ephemeral sender recipient key tag =
      .ok wrapped := by
  obtain ⟨wrapped, hwrapped⟩ :=
    hfits.exists_wrapUnder htag wrap (ephemeralSecret ++ staticSecret) key
  exact ⟨wrapped, bind_eq_ok_iff.2
    ⟨ephemeralSecret, hephemeral, bind_eq_ok_iff.2 ⟨staticSecret, hstatic, hwrapped⟩⟩⟩

end SealedEnvelope
