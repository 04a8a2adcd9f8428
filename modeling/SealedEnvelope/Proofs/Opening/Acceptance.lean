import SealedEnvelope.Proofs.Opening.Steps

/-!
# What an envelope is opened for

A recipient that reads a message from an envelope has checked everything about it.
`Anoncrypt.Accepts` and `Authcrypt.Accepts` say what there is to check, in terms of
what a sender computes: the encrypted key of the recipient's entry is, octet by octet,
the key wrap of a content key of the right length, and the tag of the payload is the one
which that content key computes.  Reading succeeds for exactly these envelopes
(`decrypt_eq_ok_iff_accepts`), so nothing is accepted loosely:

* The key management algorithm is spelled out in full, not by its beginning.
* A wrapped key has one spelling, since unwrapping undoes wrapping and the other way
  round, whatever its length.
* Nonce and tag have the lengths that the cipher asks for, and no other tag opens the
  same ciphertext, be it a beginning of the right one.
* With a known sender everything comes from the protected header, and only ciphers with
  keyed hashing are allowed.
-/

namespace SealedEnvelope

/-- `key` is the content key of an envelope for shared octets `secret`: wrapping it under
the key derived from them gives `wrapped`, and it opens the payload. -/
structure ContentKey.Recovers (key : ContentKey) (derivation : Derivation) (wrap : KeyWrap)
    (secret wrapped : Bytes) (envelope : Envelope) (message : Bytes) : Prop where
  key_length : key.bytes.length = key.encryption.keySize
  /-- The wrapped key is the one that a sender makes. -/
  wraps : ∃ wrapping, derivation.key? secret = some wrapping ∧
    wrap.wrap? wrapping key.bytes = some wrapped
  opens : key.Opens envelope.payload envelope.associatedData message
  /-- No other tag goes with the same nonce and ciphertext. -/
  only_tag : ∀ tag other, key.decrypt { envelope.payload with tag } envelope.associatedData =
    .ok other → tag = envelope.payload.tag

/-- What an envelope has to be for a recipient to read a message from it. -/
inductive Anoncrypt.Accepts (envelope : Envelope) (recipient : Identity) (message : Bytes) : Prop
  | intro {wrap : KeyWrap} {entry : Recipient} {ephemeral : Key} {partyU partyV secret : Bytes}
      {key : ContentKey}
      (alg : envelope.protectedHeader.header.alg? = some ("ECDH-ES+" ++ wrap.id))
      (entry_eq : envelope.recipient? recipient.kid = some entry)
      (enc : (envelope.protectedHeader.header.enc? <|> entry.header.enc?) =
        some key.encryption.id)
      (has_secret : recipient.hasSecret = true)
      (epk : entry.header.requireEphemeralKey = .ok ephemeral)
      (apu : envelope.protectedHeader.header.octetsFor entry.header "apu" = .ok partyU)
      (apv : envelope.protectedHeader.header.octetsFor entry.header "apv" = .ok partyV)
      (agree : recipient.key.exchange ephemeral = .ok secret)
      (recovers : key.Recovers ⟨"ECDH-ES+" ++ wrap.id, partyU, partyV, wrap.keySize, []⟩ wrap
        secret entry.encryptedKey envelope message)

/-- What an envelope has to be for a recipient to read a message of a known sender from
it. -/
inductive Authcrypt.Accepts (envelope : Envelope) (recipient sender : Identity)
    (message : Bytes) : Prop
  | intro {wrap : KeyWrap} {entry : Recipient} {ephemeral : Key} {partyU partyV : Bytes}
      {ephemeralSecret staticSecret : Bytes} {key : ContentKey}
      (alg : envelope.protectedHeader.header.alg? = some ("ECDH-1PU+" ++ wrap.id))
      (enc : envelope.protectedHeader.header.enc? = some key.encryption.id)
      (cbc : key.encryption = .a128CbcHs256 ∨ key.encryption = .a256CbcHs512)
      (entry_eq : envelope.recipient? recipient.kid = some entry)
      (has_secret : recipient.hasSecret = true)
      (epk : envelope.protectedHeader.header.requireEphemeralKey = .ok ephemeral)
      (apu : envelope.protectedHeader.header.octets "apu" = .ok partyU)
      (apv : envelope.protectedHeader.header.octets "apv" = .ok partyV)
      (agree_ephemeral : recipient.key.exchange ephemeral = .ok ephemeralSecret)
      (agree_static : recipient.key.exchange sender.key = .ok staticSecret)
      (recovers : key.Recovers
        ⟨"ECDH-1PU+" ++ wrap.id, partyU, partyV, wrap.keySize, envelope.payload.tag⟩ wrap
        (ephemeralSecret ++ staticSecret) entry.encryptedKey envelope message)

/-! ## Content keys -/

/-- One nonce and one ciphertext have one tag. -/
theorem ContentKey.Opens.tag_eq {key : ContentKey} {payload : Payload} {aad message : Bytes}
    (h : key.Opens payload aad message) {tag other : Bytes}
    (hother : key.decrypt { payload with tag } aad = .ok other) : tag = payload.tag := by
  obtain ⟨cipher, hcipher, htag, -⟩ := h.computed
  obtain ⟨cipher', hcipher', htag', -⟩ := (ContentKey.decrypt_eq_ok_iff.1 hother).computed
  obtain rfl : cipher' = cipher := Option.some.inj (hcipher'.symm.trans hcipher)
  exact htag'.symm.trans htag

/-- Unwrapping a content key and decrypting with it is recovering it. -/
theorem ContentKey.recovers_iff {algorithm : String} {partyU partyV : Bytes} {wrap : KeyWrap}
    {secret tag wrapped message : Bytes} {envelope : Envelope} {key : ContentKey} :
    key.Recovers ⟨algorithm, partyU, partyV, wrap.keySize, tag⟩ wrap secret wrapped envelope
        message ↔
      Agreement.wrapUnder ⟨algorithm, partyU, partyV⟩ wrap secret tag key = .ok wrapped ∧
        key.decrypt envelope.payload envelope.associatedData = .ok message := by
  rw [Agreement.wrapUnder_eq_ok_iff, ContentKey.decrypt_eq_ok_iff]
  simp only [Agreement.wrappingKey_eq_ok_iff]
  constructor
  · intro h
    exact ⟨h.wraps, h.opens⟩
  · rintro ⟨hwraps, hopens⟩
    exact
      { key_length := key.secret.property
        wraps := hwraps
        opens := hopens
        only_tag := fun _ _ hother => hopens.tag_eq hother }

/-! ## Envelopes -/

theorem Anoncrypt.decryptEnvelope_eq_ok_iff {envelope : Envelope} {recipient : Identity}
    {message : Bytes} :
    Anoncrypt.decryptEnvelope envelope recipient = .ok message ↔
      Anoncrypt.Accepts envelope recipient message := by
  unfold Anoncrypt.decryptEnvelope
  simp only [bind_eq_ok_iff]
  constructor
  · rintro ⟨alg, halg, wrap, hwrap, h⟩
    obtain rfl := keyWrapOf_eq_ok_iff.1 hwrap
    split at h
    · cases h
    · next entry hentry =>
      simp only [bind_eq_ok_iff, opaquely_eq_ok_iff] at h
      obtain ⟨enc, henc, encryption, hencryption, ⟨⟩, hsecret, ephemeral, hephemeral, partyU,
        hpartyU, partyV, hpartyV, key, hkey, hmessage⟩ := h
      obtain rfl := ContentEncryption.ofId_eq_ok_iff.1 hencryption
      obtain ⟨secret, hagree, rfl, hwrapped⟩ := EcdhEs.unwrapKey_eq_ok_iff.1 hkey
      exact .intro (requireHeader_eq_ok_iff.1 halg) hentry (requireHeader_eq_ok_iff.1 henc)
        (requireSecret_eq_ok_iff.1 hsecret) hephemeral hpartyU hpartyV hagree
        (ContentKey.recovers_iff.2 ⟨hwrapped, hmessage⟩)
  · rintro ⟨halg, hentry, henc, hsecret, hephemeral, hpartyU, hpartyV, hagree, hrecovers⟩
    obtain ⟨hwrapped, hmessage⟩ := ContentKey.recovers_iff.1 hrecovers
    refine ⟨_, requireHeader_eq_ok_iff.2 halg, _, keyWrapOf_eq_ok_iff.2 rfl, ?_⟩
    rw [hentry]
    simp only [bind_eq_ok_iff, opaquely_eq_ok_iff]
    exact ⟨_, requireHeader_eq_ok_iff.2 henc, _, ContentEncryption.ofId_eq_ok_iff.2 rfl, (),
      requireSecret_eq_ok_iff.2 hsecret, _, hephemeral, _, hpartyU, _, hpartyV, _,
      EcdhEs.unwrapKey_eq_ok_iff.2 ⟨_, hagree, rfl, hwrapped⟩, hmessage⟩

theorem ContentEncryption.isCbcHmac_iff {encryption : ContentEncryption} :
    encryption.isCbcHmac = true ↔
      encryption = .a128CbcHs256 ∨ encryption = .a256CbcHs512 := by
  cases encryption <;> decide

theorem Authcrypt.decryptEnvelope_eq_ok_iff {envelope : Envelope} {recipient sender : Identity}
    {message : Bytes} :
    Authcrypt.decryptEnvelope envelope recipient sender = .ok message ↔
      Authcrypt.Accepts envelope recipient sender message := by
  unfold Authcrypt.decryptEnvelope
  simp only [bind_eq_ok_iff]
  constructor
  · rintro ⟨alg, halg, wrap, hwrap, enc, henc, encryption, hencryption, h⟩
    obtain rfl := keyWrapOf_eq_ok_iff.1 hwrap
    obtain ⟨rfl, hcbc⟩ := Authcrypt.encryptionOf_eq_ok_iff.1 hencryption
    split at h
    · cases h
    · next entry hentry =>
      simp only [bind_eq_ok_iff, opaquely_eq_ok_iff] at h
      obtain ⟨⟨⟩, hsecret, ephemeral, hephemeral, partyU, hpartyU, partyV, hpartyV, key, hkey,
        hmessage⟩ := h
      obtain ⟨ephemeralSecret, staticSecret, hagree, hagree', rfl, hwrapped⟩ :=
        Ecdh1Pu.unwrapKey_eq_ok_iff.1 hkey
      exact .intro (requireHeader_eq_ok_iff.1 halg) (requireHeader_eq_ok_iff.1 henc)
        (ContentEncryption.isCbcHmac_iff.1 hcbc) hentry (requireSecret_eq_ok_iff.1 hsecret)
        hephemeral hpartyU hpartyV hagree hagree' (ContentKey.recovers_iff.2 ⟨hwrapped, hmessage⟩)
  · rintro ⟨halg, henc, hcbc, hentry, hsecret, hephemeral, hpartyU, hpartyV, hagree, hagree',
      hrecovers⟩
    obtain ⟨hwrapped, hmessage⟩ := ContentKey.recovers_iff.1 hrecovers
    refine ⟨_, requireHeader_eq_ok_iff.2 halg, _, keyWrapOf_eq_ok_iff.2 rfl, _,
      requireHeader_eq_ok_iff.2 henc, _, Authcrypt.encryptionOf_eq_ok_iff.2
      ⟨rfl, ContentEncryption.isCbcHmac_iff.2 hcbc⟩, ?_⟩
    rw [hentry]
    simp only [bind_eq_ok_iff, opaquely_eq_ok_iff]
    exact ⟨(), requireSecret_eq_ok_iff.2 hsecret, _, hephemeral, _, hpartyU, _, hpartyV, _,
      Ecdh1Pu.unwrapKey_eq_ok_iff.2 ⟨_, _, hagree, hagree', rfl, hwrapped⟩, hmessage⟩

/-- **Opening accepts exactly what a sender who holds the agreed secrets makes**, whether
the envelope was parsed from octets, parsed from a text, or built. -/
theorem decrypt_eq_ok_iff_accepts (source : Source) (recipient : Identity) (message : Bytes) :
    (Anoncrypt.decrypt source recipient = .ok message ↔
      ∃ envelope, source.envelope = .ok envelope ∧
        Anoncrypt.Accepts envelope recipient message) ∧
    ∀ sender, Authcrypt.decrypt source recipient sender = .ok message ↔
      ∃ envelope, source.envelope = .ok envelope ∧
        Authcrypt.Accepts envelope recipient sender message := by
  constructor
  · unfold Anoncrypt.decrypt
    simp only [bind_eq_ok_iff, Anoncrypt.decryptEnvelope_eq_ok_iff]
  · intro sender
    unfold Authcrypt.decrypt
    simp only [bind_eq_ok_iff, Authcrypt.decryptEnvelope_eq_ok_iff]

end SealedEnvelope
