import SealedEnvelope.Authcrypt

/-!
# The steps of opening an envelope

Opening an envelope is a chain of steps, each of which gives a value or ends the
chain.  For each step there is one lemma here that says exactly when it gives a
value, and which one.  What a whole chain accepts is then read off step by step,
and no later proof looks into a step again.

* `unwrapUnder_eq_ok_iff`: a content key is unwrapped exactly if wrapping that key
  gives the octets that were unwrapped.
* `ContentKey.decrypt_eq_ok_iff`: a payload is decrypted exactly if `ContentKey.Opens`
  holds, which is about what the key's cipher computes and not about how tags are
  compared.
-/

namespace SealedEnvelope

/-! ## Results -/

/-- A chain gives a value exactly if both of its steps do. -/
theorem bind_eq_ok_iff {ε α β : Type} {first : Except ε α} {next : α → Except ε β} {b : β} :
    (first >>= next) = .ok b ↔ ∃ a, first = .ok a ∧ next a = .ok b := by
  cases first with
  | error cause => exact ⟨nofun, fun ⟨_, h, _⟩ => nomatch h⟩
  | ok a =>
    constructor
    · intro h
      exact ⟨a, rfl, h⟩
    · rintro ⟨_, ha, h⟩
      cases ha
      exact h

theorem map_eq_ok_iff {ε α β : Type} {f : α → β} {result : Except ε α} {b : β} :
    result.map f = .ok b ↔ ∃ a, result = .ok a ∧ f a = b := by
  cases result with
  | error cause => exact ⟨nofun, fun ⟨_, h, _⟩ => nomatch h⟩
  | ok a => simp [Except.map]

theorem mapError_eq_ok_iff {ε ε' α : Type} {f : ε → ε'} {result : Except ε α} {a : α} :
    result.mapError f = .ok a ↔ result = .ok a := by
  cases result with
  | error cause => exact ⟨nofun, nofun⟩
  | ok b => exact ⟨fun h => by cases h; rfl, fun h => by cases h; rfl⟩

/-- A result that is a value of some kind is that value. -/
theorem exists_eq_ok_of_any {ε α : Type} {result : Except ε α} {p : α → Bool}
    (h : result.toOption.any p = true) : ∃ a, result = .ok a ∧ p a = true := by
  cases result with
  | error cause => cases h
  | ok a => exact ⟨a, rfl, h⟩

theorem opaquely_eq_ok_iff {α : Type} {result : Except Error α} {a : α} :
    opaquely result = .ok a ↔ result = .ok a := by
  cases result with
  | error cause => exact ⟨nofun, nofun⟩
  | ok b => exact Iff.rfl

/-! ## Parameters -/

theorem requireHeader_eq_ok_iff {value : Option String} {name text : String} :
    requireHeader value name = .ok text ↔ value = some text := by
  cases value with
  | none => exact ⟨nofun, nofun⟩
  | some other => simp [requireHeader]

theorem requireSecret_eq_ok_iff {identity : Identity} :
    requireSecret identity = .ok () ↔ identity.hasSecret = true := by
  unfold requireSecret
  split
  · next h => exact ⟨fun _ => h, fun _ => rfl⟩
  · next h => exact ⟨nofun, fun h' => absurd h' h⟩

/-- The names of key management algorithms of one family tell the key wraps apart. -/
theorem keyWrapOf_name (family : String) (wrap : KeyWrap) :
    keyWrapOf family (family ++ "+" ++ wrap.id) = .ok wrap := by
  have hfind := KeyWrap.ofId?_id wrap
  unfold KeyWrap.ofId? at hfind
  simp only [keyWrapOf, String.append_right_inj, hfind]

/-- A key management algorithm is accepted exactly if it is the name of its family, a
plus sign, and the name of a key wrap. -/
theorem keyWrapOf_eq_ok_iff {family alg : String} {wrap : KeyWrap} :
    keyWrapOf family alg = .ok wrap ↔ alg = family ++ "+" ++ wrap.id := by
  constructor
  · intro h
    unfold keyWrapOf at h
    split at h
    · next found hfound =>
      cases h
      have hname := List.find?_some hfound
      exact (of_decide_eq_true hname).symm
    · cases h
  · rintro rfl
    exact keyWrapOf_name family wrap

theorem ContentEncryption.ofId_eq_ok_iff {id : String} {encryption : ContentEncryption} :
    ContentEncryption.ofId id = .ok encryption ↔ id = encryption.id := by
  constructor
  · intro h
    unfold ContentEncryption.ofId at h
    split at h
    · next found hfound =>
      cases h
      have hname := List.find?_some hfound
      exact (of_decide_eq_true hname).symm
    · cases h
  · rintro rfl
    exact ofId_id encryption

theorem Authcrypt.encryptionOf_eq_ok_iff {alg enc : String} {encryption : ContentEncryption} :
    Authcrypt.encryptionOf alg enc = .ok encryption ↔
      enc = encryption.id ∧ encryption.isCbcHmac = true := by
  unfold Authcrypt.encryptionOf
  rw [bind_eq_ok_iff]
  constructor
  · rintro ⟨found, hfound, h⟩
    split at h
    · next hcbc =>
      cases h
      exact ⟨ContentEncryption.ofId_eq_ok_iff.1 hfound, hcbc⟩
    · cases h
  · rintro ⟨hname, hcbc⟩
    exact ⟨encryption, ContentEncryption.ofId_eq_ok_iff.2 hname, if_pos hcbc⟩

/-! ## Content keys -/

theorem ContentKey.ofBytes_eq_ok_iff {encryption : ContentEncryption} {bytes : Bytes}
    {key : ContentKey} :
    ContentKey.ofBytes encryption bytes = .ok key ↔
      key.encryption = encryption ∧ key.bytes = bytes := by
  constructor
  · intro h
    unfold ContentKey.ofBytes at h
    split at h
    · next secret hsecret =>
      cases h
      exact ⟨rfl, Octets.ofBytes?_eq_some.1 hsecret⟩
    · cases h
  · rintro ⟨rfl, rfl⟩
    obtain ⟨encryption, secret⟩ := key
    simp [ContentKey.ofBytes, ContentKey.bytes]

/-- The key that wraps content keys is the start of a single digest. -/
theorem Agreement.wrappingKey_eq_ok_iff {agreement : Agreement} {wrap : KeyWrap}
    {secret tag key : Bytes} :
    agreement.wrappingKey wrap secret tag = .ok key ↔
      Derivation.key? ⟨agreement.algorithm, agreement.partyU, agreement.partyV, wrap.keySize, tag⟩
        secret = some key := by
  unfold Agreement.wrappingKey
  dsimp only
  split
  · next derived hderived => rw [hderived, Except.ok.injEq, Option.some.injEq]
  · next hnone => simp [hnone]

theorem KeyWrap.unwrap?_eq_some_iff {wrap : KeyWrap} {key wrapped secret : Bytes} :
    wrap.unwrap? key wrapped = some secret ↔ wrap.wrap? key secret = some wrapped := by
  unfold KeyWrap.unwrap? KeyWrap.wrap?
  cases wrap.cipher? key with
  | none => exact ⟨nofun, nofun⟩
  | some cipher => exact Aes.KeyWrap.unwrap?_eq_some_iff

theorem Agreement.wrapUnder_eq_ok_iff {agreement : Agreement} {wrap : KeyWrap}
    {secret tag wrapped : Bytes} {key : ContentKey} :
    agreement.wrapUnder wrap secret tag key = .ok wrapped ↔
      ∃ wrapping, agreement.wrappingKey wrap secret tag = .ok wrapping ∧
        wrap.wrap? wrapping key.bytes = some wrapped := by
  unfold Agreement.wrapUnder
  rw [bind_eq_ok_iff]
  refine exists_congr fun wrapping => and_congr_right fun _ => ?_
  cases wrap.wrap? wrapping key.bytes with
  | none => exact ⟨nofun, nofun⟩
  | some octets => rw [Except.ok.injEq, Option.some.injEq]

/-- Unwrapping accepts exactly what wrapping makes. -/
theorem Agreement.unwrapUnder_eq_ok_iff {agreement : Agreement} {wrap : KeyWrap}
    {secret tag wrapped : Bytes} {encryption : ContentEncryption} {key : ContentKey} :
    agreement.unwrapUnder wrap secret tag encryption wrapped = .ok key ↔
      key.encryption = encryption ∧ agreement.wrapUnder wrap secret tag key = .ok wrapped := by
  rw [Agreement.wrapUnder_eq_ok_iff]
  unfold Agreement.unwrapUnder
  rw [bind_eq_ok_iff]
  constructor
  · rintro ⟨wrapping, hwrapping, h⟩
    split at h
    · next bytes hbytes =>
      obtain ⟨hencryption, rfl⟩ := ContentKey.ofBytes_eq_ok_iff.1 h
      exact ⟨hencryption, wrapping, hwrapping, KeyWrap.unwrap?_eq_some_iff.1 hbytes⟩
    · cases h
  · rintro ⟨hencryption, wrapping, hwrapping, hwrapped⟩
    refine ⟨wrapping, hwrapping, ?_⟩
    rw [KeyWrap.unwrap?_eq_some_iff.2 hwrapped]
    exact ContentKey.ofBytes_eq_ok_iff.2 ⟨hencryption, rfl⟩

theorem EcdhEs.unwrapKey_eq_ok_iff {agreement : Agreement} {wrap : KeyWrap}
    {encryption : ContentEncryption} {ephemeral recipient : Key} {wrapped : Bytes}
    {key : ContentKey} :
    EcdhEs.unwrapKey agreement wrap encryption ephemeral recipient wrapped = .ok key ↔
      ∃ secret, recipient.exchange ephemeral = .ok secret ∧ key.encryption = encryption ∧
        agreement.wrapUnder wrap secret [] key = .ok wrapped := by
  unfold EcdhEs.unwrapKey
  rw [bind_eq_ok_iff]
  exact exists_congr fun secret => and_congr_right fun _ => Agreement.unwrapUnder_eq_ok_iff

theorem Ecdh1Pu.unwrapKey_eq_ok_iff {agreement : Agreement} {wrap : KeyWrap}
    {encryption : ContentEncryption} {ephemeral sender recipient : Key} {wrapped tag : Bytes}
    {key : ContentKey} :
    Ecdh1Pu.unwrapKey agreement wrap encryption ephemeral sender recipient wrapped tag = .ok key ↔
      ∃ ephemeralSecret staticSecret, recipient.exchange ephemeral = .ok ephemeralSecret ∧
        recipient.exchange sender = .ok staticSecret ∧ key.encryption = encryption ∧
        agreement.wrapUnder wrap (ephemeralSecret ++ staticSecret) tag key = .ok wrapped := by
  unfold Ecdh1Pu.unwrapKey
  simp only [bind_eq_ok_iff, Agreement.unwrapUnder_eq_ok_iff, exists_and_left]

/-! ## Payloads -/

/-- The key belongs to the nonce and to the tag of a payload, and turns its ciphertext
into the message. -/
structure ContentKey.Opens (key : ContentKey) (payload : Payload) (aad message : Bytes) :
    Prop where
  nonce_length : payload.nonce.length = key.encryption.nonceSize
  tag_length : payload.tag.length = key.encryption.tagSize
  /-- The tag is the one that the key computes, and the message is what it deciphers. -/
  computed : ∃ cipher, key.cipher? payload.nonce = some cipher ∧
    cipher.tag aad payload.ciphertext = payload.tag ∧
    cipher.decipher? payload.ciphertext = some message

theorem ContentKey.length_nonce_of_cipher? {key : ContentKey} {nonce : Bytes} {cipher : Cipher}
    (h : key.cipher? nonce = some cipher) : nonce.length = key.encryption.nonceSize := by
  unfold ContentKey.cipher? at h
  split at h
  · next hlength => exact hlength
  · cases h

theorem ContentKey.decrypt_eq_ok_iff {key : ContentKey} {payload : Payload}
    {aad message : Bytes} :
    key.decrypt payload aad = .ok message ↔ key.Opens payload aad message := by
  have hopen : key.decrypt payload aad = .ok message ↔ key.open? payload aad = some message := by
    unfold ContentKey.decrypt
    cases key.open? payload aad with
    | none => exact ⟨nofun, nofun⟩
    | some opened => rw [Except.ok.injEq, Option.some.injEq]
  rw [hopen, ContentKey.open?]
  constructor
  · intro h
    split at h
    · next htag =>
      obtain ⟨cipher, hcipher, h⟩ := Option.bind_eq_some_iff.1 h
      unfold Cipher.openMessage? at h
      split at h
      · next heq => exact ⟨length_nonce_of_cipher? hcipher, htag, cipher, hcipher, heq, h⟩
      · cases h
    · cases h
  · rintro ⟨-, htag, cipher, hcipher, heq, hmessage⟩
    rw [if_pos htag, hcipher]
    show cipher.openMessage? aad payload.ciphertext payload.tag = _
    rw [Cipher.openMessage?, if_pos heq, hmessage]

end SealedEnvelope
