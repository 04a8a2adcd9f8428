import SealedEnvelope.Proofs.Sending.Sealing

/-!
# When a content key is wrapped

Whether a content key is wrapped for a recipient depends on two things only.

* `Key.Vanishes`: the secret that two X25519 keys would share is zero.  For keys of one kind that
  can agree on secrets nothing else fails (`Key.exists_exchange_iff`).
* `Agreement.Fits`: the lengths of the names that go into the wrapping key fit four octets
  (`Agreement.fits_of_wrapUnder`).
-/

namespace SealedEnvelope

theorem Algorithm.supportsAgreement_iff {algorithm : Algorithm} :
    algorithm.supportsAgreement = true ↔ algorithm ≠ .ed25519 := by
  cases algorithm <;> decide

theorem X25519.agree?_eq_none_iff {secret peer : Octets 32} :
    agree? secret peer = none ↔ ∀ octet ∈ (exchange secret peer).val, octet = 0 := by
  unfold agree?
  dsimp only
  split
  · next hzero => simpa using hzero
  · next hzero => simpa using hzero

namespace Key

variable {own peer : Key}

/-- The keys are X25519 keys, and what they would share is zero. -/
def Vanishes : (own peer : Key) → Prop
  | .x25519 _ (some secret), .x25519 coordinate _ =>
    ∀ octet ∈ (X25519.exchange secret.val coordinate).val, octet = 0
  | _, _ => False

/-- Keys of one kind agree on a secret unless it vanishes. -/
theorem exists_exchange_iff (hsecret : own.hasSecret = true)
    (halgorithm : own.algorithm = peer.algorithm)
    (hsupports : peer.algorithm.supportsAgreement = true) :
    (∃ shared, own.exchange peer = .ok shared) ↔ ¬own.Vanishes peer := by
  cases own with
  | ed25519 point secret =>
    rw [← halgorithm] at hsupports
    cases hsupports
  | x25519 coordinate secret =>
    obtain ⟨secret, rfl⟩ := Option.isSome_iff_exists.1 hsecret
    cases peer with
    | x25519 coordinate' secret' =>
      simp only [exchange, Vanishes, agreed_eq_ok_iff, ← X25519.agree?_eq_none_iff,
        Option.ne_none_iff_exists', ← ne_eq]
    | ed25519 | secp256k1 => cases halgorithm
  | secp256k1 point secret =>
    obtain ⟨secret, rfl⟩ := Option.isSome_iff_exists.1 hsecret
    cases peer with
    | secp256k1 point' secret' => exact ⟨fun _ => id, fun _ => ⟨_, rfl⟩⟩
    | ed25519 | x25519 => cases halgorithm

/-- Only X25519 keys share a secret that vanishes. -/
theorem not_vanishes_of_algorithm_ne (h : peer.algorithm ≠ .x25519) : ¬own.Vanishes peer := by
  intro hvanishes
  unfold Vanishes at hvanishes
  split at hvanishes
  · exact h rfl
  · exact hvanishes

end Key

namespace Agreement

variable {agreement : Agreement} {wrap : KeyWrap} {secret tag : Bytes} {key : ContentKey}

theorem length_lt_of_counted? {part counted : Bytes}
    (h : Derivation.counted? part = some counted) : part.length < 0x100000000 := by
  unfold Derivation.counted? at h
  split at h
  · next hlength => exact hlength
  · cases h

/-- What a wrapping key is derived from fits. -/
theorem fits_of_wrapUnder {wrapped : Bytes}
    (h : agreement.wrapUnder wrap secret tag key = .ok wrapped) : agreement.Fits := by
  obtain ⟨wrapping, hwrapping, -⟩ := wrapUnder_eq_ok_iff.1 h
  have hderived := wrappingKey_eq_ok_iff.1 hwrapping
  unfold Derivation.key? at hderived
  split at hderived
  · obtain ⟨input, hinput, -⟩ := Option.map_eq_some_iff.1 hderived
    obtain ⟨_, halgorithm, hinput⟩ := Option.bind_eq_some_iff.1 hinput
    obtain ⟨_, hpartyU, hinput⟩ := Option.bind_eq_some_iff.1 hinput
    obtain ⟨_, hpartyV, -⟩ := Option.bind_eq_some_iff.1 hinput
    exact ⟨length_lt_of_counted? halgorithm, length_lt_of_counted? hpartyU,
      length_lt_of_counted? hpartyV⟩
  · cases hderived

end Agreement

variable {agreement : Agreement} {wrap : KeyWrap} {ephemeral sender recipient : Key} {tag : Bytes}
  {key : ContentKey}

/-- **A content key is wrapped exactly for keys that agree on a secret**, if the names fit. -/
theorem EcdhEs.exists_wrapKey_iff (hfits : agreement.Fits) :
    (∃ wrapped, EcdhEs.wrapKey agreement wrap ephemeral recipient key = .ok wrapped) ↔
      ∃ shared, ephemeral.exchange recipient = .ok shared := by
  constructor
  · rintro ⟨wrapped, h⟩
    obtain ⟨shared, hshared, -⟩ := bind_eq_ok_iff.1 h
    exact ⟨shared, hshared⟩
  · rintro ⟨shared, hshared⟩
    exact exists_wrapKey hfits hshared wrap key

/-- **A content key is wrapped exactly if the names fit and both agreements give a secret.** -/
theorem Ecdh1Pu.exists_wrapKey_iff (htag : tag.length < 0x100000000) :
    (∃ wrapped, Ecdh1Pu.wrapKey agreement wrap ephemeral sender recipient key tag =
        .ok wrapped) ↔
      agreement.Fits ∧ (∃ shared, ephemeral.exchange recipient = .ok shared) ∧
        ∃ shared, sender.exchange recipient = .ok shared := by
  constructor
  · rintro ⟨wrapped, h⟩
    obtain ⟨ephemeralSecret, hephemeral, h⟩ := bind_eq_ok_iff.1 h
    obtain ⟨staticSecret, hstatic, h⟩ := bind_eq_ok_iff.1 h
    exact ⟨Agreement.fits_of_wrapUnder h, ⟨ephemeralSecret, hephemeral⟩, ⟨staticSecret, hstatic⟩⟩
  · rintro ⟨hfits, ⟨ephemeralSecret, hephemeral⟩, ⟨staticSecret, hstatic⟩⟩
    exact exists_wrapKey hfits htag hephemeral hstatic wrap key

end SealedEnvelope
