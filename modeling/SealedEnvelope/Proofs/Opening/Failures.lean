import SealedEnvelope.Authcrypt

/-!
# How opening an envelope fails

An opening goes through many steps, and there are few ways for it to fail.  Most of them are
decided by the headers and say so; whatever has to do with key material, ciphertexts or tags is
the failure of a decryption and nothing else.  Only two failures are about the recipient: it has no
entry in the envelope, or it came without its secret.

`Anoncrypt.openingFails` and `Authcrypt.openingFails` say this of whole openings.  They are put
together from one lemma for each step.
-/

namespace SealedEnvelope

/-- The kinds of failure that are decided by what an envelope says, and the failure of a
decryption. -/
def Error.isPublic : Error → Bool
  | .parse _ | .missingHeader _ | .unsupportedAlgorithm _ | .missingEphemeralKey
  | .decryptionFailed => true
  | _ => false

/-- Whatever a result fails with is of a kind. -/
def FailsWith {α : Type} (kind : Error → Prop) (result : Except Error α) : Prop :=
  ∀ error, result = .error error → kind error

/-- The failures of a result are public. -/
abbrev FailsInPublic {α : Type} (result : Except Error α) : Prop :=
  FailsWith (·.isPublic = true) result

namespace FailsWith

variable {α β : Type} {kind : Error → Prop}

theorem ok (a : α) : FailsWith kind (.ok a) := nofun

theorem error {error : Error} (h : kind error) :
    FailsWith kind (.error error : Except Error α) := by
  rintro _ ⟨⟩
  exact h

theorem mono {kind' : Error → Prop} {result : Except Error α} (h : FailsWith kind result)
    (hkind : ∀ error, kind error → kind' error) : FailsWith kind' result :=
  fun error herror => hkind error (h error herror)

theorem bind {step : Except Error α} {next : α → Except Error β} (hstep : FailsWith kind step)
    (hnext : ∀ a, FailsWith kind (next a)) : FailsWith kind (step >>= next) := by
  cases step with
  | error cause => exact .error (hstep cause rfl)
  | ok a => exact hnext a

theorem map {result : Except Error α} (h : FailsWith kind result) (f : α → β) :
    FailsWith kind (result.map f) := by
  cases result with
  | error cause => exact .error (h cause rfl)
  | ok a => exact .ok (f a)

end FailsWith

/-! ## Steps -/

namespace FailsInPublic

variable {α : Type}

theorem opaquely (result : Except Error α) : FailsInPublic (opaquely result) := by
  cases result with
  | error cause => exact .error rfl
  | ok a => exact .ok a

theorem requireHeader (value : Option String) (name : String) :
    FailsInPublic (requireHeader value name) := by
  cases value with
  | none => exact .error rfl
  | some text => exact .ok text

theorem keyWrapOf (family alg : String) : FailsInPublic (keyWrapOf family alg) := by
  unfold SealedEnvelope.keyWrapOf
  split
  · exact .ok _
  · exact .error rfl

theorem ofId (id : String) : FailsInPublic (ContentEncryption.ofId id) := by
  unfold ContentEncryption.ofId
  split
  · exact .ok _
  · exact .error rfl

theorem encryptionOf (alg enc : String) : FailsInPublic (Authcrypt.encryptionOf alg enc) := by
  refine .bind (ofId enc) fun encryption => ?_
  split
  · exact .ok _
  · exact .error rfl

theorem requireEphemeralKey (header : Header) : FailsInPublic header.requireEphemeralKey := by
  refine .bind (opaquely _) fun key => ?_
  cases key with
  | none => exact .error rfl
  | some jwk => exact opaquely _

theorem octets (header : Header) (name : String) : FailsInPublic (header.octets name) := by
  unfold Header.octets Key.decodeOctets
  split
  · next text _ =>
    cases Text.Base64Url.decode text with
    | error fault => exact .error rfl
    | ok bytes => exact .ok bytes
  · exact .ok []

theorem octetsFor (protectedHeader recipient : Header) (name : String) :
    FailsInPublic (protectedHeader.octetsFor recipient name) := by
  unfold Header.octetsFor
  split
  · exact octets _ _
  · exact octets _ _

theorem envelope (source : Source) : FailsInPublic source.envelope := by
  have hbytes : ∀ text, FailsInPublic (Envelope.ofBytes text) := by
    intro text
    unfold Envelope.ofBytes
    cases Envelope.reader.whole text with
    | error fault => exact .error rfl
    | ok envelope => exact .ok envelope
  cases source with
  | octets bytes => exact hbytes bytes
  | text characters => exact hbytes _
  | parsed envelope => exact .ok envelope

end FailsInPublic

/-! ## Openings -/

/-- How the opening of an envelope fails for a recipient. -/
inductive OpeningFails (envelope : Envelope) (recipient : Identity) : Error → Prop
  | ofPublic {error : Error} (hpublic : error.isPublic = true) :
      OpeningFails envelope recipient error
  | absent (habsent : envelope.recipient? recipient.kid = none) :
      OpeningFails envelope recipient (.recipientNotFound recipient.kid)
  | withoutSecret (hsecret : recipient.hasSecret = false) :
      OpeningFails envelope recipient (.missingSecret recipient.kid)

variable {envelope : Envelope} {recipient : Identity}

theorem FailsInPublic.openingFails {α : Type} {result : Except Error α} (h : FailsInPublic result) :
    FailsWith (OpeningFails envelope recipient) result :=
  h.mono fun _ => .ofPublic

theorem openingFails_requireSecret :
    FailsWith (OpeningFails envelope recipient) (requireSecret recipient) := by
  unfold requireSecret
  split
  · exact .ok ()
  · next hsecret => exact .error (.withoutSecret (by simpa using hsecret))

theorem Anoncrypt.openingFails :
    FailsWith (OpeningFails envelope recipient) (Anoncrypt.decryptEnvelope envelope recipient) := by
  refine .bind (FailsInPublic.requireHeader _ _).openingFails fun alg =>
    .bind (FailsInPublic.keyWrapOf _ _).openingFails fun wrap => ?_
  split
  · next habsent => exact .error (.absent habsent)
  · exact .bind (FailsInPublic.requireHeader _ _).openingFails fun enc =>
      .bind (FailsInPublic.ofId _).openingFails fun encryption =>
      .bind openingFails_requireSecret fun _ =>
      .bind (FailsInPublic.requireEphemeralKey _).openingFails fun ephemeral =>
      .bind (FailsInPublic.octetsFor _ _ _).openingFails fun partyU =>
      .bind (FailsInPublic.octetsFor _ _ _).openingFails fun partyV =>
      (FailsInPublic.opaquely _).openingFails

theorem Authcrypt.openingFails (sender : Identity) :
    FailsWith (OpeningFails envelope recipient)
      (Authcrypt.decryptEnvelope envelope recipient sender) := by
  refine .bind (FailsInPublic.requireHeader _ _).openingFails fun alg =>
    .bind (FailsInPublic.keyWrapOf _ _).openingFails fun wrap =>
    .bind (FailsInPublic.requireHeader _ _).openingFails fun enc =>
    .bind (FailsInPublic.encryptionOf _ _).openingFails fun encryption => ?_
  split
  · next habsent => exact .error (.absent habsent)
  · exact .bind openingFails_requireSecret fun _ =>
      .bind (FailsInPublic.requireEphemeralKey _).openingFails fun ephemeral =>
      .bind (FailsInPublic.octets _ _).openingFails fun partyU =>
      .bind (FailsInPublic.octets _ _).openingFails fun partyV =>
      (FailsInPublic.opaquely _).openingFails

/-- A recipient that has an entry and a secret sees public failures only. -/
theorem OpeningFails.isPublic {error : Error} (h : OpeningFails envelope recipient error)
    (hentry : (envelope.recipient? recipient.kid).isSome = true)
    (hsecret : recipient.hasSecret = true) : error.isPublic = true := by
  cases h with
  | ofPublic hpublic => exact hpublic
  | absent habsent =>
    rw [habsent] at hentry
    cases hentry
  | withoutSecret hnone =>
    rw [hsecret] at hnone
    cases hnone

end SealedEnvelope
