import SealedEnvelope.Proofs.Opening.Failures
import SealedEnvelope.Proofs.Reading.Jwk
import SealedEnvelope.Proofs.Reading.Rewriting

/-!
# Failures that tell nothing

Whoever makes an envelope can watch how a recipient fails to open it.  What can be
watched must not depend on keys, or on anything that was encrypted: it may depend on the
public headers alone.

`Indistinct` compares two results as an onlooker sees them.  A message and the failure of
a decryption count as one outcome, since which of the two it is comes from a cipher that
compares tags; every other failure counts as itself.  Two runs that agree on the headers
have indistinct results (`openings_indistinct`), whatever the keys, the wrapped keys, the
ciphertexts and the other recipients are.

## How the two runs are compared

Both runs go through the same steps.  Up to the point where a key is used the steps look
at headers only, so the two results of a step are equal, and `Indistinct.bind` goes on to
the next one.  From there on everything is done `opaquely`, and a result that was made
opaquely is always masked, on either side.

Two headers are the same whatever the order of their parameters is, and of the members inside of
an ephemeral key.  A step that looks at headers does not see that order either, if no name occurs
twice in an object.  That is so in all envelopes that were read (`Envelope.distinct_of_ofBytes`).
-/

namespace SealedEnvelope

/-! ## Results as an onlooker sees them -/

section Results

variable {α β : Type}

/-- A message, or the failure that all bad keys and ciphertexts share. -/
def Masked (result : Except Error α) : Prop :=
  (∃ a, result = .ok a) ∨ result = .error .decryptionFailed

/-- Both results are masked, or both are the same failure. -/
def Indistinct (x y : Except Error α) : Prop :=
  (Masked x ∧ Masked y) ∨ ∃ error, x = .error error ∧ y = .error error

theorem masked_opaquely (result : Except Error α) : Masked (opaquely result) := by
  cases result with
  | error error => exact .inr rfl
  | ok a => exact .inl ⟨a, rfl⟩

theorem Indistinct.error (error : Error) :
    Indistinct (.error error : Except Error α) (.error error) :=
  .inr ⟨error, rfl, rfl⟩

/-- A step with equal results hides what the steps behind it hide. -/
theorem Indistinct.bind {step : Except Error α} {f g : α → Except Error β}
    (h : ∀ a, Indistinct (f a) (g a)) : Indistinct (step >>= f) (step >>= g) := by
  cases step with
  | error error => exact .error error
  | ok a => exact h a

theorem Indistinct.opaquely (x y : Except Error α) :
    Indistinct (opaquely x) (opaquely y) :=
  .inl ⟨masked_opaquely x, masked_opaquely y⟩

end Results

/-! ## What is public -/

/-- No header names a parameter twice, and no object inside of one a member. -/
structure Envelope.Distinct (envelope : Envelope) : Prop where
  protectedHeader : envelope.protectedHeader.header.toJson.Distinct
  recipients : ∀ entry ∈ envelope.recipients, entry.header.toJson.Distinct

theorem Header.distinct_of_ofEncoded {text : String} {head : ProtectedHeader}
    (h : ProtectedHeader.ofEncoded text = .ok head) : head.header.toJson.Distinct := by
  unfold ProtectedHeader.ofEncoded at h
  split at h
  · cases h
  · split at h
    · cases h
    · next header hread =>
      cases h
      exact (Header.reader_sound (Json.Reader.whole_eq_ok_iff.1 hread).1).1

theorem Envelope.distinct_of_ofBytes {text : Bytes} {envelope : Envelope}
    (h : ofBytes text = .ok envelope) : envelope.Distinct where
  protectedHeader := Header.distinct_of_ofEncoded (readFrom_of_ofBytes h).ofEncoded_eq
  recipients entry hmem := ((readFrom_of_ofBytes h).recipients.sound entry hmem).1

theorem Envelope.Distinct.of_recipient? {envelope : Envelope} (h : envelope.Distinct) {kid : String}
    {entry : Recipient} (hentry : envelope.recipient? kid = some entry) :
    entry.header.toJson.Distinct :=
  h.recipients entry (List.mem_of_find?_eq_some hentry)

theorem requireSecret_congr {a b : Identity} (hkid : a.kid = b.kid)
    (hsecret : a.hasSecret = b.hasSecret) : requireSecret a = requireSecret b := by
  rw [requireSecret, requireSecret, hkid, hsecret]

/-! ## Two runs -/

section Runs

variable {a b : Envelope} {r s : Identity}

theorem Anoncrypt.indistinct (ha : a.Distinct) (hb : b.Distinct)
    (hheader : a.protectedHeader.header.same b.protectedHeader.header = true)
    (hkid : r.kid = s.kid) (hsecret : r.hasSecret = s.hasSecret)
    (hentry : Option.Rel (fun x y => x.header.same y.header = true) (a.recipient? r.kid)
      (b.recipient? s.kid)) :
    Indistinct (Anoncrypt.decryptEnvelope a r) (Anoncrypt.decryptEnvelope b s) := by
  have hshared := Header.alike_of_same ha.protectedHeader hheader
  have halg : a.protectedHeader.header.alg? = b.protectedHeader.header.alg? :=
    Header.text?_of_alike hshared _
  have henc : a.protectedHeader.header.enc? = b.protectedHeader.header.enc? :=
    Header.text?_of_alike hshared _
  unfold Anoncrypt.decryptEnvelope
  dsimp only
  rw [halg, henc]
  refine .bind fun alg => .bind fun wrap => ?_
  have hdistinct {x : Recipient} (hx : a.recipient? r.kid = some x) := ha.of_recipient? hx
  have hdistinct' {y : Recipient} (hy : b.recipient? s.kid = some y) := hb.of_recipient? hy
  generalize a.recipient? r.kid = x, b.recipient? s.kid = y at hentry hdistinct hdistinct' ⊢
  cases hentry with
  | none =>
    rw [hkid]
    exact .error _
  | some hsame =>
    rename_i x y
    have halike := Header.alike_of_same (hdistinct rfl) hsame
    have henc' : x.header.enc? = y.header.enc? := Header.text?_of_alike halike _
    have hepk := Header.requireEphemeralKey_of_alike (hdistinct rfl) (hdistinct' rfl) halike
    simp only [henc', requireSecret_congr hkid hsecret, hepk,
      Header.octetsFor_of_alike_of_alike hshared halike]
    exact .bind fun enc => .bind fun encryption => .bind fun _ => .bind fun ephemeral =>
      .bind fun partyU => .bind fun partyV => .opaquely _ _

theorem Authcrypt.indistinct {t u : Identity}
    (ha : a.protectedHeader.header.toJson.Distinct) (hb : b.protectedHeader.header.toJson.Distinct)
    (hheader : a.protectedHeader.header.same b.protectedHeader.header = true)
    (hkid : r.kid = s.kid) (hsecret : r.hasSecret = s.hasSecret)
    (hentry : (a.recipient? r.kid).isSome = (b.recipient? s.kid).isSome) :
    Indistinct (Authcrypt.decryptEnvelope a r t) (Authcrypt.decryptEnvelope b s u) := by
  have hshared := Header.alike_of_same ha hheader
  have halg : a.protectedHeader.header.alg? = b.protectedHeader.header.alg? :=
    Header.text?_of_alike hshared _
  have henc : a.protectedHeader.header.enc? = b.protectedHeader.header.enc? :=
    Header.text?_of_alike hshared _
  have hepk := Header.requireEphemeralKey_of_alike ha hb hshared
  unfold Authcrypt.decryptEnvelope
  dsimp only
  rw [halg, henc]
  refine .bind fun alg => .bind fun wrap => .bind fun enc => .bind fun encryption => ?_
  cases hx : a.recipient? r.kid with
  | none =>
    rw [hx] at hentry
    rw [Option.isSome_eq_false_iff.1 hentry.symm |> Option.isNone_iff_eq_none.1, hkid]
    exact .error _
  | some x =>
    rw [hx] at hentry
    obtain ⟨y, hy⟩ := Option.isSome_iff_exists.1 hentry.symm
    rw [hy]
    simp only [requireSecret_congr hkid hsecret, hepk, Header.octets_of_alike hshared]
    exact .bind fun _ => .bind fun ephemeral => .bind fun partyU => .bind fun partyV =>
      .opaquely _ _

end Runs

/-! ## Failures that are never seen -/

/-- The kinds of failure that come from inside: from ciphers and key material, from
putting an envelope together, and from texts that are no envelopes. -/
def Error.isInternal : Error → Bool
  | .cryptography | .invalidKeyMaterial _ | .algorithmMismatch _ _ | .encryptionFailed _
  | .configuration _ | .document _ => true
  | _ => false

theorem Error.isInternal_eq_false_of_isPublic {error : Error} (h : error.isPublic = true) :
    error.isInternal = false := by
  cases error <;> first | rfl | cases h

theorem OpeningFails.isInternal_eq_false {envelope : Envelope} {recipient : Identity}
    {error : Error} (h : OpeningFails envelope recipient error) : error.isInternal = false := by
  cases h with
  | ofPublic hpublic => exact Error.isInternal_eq_false_of_isPublic hpublic
  | absent | withoutSecret => rfl

/-- No failure from inside comes out. -/
theorem Anoncrypt.discreet (source : Source) (recipient : Identity) :
    FailsWith (·.isInternal = false) (Anoncrypt.decrypt source recipient) :=
  .bind ((FailsInPublic.envelope source).mono fun _ => Error.isInternal_eq_false_of_isPublic)
    fun _ => openingFails.mono fun _ => OpeningFails.isInternal_eq_false

/-- No failure from inside comes out. -/
theorem Authcrypt.discreet (source : Source) (recipient sender : Identity) :
    FailsWith (·.isInternal = false) (Authcrypt.decrypt source recipient sender) :=
  .bind ((FailsInPublic.envelope source).mono fun _ => Error.isInternal_eq_false_of_isPublic)
    fun _ => (openingFails sender).mono fun _ => OpeningFails.isInternal_eq_false

/-- **Nothing but the public headers selects how an opening fails.**  Two recipients of
one name, both with or both without a secret, see indistinct results on envelopes that have
the same protected header and, if the sender is not known, the same header in the
recipient's entry.  And no failure from inside is ever seen.  The headers must not name a
parameter twice, and no header does that was read. -/
theorem openings_indistinct :
    (∀ (a b : Envelope) (r s : Identity), a.Distinct → b.Distinct →
      a.protectedHeader.header.same b.protectedHeader.header = true → r.kid = s.kid →
      r.hasSecret = s.hasSecret →
      Option.Rel (fun x y => x.header.same y.header = true) (a.recipient? r.kid)
        (b.recipient? s.kid) →
      Indistinct (Anoncrypt.decryptEnvelope a r) (Anoncrypt.decryptEnvelope b s)) ∧
    (∀ (a b : Envelope) (r s t u : Identity),
      a.protectedHeader.header.toJson.Distinct → b.protectedHeader.header.toJson.Distinct →
      a.protectedHeader.header.same b.protectedHeader.header = true → r.kid = s.kid →
      r.hasSecret = s.hasSecret →
      (a.recipient? r.kid).isSome = (b.recipient? s.kid).isSome →
      Indistinct (Authcrypt.decryptEnvelope a r t) (Authcrypt.decryptEnvelope b s u)) ∧
    (∀ (source : Source) (recipient : Identity) (error : Error),
      Anoncrypt.decrypt source recipient = .error error → error.isInternal = false) ∧
    (∀ (source : Source) (recipient sender : Identity) (error : Error),
      Authcrypt.decrypt source recipient sender = .error error → error.isInternal = false) ∧
    ∀ (text : Bytes) (envelope : Envelope), Envelope.ofBytes text = .ok envelope →
      envelope.Distinct := by
  refine ⟨?_, ?_, Anoncrypt.discreet, Authcrypt.discreet, fun _ _ => Envelope.distinct_of_ofBytes⟩
  · intro a b r s ha hb hheader hkid hsecret hentry
    exact Anoncrypt.indistinct ha hb hheader hkid hsecret hentry
  · intro a b r s t u ha hb hheader hkid hsecret hentry
    exact Authcrypt.indistinct ha hb hheader hkid hsecret hentry

/-- Two envelopes that have nothing in common but headers, and these in another order down to
the ephemeral key.  They are opened by two keys on different curves, and the ephemeral key fits
one of them. -/
theorem openings_indistinct_on_two_curves :
    let x : Json := .string "CQAAAAAAAAAAAAAAAAAAAAAAAAAAAAAAAAAAAAAAAAA"
    let epk : Json := .object [("kty", .string "OKP"), ("crv", .string "X25519"), ("x", x)]
    let epk' : Json := .object [("x", x), ("kty", .string "OKP"), ("crv", .string "X25519")]
    let envelope (shared own : Header) (wrapped text : Bytes) : Envelope :=
      ⟨.ofHeader shared, none, [⟨own, wrapped⟩], none, ⟨text, [], []⟩, false⟩
    let own : Header := ⟨[("kid", .string "k"), ("epk", epk)]⟩
    let own' : Header := ⟨[("epk", epk'), ("kid", .string "k")]⟩
    let anonymous : Header := ⟨[("alg", .string "ECDH-ES+A256KW"), ("enc", .string "XC20P")]⟩
    let anonymous' : Header := ⟨[("enc", .string "XC20P"), ("alg", .string "ECDH-ES+A256KW")]⟩
    let known : Header :=
      ⟨[("alg", .string "ECDH-1PU+A256KW"), ("enc", .string "A256CBC-HS512"), ("epk", epk)]⟩
    let known' : Header :=
      ⟨[("epk", epk'), ("enc", .string "A256CBC-HS512"), ("alg", .string "ECDH-1PU+A256KW")]⟩
    let alice : Identity := ⟨.ofX25519Secret ⟨List.replicate 32 7, rfl⟩, "k"⟩
    let bob : Identity := ⟨.ofScalar ⟨7, by decide, by decide⟩, "k"⟩
    Indistinct (Anoncrypt.decryptEnvelope (envelope anonymous own [] [1]) alice)
        (Anoncrypt.decryptEnvelope (envelope anonymous' own' [2] []) bob) ∧
      Indistinct (Authcrypt.decryptEnvelope (envelope known own [] [1]) alice bob)
        (Authcrypt.decryptEnvelope (envelope known' ⟨[("kid", .string "k")]⟩ [2] []) bob
          alice) := by
  intro x epk epk' envelope own own' anonymous anonymous' known known' alice bob
  have hepk : epk.Distinct := ⟨(by decide : ["kty", "crv", "x"].Nodup), trivial, trivial, trivial,
    trivial⟩
  have hepk' : epk'.Distinct := ⟨(by decide : ["x", "kty", "crv"].Nodup), trivial, trivial, trivial,
    trivial⟩
  have hanonymous : (envelope anonymous own [] [1]).Distinct := by
    refine ⟨⟨(by decide : ["alg", "enc"].Nodup), trivial, trivial, trivial⟩, ?_⟩
    rintro entry (_ | ⟨_, ⟨⟩⟩)
    exact ⟨(by decide : ["kid", "epk"].Nodup), trivial, hepk, trivial⟩
  have hanonymous' : (envelope anonymous' own' [2] []).Distinct := by
    refine ⟨⟨(by decide : ["enc", "alg"].Nodup), trivial, trivial, trivial⟩, ?_⟩
    rintro entry (_ | ⟨_, ⟨⟩⟩)
    exact ⟨(by decide : ["epk", "kid"].Nodup), hepk', trivial, trivial⟩
  have hshared : anonymous.same anonymous' = true := by decide +kernel
  have hown : own.same own' = true := by decide +kernel
  have hknown : known.same known' = true := by decide +kernel
  exact ⟨openings_indistinct.1 _ _ _ _ hanonymous hanonymous' hshared rfl rfl (.some hown),
    openings_indistinct.2.1 _ _ _ _ _ _
      ⟨(by decide : ["alg", "enc", "epk"].Nodup), trivial, trivial, hepk, trivial⟩
      ⟨(by decide : ["epk", "enc", "alg"].Nodup), hepk', trivial, trivial, trivial⟩ hknown rfl rfl
      (rfl : true = true)⟩

end SealedEnvelope
