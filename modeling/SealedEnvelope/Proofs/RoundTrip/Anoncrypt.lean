import SealedEnvelope.Proofs.Drawing
import SealedEnvelope.Proofs.Opening.Acceptance
import SealedEnvelope.Proofs.RoundTrip.Content
import SealedEnvelope.Proofs.RoundTrip.Sent
import SealedEnvelope.Proofs.Sending.Anoncrypt

/-!
# Anonymous encryption, there and back

Every recipient of an envelope reads the message that was encrypted, and nobody else is
taken for a recipient (`Anoncrypt.decrypt_encryptInto`), whatever the builder was used for
before, whatever keys and names the recipients have and whatever was drawn.

The proof goes through what a recipient accepts (`Anoncrypt.Accepts`).  Encryption is taken
apart into the entries that were made and the payload that was sealed
(`Anoncrypt.sent_of_gives`); of an entry only its header and the wrapped key count.
-/

namespace SealedEnvelope.Anoncrypt

variable {builder extended : Builder} {recipients : List Identity} {message : Bytes}
  {contentKey : ContentKey} {envelope : Envelope}

/-- An entry that encryption makes for a recipient, with one ephemeral key or another. -/
def Makes (contentKey : ContentKey) (recipient : Identity) (made : Recipient) : Prop :=
  ∃ ephemeral, entry contentKey recipient ephemeral = .ok made

/-- What an entry is made of. -/
theorem Makes.exists_ephemeral {recipient : Identity} {made : Recipient}
    (h : Makes contentKey recipient made) :
    ∃ ephemeral, made.header =
        ⟨[("kid", .string recipient.kid), ("epk", ephemeral.toJwk.toJson)]⟩ ∧
      EcdhEs.wrapKey ⟨alg, [], []⟩ keyWrap ephemeral recipient.key contentKey =
        .ok made.encryptedKey := by
  obtain ⟨ephemeral, h⟩ := h
  refine ⟨ephemeral, ?_⟩
  unfold entry at h
  split at h
  · cases h
  · next wrapped hwrapped =>
    cases h
    exact ⟨rfl, hwrapped⟩

theorem Makes.kid?_eq {recipient : Identity} {made : Recipient}
    (h : Makes contentKey recipient made) : made.kid? = some recipient.kid := by
  obtain ⟨ephemeral, hheader, -⟩ := h.exists_ephemeral
  rw [Recipient.kid?, hheader]
  rfl

theorem Makes.portable {recipient : Identity} {made : Recipient}
    (h : Makes contentKey recipient made) : made.header.Portable := by
  obtain ⟨ephemeral, hheader, -⟩ := h.exists_ephemeral
  rw [hheader]
  exact
    { integral := ⟨trivial, ephemeral.integral_toJwk, trivial⟩
      distinct := ⟨(by decide : ["kid", "epk"].Nodup), trivial, ephemeral.distinct_toJwk, trivial⟩
      depth_le := by
        show max 0 (max ephemeral.toJwk.toJson.depth 0) + 1 ≤ 124
        rw [ephemeral.depth_toJwk]
        decide }

theorem portable_protectedHeader : protectedHeader.Portable where
  integral := ⟨trivial, trivial, trivial⟩
  distinct := ⟨(by decide : ["alg", "enc"].Nodup), trivial, trivial, trivial⟩
  depth_le := by decide

/-! ## Encrypting -/

/-- Encryption adds an entry for each recipient. -/
theorem adds_of_gives (h : (addEntries contentKey builder recipients).Gives extended) :
    Builder.Adds (Makes contentKey) recipients builder extended := by
  induction recipients generalizing builder with
  | nil =>
    have hsame : (.ok builder : Except Error Builder) = .ok extended :=
      Drawing.gives_liftM_iff.1 h
    obtain rfl := Except.ok.inj hsame
    exact .nil builder
  | cons recipient recipients ih =>
    unfold addEntries at h
    obtain ⟨ephemeral, -, h⟩ := h.of_bind
    obtain ⟨made, hmade, h⟩ := h.of_bind
    obtain ⟨next, hadd, h⟩ := h.of_bind
    exact .cons ⟨ephemeral, Drawing.gives_liftM_iff.1 hmade⟩ (Drawing.gives_liftM_iff.1 hadd) (ih h)

/-- Encryption seals the message and makes an entry for each recipient. -/
theorem sent_of_gives (h : (encryptInto builder recipients message).Gives envelope) :
    ∃ contentKey, contentKey.encryption = encryption ∧
      envelope.Sent builder recipients protectedHeader (Makes contentKey) contentKey message := by
  unfold encryptInto at h
  dsimp only at h
  split at h
  · obtain ⟨_, hthrow, -⟩ := h.of_bind
    exact absurd hthrow Drawing.not_gives_throw
  · obtain ⟨-, -, h⟩ := h.of_bind
    obtain ⟨contentKey, hkey, h⟩ := h.of_bind
    obtain ⟨extended, hextended, h⟩ := h.of_bind
    obtain ⟨bound, hbound, h⟩ := h.of_bind
    obtain ⟨aad, haad, h⟩ := h.of_bind
    obtain ⟨payload, hpayload, h⟩ := h.of_bind
    obtain ⟨filled, hfilled, hbuild⟩ := h.of_bind
    have hadds := adds_of_gives hextended
    obtain ⟨-, rfl⟩ := Builder.setProtected_eq_ok_iff.1 (Drawing.gives_liftM_iff.1 hbound)
    obtain rfl := Builder.associatedData_eq_ok rfl (Drawing.gives_liftM_iff.1 haad)
    obtain rfl := Builder.build_eq_ok rfl (Drawing.gives_liftM_iff.1 hfilled)
      (Drawing.gives_liftM_iff.1 hbuild)
    exact ⟨contentKey, ContentKey.encryption_of_gives hkey,
      { protectedHeader := rfl
        unprotected := by rw [hadds.eq_with]
        kids_nodup := hadds.kids_nodup
        exists_entry := hadds.exists_entry
        entry_cases := hadds.entry_cases
        opens := ContentKey.decrypt_of_gives hpayload.of_failingWith }⟩

/-! ## Decrypting -/

/-- A recipient reads the message. -/
theorem decryptEnvelope_of_sent
    (h : envelope.Sent builder recipients protectedHeader (Makes contentKey) contentKey message)
    (hkey : contentKey.encryption = encryption) (hkids : builder.kids.Nodup)
    {recipient identity : Identity} (hmem : recipient ∈ recipients)
    (hsecret : identity.hasSecret = true) (hkid : identity.kid = recipient.kid)
    (hpublic : identity.key.toPublic = recipient.key.toPublic) :
    decryptEnvelope envelope identity = .ok message := by
  obtain ⟨made, hentry, hmade⟩ := h.exists_recipient? hkids hmem fun _ => Makes.kid?_eq
  obtain ⟨ephemeral, hheader, hwrap⟩ := hmade.exists_ephemeral
  obtain ⟨secret, hexchange, hwrapped⟩ := bind_eq_ok_iff.1 hwrap
  have hagree := Key.exchange_comm hexchange hsecret hpublic (Key.toPublic_toPublic ephemeral)
  have hepk : made.header.requireEphemeralKey = .ok ephemeral.toPublic :=
    Header.requireEphemeralKey_eq_ok (by rw [hheader]; rfl)
  have hshared := h.header_eq
  rw [← hkid] at hentry
  refine decryptEnvelope_eq_ok_iff.2 ?_
  exact .intro (by rw [hshared]; rfl) hentry (by rw [hshared, hkey]; rfl) hsecret hepk
    (by rw [hshared, hheader]; rfl) (by rw [hshared, hheader]; rfl) hagree
    (ContentKey.recovers_iff.2 ⟨hwrapped, h.opens⟩)

/-- Who has no entry is told so. -/
theorem decryptEnvelope_of_absent
    (h : envelope.Sent builder recipients protectedHeader (Makes contentKey) contentKey message)
    {identity : Identity}
    (habsent : ∀ entry ∈ envelope.recipients, entry.kid? ≠ some identity.kid) :
    decryptEnvelope envelope identity = .error (.recipientNotFound identity.kid) := by
  unfold decryptEnvelope
  dsimp only
  rw [h.header_eq, Envelope.recipient?_eq_none habsent]
  rfl

/-- **Every recipient reads the message, and nobody else is taken for one.**  The envelope
may have been begun by any history of its builder, and may arrive as it is or as its text. -/
theorem decrypt_encryptInto {steps : List Builder.Step} {random rest : Entropy} {source : Source}
    (hencrypt : (encryptInto (.run .empty steps) recipients message).run.run random =
      some (.ok envelope, rest))
    (hsource : envelope.Reaches (.run .empty steps) source) :
    (∀ recipient ∈ recipients, ∀ identity : Identity, identity.hasSecret = true →
      identity.kid = recipient.kid → identity.algorithm = recipient.algorithm →
      identity.key.publicBytes = recipient.key.publicBytes →
      decrypt source identity = .ok message) ∧
    ∀ identity : Identity, (∀ entry ∈ envelope.recipients, entry.kid? ≠ some identity.kid) →
      decrypt source identity = .error (.recipientNotFound identity.kid) := by
  obtain ⟨contentKey, hkey, hsent⟩ := sent_of_gives ⟨random, rest, hencrypt⟩
  have hkids := Builder.kids_nodup_run steps
  have hsame : ∀ identity, decrypt source identity = decryptEnvelope envelope identity := by
    intro identity
    exact hsent.bind_envelope hkids portable_protectedHeader (fun _ _ => Makes.portable) hsource rfl
  constructor
  · intro recipient hmem identity hsecret hkid halgorithm hbytes
    rw [hsame]
    exact decryptEnvelope_of_sent hsent hkey hkids hmem hsecret hkid
      (Key.toPublic_eq halgorithm hbytes)
  · intro identity habsent
    rw [hsame]
    exact decryptEnvelope_of_absent hsent habsent

/-- A message for two recipients, one on each curve, in an envelope that was begun with
additional data, an unprotected header and an entry of its own. -/
theorem decrypt_encryptInto_two_curves :
    let alice : Identity := ⟨.ofX25519Secret ⟨List.replicate 32 7, rfl⟩, "alice"⟩
    let bob : Identity := ⟨.ofScalar ⟨7, by decide, by decide⟩, "bob"⟩
    let dave : Identity := ⟨alice.key, "dave"⟩
    let random : Entropy := .repeating 1 0
    let steps : List Builder.Step :=
      [.aad [1], .unprotected ⟨[("note", .bool true)]⟩,
        .recipient ⟨⟨[("kid", .string "carol")]⟩, [1]⟩, .flatten true]
    ∃ envelope rest, (encryptInto (.run .empty steps) [alice.toPublic, bob.toPublic]
        [1, 2, 3]).run.run random = some (.ok envelope, rest) ∧
      decrypt (.parsed envelope) alice = .ok [1, 2, 3] ∧
      decrypt (.text envelope.render) bob = .ok [1, 2, 3] ∧
      decrypt (.octets (Bytes.ofText envelope.render)) dave =
        .error (.recipientNotFound "dave") := by
  intro alice bob dave random steps
  obtain ⟨one, hone⟩ : ∃ one, one = Key.ofX25519Secret ⟨List.replicate 32 1, rfl⟩ := ⟨_, rfl⟩
  obtain ⟨two, htwo⟩ := Key.exists_generate_ones bob.toPublic.algorithm 64
  have hdrawn : drawn [alice.toPublic, bob.toPublic] (random.skip encryption.keySize) =
      [(alice.toPublic, one), (bob.toPublic, two)] := by
    have hgenerate : (Key.generate alice.toPublic.algorithm).run (.repeating 1 32) =
        some (one, .repeating 1 64) := by
      rw [hone]
      rfl
    exact (drawn_cons_of_some hgenerate).trans (congrArg _ (drawn_cons_of_some htwo))
  have hwraps : ∀ pair ∈ [(alice.toPublic, one), (bob.toPublic, two)], Wraps pair := by
    rintro pair (_ | ⟨_, _ | ⟨_, ⟨⟩⟩⟩)
    · have hshared : ¬∀ octet ∈ (X25519.exchange ⟨List.replicate 32 1, rfl⟩
          (X25519.publicKey ⟨List.replicate 32 7, rfl⟩)).val, octet = 0 := by
        decide +kernel
      rw [hone]
      exact hshared
    · exact Key.not_vanishes_of_algorithm_ne nofun
  have hfeasible : Feasible (.run .empty steps) [alice.toPublic, bob.toPublic] random :=
    { recipients_ne_nil := nofun
      algorithm_ne := by
        rintro recipient (_ | ⟨_, _ | ⟨_, ⟨⟩⟩⟩) <;> exact nofun
      addable := by
        rw [hdrawn]
        refine ⟨hwraps, (by decide : ["alice", "bob"].Nodup), ?_⟩
        rintro pair (_ | ⟨_, _ | ⟨_, ⟨⟩⟩⟩)
        · exact (by decide : "alice" ∉ ["carol"])
        · exact (by decide : "bob" ∉ ["carol"])
      allDrawn := allDrawn_ones _ _
      protectedHeader_eq := rfl }
  obtain ⟨envelope, rest, hrun⟩ : ∃ envelope rest, (encryptInto (.run .empty steps)
      [alice.toPublic, bob.toPublic] [1, 2, 3]).run.run random = some (.ok envelope, rest) := by
    obtain ⟨payload, rest, hrun⟩ := hfeasible.exists_run_encryptInto rfl [1, 2, 3]
    exact ⟨_, rest, hrun⟩
  have hportable : (Builder.run .empty steps).Portable := by
    refine ⟨?_, ?_⟩
    · rintro _ ⟨⟩
      exact ⟨⟨trivial, trivial⟩, ⟨by decide, trivial, trivial⟩, by decide⟩
    · rintro _ (_ | ⟨_, ⟨⟩⟩)
      exact ⟨⟨trivial, trivial⟩, ⟨by decide, trivial, trivial⟩, by decide⟩
  have habsent : ∀ entry ∈ envelope.recipients, entry.kid? ≠ some "dave" := by
    refine Envelope.kid?_ne_of_not_mem_kids ?_
    rw [kids_of_encryptInto hrun rfl]
    exact (by decide : "dave" ∉ ["carol"] ++ ["alice", "bob"])
  exact ⟨envelope, rest, hrun,
    (decrypt_encryptInto hrun .parsed).1 alice.toPublic List.mem_cons_self alice rfl rfl rfl
      alice.key.publicBytes_toPublic.symm,
    (decrypt_encryptInto hrun (.text hportable)).1 bob.toPublic
      (List.mem_cons_of_mem _ List.mem_cons_self) bob rfl rfl rfl
      bob.key.publicBytes_toPublic.symm,
    (decrypt_encryptInto hrun (.octets hportable)).2 dave habsent⟩

end SealedEnvelope.Anoncrypt
