import SealedEnvelope.Authcrypt
import SealedEnvelope.Proofs.Drawing
import SealedEnvelope.Proofs.Opening.Acceptance
import SealedEnvelope.Proofs.RoundTrip.Content
import SealedEnvelope.Proofs.RoundTrip.Sent
import SealedEnvelope.Proofs.Sending.Authcrypt

/-!
# Sender authenticated encryption, there and back

Every recipient of an envelope who knows the sender reads the message that was encrypted,
and nobody else is taken for a recipient (`Authcrypt.decrypt_encryptInto_from`).

The two sides come by what they have in common on different ways.  The sender joins the
sorted names of the recipients and takes the tag from the payload that it has just sealed; a
recipient decodes the names from the protected header and takes the tag from the envelope.
So the proof keeps both as they are in the envelope: in `Makes`, which says what an entry is
made of, the tag is that of the envelope's payload.
-/

namespace SealedEnvelope.Authcrypt

variable {builder extended : Builder} {recipients : List Identity} {sender : Identity}
  {message tag : Bytes} {agreement : Agreement} {ephemeral : Key} {contentKey : ContentKey}
  {envelope : Envelope}

/-- An entry that encryption makes for a recipient. -/
def Makes (agreement : Agreement) (sender : Identity) (ephemeral : Key) (contentKey : ContentKey)
    (tag : Bytes) (recipient : Identity) (made : Recipient) : Prop :=
  entry agreement sender ephemeral contentKey tag recipient = .ok made

/-- What an entry is made of. -/
theorem Makes.header_eq {recipient : Identity} {made : Recipient}
    (h : Makes agreement sender ephemeral contentKey tag recipient made) :
    made.header = ⟨[("kid", .string recipient.kid)]⟩ ∧
      Ecdh1Pu.wrapKey agreement keyWrap ephemeral sender.key recipient.key contentKey tag =
        .ok made.encryptedKey := by
  unfold Makes entry at h
  split at h
  · cases h
  · next wrapped hwrapped =>
    cases h
    exact ⟨rfl, hwrapped⟩

theorem Makes.kid?_eq {recipient : Identity} {made : Recipient}
    (h : Makes agreement sender ephemeral contentKey tag recipient made) :
    made.kid? = some recipient.kid := by
  rw [Recipient.kid?, h.header_eq.1]
  rfl

theorem Makes.portable {recipient : Identity} {made : Recipient}
    (h : Makes agreement sender ephemeral contentKey tag recipient made) :
    made.header.Portable := by
  rw [h.header_eq.1]
  exact
    { integral := ⟨trivial, trivial⟩
      distinct := ⟨(by decide : ["kid"].Nodup), trivial, trivial⟩
      depth_le := (by decide : 1 ≤ 124) }

theorem portable_protectedHeader (sender : Identity) (agreement : Agreement) (ephemeral : Key) :
    (protectedHeader sender agreement ephemeral).Portable where
  integral := ⟨trivial, trivial, trivial, trivial, ephemeral.integral_toJwk, trivial, trivial⟩
  distinct := ⟨(by decide : ["alg", "enc", "apu", "apv", "epk", "skid"].Nodup), trivial, trivial,
    trivial, trivial, ephemeral.distinct_toJwk, trivial, trivial⟩
  depth_le := by
    show max 0 (max 0 (max 0 (max 0 (max ephemeral.toJwk.toJson.depth (max 0 0))))) + 1 ≤ 124
    rw [ephemeral.depth_toJwk]
    decide

/-! ## Encrypting -/

/-- Encryption adds an entry for each recipient. -/
theorem adds_of_eq_ok {made : Identity → Except Error Recipient}
    (h : addEntries made builder recipients = .ok extended) :
    Builder.Adds (fun recipient entry => made recipient = .ok entry) recipients builder
      extended := by
  induction recipients generalizing builder with
  | nil =>
    obtain rfl := Except.ok.inj h
    exact .nil builder
  | cons recipient recipients ih =>
    obtain ⟨entry, hentry, h⟩ := bind_eq_ok_iff.1 h
    obtain ⟨next, hadd, h⟩ := bind_eq_ok_iff.1 h
    exact .cons hentry hadd (ih h)

/-- Encryption seals the message and makes an entry for each recipient. -/
theorem sent_of_gives (h : (encryptInto builder recipients sender message).Gives envelope) :
    ∃ ephemeral contentKey, contentKey.encryption = encryption ∧
      envelope.Sent builder recipients
        (protectedHeader sender (parties sender recipients) ephemeral)
        (Makes (parties sender recipients) sender ephemeral contentKey envelope.payload.tag)
        contentKey message := by
  unfold encryptInto at h
  dsimp only at h
  split at h
  · obtain ⟨_, hthrow, -⟩ := h.of_bind
    exact absurd hthrow Drawing.not_gives_throw
  · obtain ⟨-, -, h⟩ := h.of_bind
    obtain ⟨-, -, h⟩ := h.of_bind
    obtain ⟨-, -, h⟩ := h.of_bind
    obtain ⟨ephemeral, -, h⟩ := h.of_bind
    obtain ⟨bound, hbound, h⟩ := h.of_bind
    obtain ⟨contentKey, hkey, h⟩ := h.of_bind
    obtain ⟨aad, haad, h⟩ := h.of_bind
    obtain ⟨payload, hpayload, h⟩ := h.of_bind
    obtain ⟨extended, hextended, h⟩ := h.of_bind
    obtain ⟨filled, hfilled, hbuild⟩ := h.of_bind
    obtain ⟨-, rfl⟩ := Builder.setProtected_eq_ok_iff.1 (Drawing.gives_liftM_iff.1 hbound)
    obtain rfl := Builder.associatedData_eq_ok rfl (Drawing.gives_liftM_iff.1 haad)
    have hadds := adds_of_eq_ok (Drawing.gives_liftM_iff.1 hextended)
    have hwith := hadds.eq_with
    obtain rfl := Builder.build_eq_ok (by rw [hwith]) (Drawing.gives_liftM_iff.1 hfilled)
      (Drawing.gives_liftM_iff.1 hbuild)
    refine ⟨ephemeral, contentKey, ContentKey.encryption_of_gives hkey,
      { protectedHeader := rfl
        unprotected := by rw [hwith]
        kids_nodup := hadds.kids_nodup
        exists_entry := hadds.exists_entry
        entry_cases := hadds.entry_cases
        opens := ?_ }⟩
    have hopens := ContentKey.decrypt_of_gives hpayload.of_failingWith
    rw [hwith]
    exact hopens

/-! ## Decrypting -/

/-- A recipient who knows the sender reads the message. -/
theorem decryptEnvelope_of_sent
    (h : envelope.Sent builder recipients (protectedHeader sender agreement ephemeral)
      (Makes agreement sender ephemeral contentKey envelope.payload.tag) contentKey message)
    (halg : agreement.algorithm = alg) (hkey : contentKey.encryption = encryption)
    (hkids : builder.kids.Nodup) {recipient identity known : Identity}
    (hmem : recipient ∈ recipients) (hsecret : identity.hasSecret = true)
    (hkid : identity.kid = recipient.kid)
    (hpublic : identity.key.toPublic = recipient.key.toPublic)
    (hknown : known.key.toPublic = sender.key.toPublic) :
    decryptEnvelope envelope identity known = .ok message := by
  obtain ⟨algorithm, partyU, partyV⟩ := agreement
  obtain rfl : algorithm = alg := halg
  obtain ⟨made, hentry, hmade⟩ := h.exists_recipient? hkids hmem fun _ => Makes.kid?_eq
  obtain ⟨-, hwrap⟩ := hmade.header_eq
  obtain ⟨ephemeralSecret, hexchange, hwrap⟩ := bind_eq_ok_iff.1 hwrap
  obtain ⟨staticSecret, hexchange', hwrapped⟩ := bind_eq_ok_iff.1 hwrap
  have hagree := Key.exchange_comm hexchange hsecret hpublic (Key.toPublic_toPublic ephemeral)
  have hagree' := Key.exchange_comm hexchange' hsecret hpublic hknown
  have hshared := h.header_eq
  have hepk : envelope.protectedHeader.header.requireEphemeralKey = .ok ephemeral.toPublic :=
    Header.requireEphemeralKey_eq_ok (by rw [hshared]; rfl)
  have hapu : envelope.protectedHeader.header.octets "apu" = .ok partyU := by
    rw [hshared]
    exact Key.decodeOctets_encode partyU
  have hapv : envelope.protectedHeader.header.octets "apv" = .ok partyV := by
    rw [hshared]
    exact Key.decodeOctets_encode partyV
  rw [← hkid] at hentry
  refine decryptEnvelope_eq_ok_iff.2 ?_
  exact .intro (by rw [hshared]; rfl) (by rw [hshared, hkey]; rfl) (.inr hkey) hentry hsecret hepk
    hapu hapv hagree hagree' (ContentKey.recovers_iff.2 ⟨hwrapped, h.opens⟩)

/-- Who has no entry is told so. -/
theorem decryptEnvelope_of_absent {made : Identity → Recipient → Prop}
    (h : envelope.Sent builder recipients (protectedHeader sender agreement ephemeral) made
      contentKey message)
    (halg : agreement.algorithm = alg) {identity known : Identity}
    (habsent : ∀ entry ∈ envelope.recipients, entry.kid? ≠ some identity.kid) :
    decryptEnvelope envelope identity known = .error (.recipientNotFound identity.kid) := by
  obtain ⟨algorithm, partyU, partyV⟩ := agreement
  obtain rfl : algorithm = alg := halg
  unfold decryptEnvelope
  dsimp only
  rw [h.header_eq, Envelope.recipient?_eq_none habsent]
  rfl

/-- **Every recipient who knows the sender reads the message, and nobody else is taken for a
recipient.**  The envelope may have been begun by any history of its builder, and may arrive
as it is or as its text. -/
theorem decrypt_encryptInto_from {steps : List Builder.Step} {random rest : Entropy}
    {source : Source}
    (hencrypt : (encryptInto (.run .empty steps) recipients sender message).run.run random =
      some (.ok envelope, rest))
    (hsource : envelope.Reaches (.run .empty steps) source) :
    (∀ recipient ∈ recipients, ∀ identity known : Identity, identity.hasSecret = true →
      identity.kid = recipient.kid → identity.algorithm = recipient.algorithm →
      identity.key.publicBytes = recipient.key.publicBytes →
      known.algorithm = sender.algorithm → known.key.publicBytes = sender.key.publicBytes →
      decrypt source identity known = .ok message) ∧
    ∀ identity known : Identity,
      (∀ entry ∈ envelope.recipients, entry.kid? ≠ some identity.kid) →
      decrypt source identity known = .error (.recipientNotFound identity.kid) := by
  obtain ⟨ephemeral, contentKey, hkey, hsent⟩ := sent_of_gives ⟨random, rest, hencrypt⟩
  have hkids := Builder.kids_nodup_run steps
  have hsame : ∀ identity known,
      decrypt source identity known = decryptEnvelope envelope identity known := by
    intro identity known
    exact hsent.bind_envelope hkids (portable_protectedHeader _ _ _) (fun _ _ => Makes.portable)
      hsource rfl
  constructor
  · intro recipient hmem identity known hsecret hkid halgorithm hbytes halgorithm' hbytes'
    rw [hsame]
    exact decryptEnvelope_of_sent hsent rfl hkey hkids hmem hsecret hkid
      (Key.toPublic_eq halgorithm hbytes) (Key.toPublic_eq halgorithm' hbytes')
  · intro identity known habsent
    rw [hsame]
    exact decryptEnvelope_of_absent hsent rfl habsent

/-- A message for two recipients, who know the sender's public key under another name. -/
theorem decrypt_encryptInto_from_sender_by_other_name :
    let alice : Identity := ⟨.ofScalar ⟨3, by decide, by decide⟩, "alice"⟩
    let bob : Identity := ⟨.ofScalar ⟨7, by decide, by decide⟩, "bob"⟩
    let carol : Identity := ⟨.ofScalar ⟨11, by decide, by decide⟩, "carol"⟩
    let known : Identity := ⟨alice.key.toPublic, "someone"⟩
    let random : Entropy := .repeating 1 0
    let steps : List Builder.Step := [.aad [1], .unprotected ⟨[("note", .bool true)]⟩]
    ∃ envelope rest, (encryptInto (.run .empty steps) [carol.toPublic, bob.toPublic] alice
        [1, 2, 3]).run.run random = some (.ok envelope, rest) ∧
      decrypt (.parsed envelope) bob known = .ok [1, 2, 3] ∧
      decrypt (.text envelope.render) carol alice = .ok [1, 2, 3] ∧
      decrypt (.octets (Bytes.ofText envelope.render)) known alice =
        .error (.recipientNotFound "someone") := by
  intro alice bob carol known random steps
  have hjoined : joinedKids [carol.toPublic, bob.toPublic] = "bob.carol" := by
    simp [joinedKids, List.mergeSort, bob, carol, Identity.toPublic]
  have hfits : (parties alice [carol.toPublic, bob.toPublic]).Fits := by
    rw [parties, hjoined]
    exact ⟨by decide, by decide, by decide⟩
  have hagrees : Agrees alice [carol.toPublic, bob.toPublic] := by
    refine ⟨nofun, rfl, nofun, ?_⟩
    rintro recipient (_ | ⟨_, _ | ⟨_, ⟨⟩⟩⟩) <;> exact (rfl : Algorithm.secp256k1 = .secp256k1)
  have hnodup : ["carol", "bob"].Nodup := by decide
  obtain ⟨ephemeral, hephemeral⟩ := exists_ephemeral?_ones alice 0
  have hfeasible : Feasible (.run .empty steps) alice [carol.toPublic, bob.toPublic] random :=
    .of_secp256k1 hagrees rfl hfits hnodup (fun _ _ => List.not_mem_nil) hephemeral rfl
  obtain ⟨envelope, rest, hrun⟩ := hfeasible.exists_run_encryptInto rfl [1, 2, 3]
  have hportable : (Builder.run .empty steps).Portable := by
    refine ⟨?_, nofun⟩
    rintro _ ⟨⟩
    exact ⟨⟨trivial, trivial⟩, ⟨by decide, trivial, trivial⟩, by decide⟩
  have habsent : ∀ entry ∈ envelope.recipients, entry.kid? ≠ some "someone" := by
    refine Envelope.kid?_ne_of_not_mem_kids ?_
    rw [kids_of_encryptInto hrun]
    exact (by decide : "someone" ∉ ["carol", "bob"])
  exact ⟨envelope, rest, hrun,
    (decrypt_encryptInto_from hrun .parsed).1 bob.toPublic
      (List.mem_cons_of_mem _ List.mem_cons_self) bob known rfl rfl rfl
      bob.key.publicBytes_toPublic.symm rfl alice.key.publicBytes_toPublic,
    (decrypt_encryptInto_from hrun (.text hportable)).1 carol.toPublic List.mem_cons_self carol
      alice rfl rfl rfl carol.key.publicBytes_toPublic.symm rfl rfl,
    (decrypt_encryptInto_from hrun (.octets hportable)).2 known alice habsent⟩

end SealedEnvelope.Authcrypt
