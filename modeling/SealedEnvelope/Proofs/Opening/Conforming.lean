import SealedEnvelope.Proofs.Opening.Acceptance
import SealedEnvelope.Proofs.Sending.Sealing

/-!
# Envelopes of other senders

An envelope need not have been made by `encrypt` of this library.  Other senders choose
another key wrap and another cipher, name the cipher in another header, say something about
the two parties or leave that out, and spell an ephemeral key in their own way.
`Anoncrypt.Conforms` and `Authcrypt.Conforms` say what such a sender does, in the sender's
own terms: from which keys it wraps the content key, and what it seals with it.  Every
envelope of that kind is opened (`decrypt_of_conforms`), and there is one for every choice of
the parameters and for every two keys that agree (`Anoncrypt.exists_conforms`,
`Authcrypt.exists_conforms`).

## Where the parameters stand

An anonymous sender shares one protected header among all recipients, and each recipient has
a header of its own besides.  For what is known of a party the recipient's header goes first,
and what the protected one says does not count then (`Header.GivesParty`); for the cipher it
is the other way round (`Header.GivesEncryption`).  With a known sender everything stands in
the protected header.
-/

namespace SealedEnvelope

open Text

/-! ## What a sender writes -/

/-- A JSON value that stands for a public key, in whatever order it has its members, whatever
else it holds, and with or without fill behind its coordinates. -/
def Json.StandsFor (value : Json) (key : Key) : Prop :=
  ∃ jwk, (Jwk.ofJson value : Except (Json.Fault Empty) Jwk) = .ok jwk ∧
    Key.ofJwk jwk = .ok key.toPublic

theorem Json.standsFor_toJwk (key : Key) : key.toJwk.toJson.StandsFor key :=
  ⟨key.toJwk, Jwk.ofJson_toJson key.toJwk key.distinct_toJwk, Key.ofJwk_toJwk key⟩

namespace Header

/-- The ephemeral key is in the header. -/
def GivesKey (header : Header) (ephemeral : Key) : Prop :=
  ∃ value, header.get? "epk" = some value ∧ value.StandsFor ephemeral

/-- The cipher is named in the protected header, or only in that of the recipient. -/
def GivesEncryption (shared own : Header) (encryption : ContentEncryption) : Prop :=
  shared.get? "enc" = some (.string encryption.id) ∨
    shared.enc? = none ∧ own.get? "enc" = some (.string encryption.id)

/-- The octets are in the header, in base64url. -/
def GivesOctets (header : Header) (name : String) (octets : Bytes) : Prop :=
  ∃ text, header.get? name = some (.string text) ∧ Base64Url.decode text = .ok octets

/-- The octets are in the header, or there are none and the header does not mention them. -/
def GivesOptional (header : Header) (name : String) (octets : Bytes) : Prop :=
  header.GivesOctets name octets ∨ header.get? name = none ∧ octets = []

/-- What is known of a party is in the header of the recipient, whatever the protected one
says, or else in the protected one, or in neither if nothing is known. -/
def GivesParty (shared own : Header) (name : String) (party : Bytes) : Prop :=
  own.GivesOctets name party ∨ own.get? name = none ∧ shared.GivesOptional name party

variable {header shared own : Header} {name : String} {party : Bytes}

theorem text?_eq_some {text : String} (h : header.get? name = some (.string text)) :
    header.text? name = some text := by
  rw [text?, h]
  rfl

theorem GivesOctets.octets_eq (h : header.GivesOctets name party) :
    header.octets name = .ok party := by
  obtain ⟨text, htext, hdecode⟩ := h
  rw [octets, text?_eq_some htext]
  dsimp only
  rw [Key.decodeOctets, hdecode]
  rfl

theorem GivesOptional.octets_eq (h : header.GivesOptional name party) :
    header.octets name = .ok party := by
  rcases h with h | ⟨habsent, rfl⟩
  · exact h.octets_eq
  · rw [octets, text?, habsent]
    rfl

theorem GivesParty.octetsFor_eq (h : shared.GivesParty own name party) :
    shared.octetsFor own name = .ok party := by
  rcases h with h | ⟨habsent, h⟩
  · have hoctets := h.octets_eq
    obtain ⟨text, htext, -⟩ := h
    rw [octetsFor, htext]
    exact hoctets
  · rw [octetsFor, habsent]
    exact h.octets_eq

theorem GivesEncryption.enc?_eq {encryption : ContentEncryption}
    (h : shared.GivesEncryption own encryption) :
    (shared.enc? <|> own.enc?) = some encryption.id := by
  rcases h with h | ⟨hnone, h⟩
  · rw [enc?, text?_eq_some h]
    rfl
  · rw [hnone, enc?, text?_eq_some h]
    rfl

theorem GivesKey.requireEphemeralKey_eq {ephemeral : Key} (h : header.GivesKey ephemeral) :
    header.requireEphemeralKey = .ok ephemeral.toPublic := by
  obtain ⟨value, hvalue, jwk, hjwk, hkey⟩ := h
  have hfound : header.ephemeralKey = .ok (some jwk) := by
    rw [ephemeralKey, hvalue]
    dsimp only
    rw [hjwk]
  rw [requireEphemeralKey, hfound]
  show opaquely (Key.ofJwk jwk) = _
  rw [hkey]
  rfl

end Header

/-- What an anonymous sender does for a recipient.  Of the recipient it has the public key,
`addressed`. -/
inductive Anoncrypt.Conforms (envelope : Envelope) (recipient : Identity) (message : Bytes) : Prop
  | intro {wrap : KeyWrap} {key : ContentKey} {partyU partyV : Bytes} {ephemeral addressed : Key}
      {entry : Recipient}
      (alg : envelope.protectedHeader.header.get? "alg" = some (.string ("ECDH-ES+" ++ wrap.id)))
      (entry_eq : envelope.recipient? recipient.kid = some entry)
      (enc : envelope.protectedHeader.header.GivesEncryption entry.header key.encryption)
      (epk : entry.header.GivesKey ephemeral)
      (apu : envelope.protectedHeader.header.GivesParty entry.header "apu" partyU)
      (apv : envelope.protectedHeader.header.GivesParty entry.header "apv" partyV)
      (addressed_eq : addressed.toPublic = recipient.key.toPublic)
      (wraps : EcdhEs.wrapKey ⟨"ECDH-ES+" ++ wrap.id, partyU, partyV⟩ wrap ephemeral addressed
        key = .ok entry.encryptedKey)
      (encrypts : (key.encrypt message envelope.associatedData).Gives envelope.payload)

/-- What a sender with the key `author` does for a recipient, who knows the public half of
that key. -/
inductive Authcrypt.Conforms (envelope : Envelope) (recipient sender : Identity)
    (message : Bytes) : Prop
  | intro {wrap : KeyWrap} {key : ContentKey} {partyU partyV : Bytes}
      {ephemeral author addressed : Key} {entry : Recipient}
      (alg : envelope.protectedHeader.header.get? "alg" = some (.string ("ECDH-1PU+" ++ wrap.id)))
      (enc : envelope.protectedHeader.header.get? "enc" = some (.string key.encryption.id))
      (cbc : key.encryption = .a128CbcHs256 ∨ key.encryption = .a256CbcHs512)
      (entry_eq : envelope.recipient? recipient.kid = some entry)
      (epk : envelope.protectedHeader.header.GivesKey ephemeral)
      (apu : envelope.protectedHeader.header.GivesOptional "apu" partyU)
      (apv : envelope.protectedHeader.header.GivesOptional "apv" partyV)
      (author_eq : author.toPublic = sender.key.toPublic)
      (addressed_eq : addressed.toPublic = recipient.key.toPublic)
      (wraps : Ecdh1Pu.wrapKey ⟨"ECDH-1PU+" ++ wrap.id, partyU, partyV⟩ wrap ephemeral author
        addressed key envelope.payload.tag = .ok entry.encryptedKey)
      (encrypts : (key.encrypt message envelope.associatedData).Gives envelope.payload)

/-! ## Such envelopes exist -/

theorem Envelope.recipient?_singleton {protectedHeader : ProtectedHeader}
    {unprotected : Option Header} {aad : Option String} {payload : Payload} {flattened : Bool}
    {own : Header} {kid : String} (hkid : own.get? "kid" = some (.string kid)) (wrapped : Bytes) :
    (⟨protectedHeader, unprotected, [⟨own, wrapped⟩], aad, payload, flattened⟩ :
      Envelope).recipient? kid = some ⟨own, wrapped⟩ := by
  have hname : Recipient.kid? ⟨own, wrapped⟩ = some kid := Header.text?_eq_some hkid
  exact List.find?_cons_of_pos (decide_eq_true hname)

/-- Whatever an anonymous sender chooses, there is an envelope to it: all that can go wrong is
that the two keys do not agree on a secret. -/
theorem Anoncrypt.exists_conforms (protectedHeader : ProtectedHeader) (own : Header)
    (wrap : KeyWrap) (key : ContentKey) (recipient : Identity) {partyU partyV secret : Bytes}
    {ephemeral : Key} (hkid : own.get? "kid" = some (.string recipient.kid))
    (halg : protectedHeader.header.get? "alg" = some (.string ("ECDH-ES+" ++ wrap.id)))
    (henc : protectedHeader.header.GivesEncryption own key.encryption)
    (hepk : own.GivesKey ephemeral) (hapu : protectedHeader.header.GivesParty own "apu" partyU)
    (hapv : protectedHeader.header.GivesParty own "apv" partyV)
    (hfits : Agreement.Fits ⟨"ECDH-ES+" ++ wrap.id, partyU, partyV⟩)
    (hexchange : ephemeral.exchange recipient.key.toPublic = .ok secret)
    (unprotected : Option Header) (aad : Option String) (flattened : Bool) (message : Bytes) :
    ∃ wrapped payload, Anoncrypt.Conforms
      ⟨protectedHeader, unprotected, [⟨own, wrapped⟩], aad, payload, flattened⟩ recipient
      message := by
  obtain ⟨wrapped, hwraps⟩ := EcdhEs.exists_wrapKey hfits hexchange wrap key
  obtain ⟨payload, hencrypts⟩ := key.gives_encrypt message (associatedData protectedHeader aad)
  exact ⟨wrapped, payload, .intro halg (Envelope.recipient?_singleton hkid wrapped) henc hepk
    hapu hapv (Key.toPublic_toPublic recipient.key) hwraps hencrypts⟩

/-- Whatever a sender with a key chooses, there is an envelope to it, if that key agrees with
the recipient's on a secret too. -/
theorem Authcrypt.exists_conforms (protectedHeader : ProtectedHeader) (own : Header)
    (wrap : KeyWrap) (key : ContentKey) (recipient sender : Identity)
    {partyU partyV ephemeralSecret staticSecret : Bytes} {ephemeral : Key}
    (hkid : own.get? "kid" = some (.string recipient.kid))
    (halg : protectedHeader.header.get? "alg" = some (.string ("ECDH-1PU+" ++ wrap.id)))
    (henc : protectedHeader.header.get? "enc" = some (.string key.encryption.id))
    (hcbc : key.encryption = .a128CbcHs256 ∨ key.encryption = .a256CbcHs512)
    (hepk : protectedHeader.header.GivesKey ephemeral)
    (hapu : protectedHeader.header.GivesOptional "apu" partyU)
    (hapv : protectedHeader.header.GivesOptional "apv" partyV)
    (hfits : Agreement.Fits ⟨"ECDH-1PU+" ++ wrap.id, partyU, partyV⟩)
    (hephemeral : ephemeral.exchange recipient.key.toPublic = .ok ephemeralSecret)
    (hstatic : sender.key.exchange recipient.key.toPublic = .ok staticSecret)
    (unprotected : Option Header) (aad : Option String) (flattened : Bool) (message : Bytes) :
    ∃ wrapped payload, Authcrypt.Conforms
      ⟨protectedHeader, unprotected, [⟨own, wrapped⟩], aad, payload, flattened⟩ recipient
      sender.toPublic message := by
  obtain ⟨payload, hencrypts⟩ := key.gives_encrypt message (associatedData protectedHeader aad)
  have htag := ContentKey.length_tag_lt hencrypts
  obtain ⟨wrapped, hwraps⟩ := Ecdh1Pu.exists_wrapKey hfits htag hephemeral hstatic wrap key
  exact ⟨wrapped, payload, .intro halg henc hcbc (Envelope.recipient?_singleton hkid wrapped) hepk
    hapu hapv (Key.toPublic_toPublic sender.key).symm (Key.toPublic_toPublic recipient.key) hwraps
    hencrypts⟩

/-! ## What a recipient makes of it -/

variable {envelope : Envelope} {recipient sender : Identity} {message : Bytes}

/-- The sender's side of an anonymous envelope is what the recipient checks. -/
theorem Anoncrypt.Conforms.accepts (h : Anoncrypt.Conforms envelope recipient message)
    (hsecret : recipient.hasSecret = true) : Anoncrypt.Accepts envelope recipient message := by
  obtain ⟨halg, hentry, henc, hepk, hapu, hapv, haddressed, hwraps, hencrypts⟩ := h
  rename_i wrap key partyU partyV ephemeral addressed entry
  obtain ⟨secret, hexchange, hwrapped⟩ := bind_eq_ok_iff.1 hwraps
  have hagree : recipient.key.exchange ephemeral.toPublic = .ok secret :=
    Key.exchange_comm hexchange hsecret haddressed.symm (Key.toPublic_toPublic ephemeral)
  have hopens := ContentKey.decrypt_of_gives hencrypts
  exact .intro (Header.text?_eq_some halg) hentry henc.enc?_eq hsecret hepk.requireEphemeralKey_eq
    hapu.octetsFor_eq hapv.octetsFor_eq hagree (ContentKey.recovers_iff.2 ⟨hwrapped, hopens⟩)

/-- The sender's side of an envelope is what a recipient checks who knows the sender. -/
theorem Authcrypt.Conforms.accepts (h : Authcrypt.Conforms envelope recipient sender message)
    (hsecret : recipient.hasSecret = true) :
    Authcrypt.Accepts envelope recipient sender message := by
  obtain ⟨halg, henc, hcbc, hentry, hepk, hapu, hapv, hauthor, haddressed, hwraps, hencrypts⟩ := h
  rename_i wrap key partyU partyV ephemeral author addressed entry
  obtain ⟨ephemeralSecret, hexchange, hwraps⟩ := bind_eq_ok_iff.1 hwraps
  obtain ⟨staticSecret, hexchange', hwrapped⟩ := bind_eq_ok_iff.1 hwraps
  have hagree : recipient.key.exchange ephemeral.toPublic = .ok ephemeralSecret :=
    Key.exchange_comm hexchange hsecret haddressed.symm (Key.toPublic_toPublic ephemeral)
  have hagree' : recipient.key.exchange sender.key = .ok staticSecret :=
    Key.exchange_comm hexchange' hsecret haddressed.symm hauthor.symm
  have hopens := ContentKey.decrypt_of_gives hencrypts
  exact .intro (Header.text?_eq_some halg) (Header.text?_eq_some henc) hcbc hentry hsecret
    hepk.requireEphemeralKey_eq hapu.octets_eq hapv.octets_eq hagree hagree'
    (ContentKey.recovers_iff.2 ⟨hwrapped, hopens⟩)

/-- **Every envelope of a conforming sender opens**, whether it arrives as it is or as a
text. -/
theorem decrypt_of_conforms {source : Source} (hsource : source.envelope = .ok envelope)
    (hsecret : recipient.hasSecret = true) :
    (Anoncrypt.Conforms envelope recipient message →
      Anoncrypt.decrypt source recipient = .ok message) ∧
    ∀ sender, Authcrypt.Conforms envelope recipient sender message →
      Authcrypt.decrypt source recipient sender = .ok message := by
  constructor
  · intro h
    rw [Anoncrypt.decrypt, hsource]
    exact Anoncrypt.decryptEnvelope_eq_ok_iff.2 (h.accepts hsecret)
  · intro sender h
    rw [Authcrypt.decrypt, hsource]
    exact Authcrypt.decryptEnvelope_eq_ok_iff.2 (h.accepts hsecret)

/-- An anonymous envelope whose cipher and whose first party stand in the header of the
recipient, beside a protected header that says something else about that party, and one of a
known sender that says nothing about the second party. -/
theorem decrypt_of_conforms_other_headers :
    let ephemeral : Key := .ofScalar ⟨5, by decide, by decide⟩
    let alice : Identity := ⟨.ofScalar ⟨3, by decide, by decide⟩, "alice"⟩
    let bob : Identity := ⟨.ofScalar ⟨7, by decide, by decide⟩, "bob"⟩
    let shared : Header := ⟨[("alg", .string "ECDH-ES+A128KW"), ("apu", .bool true),
      ("apv", .string "Ym9i")]⟩
    let own : Header := ⟨[("kid", .string "bob"), ("enc", .string "A256GCM"),
      ("apu", .string "YWxpY2U"), ("epk", ephemeral.toJwk.toJson)]⟩
    let known : Header := ⟨[("alg", .string "ECDH-1PU+A128KW"), ("enc", .string "A128CBC-HS256"),
      ("apu", .string "YWxpY2U"), ("epk", ephemeral.toJwk.toJson)]⟩
    let envelope (header own : Header) (wrapped : Bytes) (payload : Payload) : Envelope :=
      ⟨.ofHeader header, none, [⟨own, wrapped⟩], some "AQ", payload, true⟩
    (∃ wrapped payload, Anoncrypt.decrypt (.parsed (envelope shared own wrapped payload)) bob =
        .ok [1, 2, 3]) ∧
      ∃ wrapped payload, Authcrypt.decrypt
        (.parsed (envelope known ⟨[("kid", .string "bob")]⟩ wrapped payload)) bob alice.toPublic =
        .ok [1, 2, 3] := by
  intro ephemeral alice bob shared own known envelope
  have hepk : ∀ header : Header, header.get? "epk" = some ephemeral.toJwk.toJson →
      header.GivesKey ephemeral :=
    fun header h => ⟨_, h, Json.standsFor_toJwk ephemeral⟩
  have halice : Base64Url.decode "YWxpY2U" = .ok (Bytes.ofText "alice") := by decide +kernel
  have hbob : Base64Url.decode "Ym9i" = .ok (Bytes.ofText "bob") := by decide +kernel
  constructor
  · let key : ContentKey := ⟨.a256Gcm, ⟨List.replicate 32 9, rfl⟩⟩
    obtain ⟨wrapped, payload, hconforms⟩ := Anoncrypt.exists_conforms (.ofHeader shared) own
      .a128Kw key bob rfl rfl (.inr ⟨rfl, rfl⟩) (hepk own rfl) (.inl ⟨"YWxpY2U", rfl, halice⟩)
      (.inr ⟨rfl, .inl ⟨"Ym9i", rfl, hbob⟩⟩) (by constructor <;> decide +kernel) rfl none
      (some "AQ") true [1, 2, 3]
    exact ⟨wrapped, payload, (decrypt_of_conforms rfl rfl).1 hconforms⟩
  · let key : ContentKey := ⟨.a128CbcHs256, ⟨List.replicate 32 9, rfl⟩⟩
    obtain ⟨wrapped, payload, hconforms⟩ := Authcrypt.exists_conforms (.ofHeader known)
      ⟨[("kid", .string "bob")]⟩ .a128Kw key bob alice rfl rfl rfl (.inl rfl) (hepk known rfl)
      (.inl ⟨"YWxpY2U", rfl, halice⟩) (.inr ⟨rfl, rfl⟩) (by constructor <;> decide +kernel) rfl rfl
      none (some "AQ") true [1, 2, 3]
    exact ⟨wrapped, payload, (decrypt_of_conforms rfl rfl).2 alice.toPublic hconforms⟩

end SealedEnvelope
