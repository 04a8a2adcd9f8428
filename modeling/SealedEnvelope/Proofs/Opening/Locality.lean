import SealedEnvelope.Proofs.Reading.Jwk
import SealedEnvelope.Proofs.Reading.Rewriting
import SealedEnvelope.Proofs.RoundTrip.Sent

/-!
# What a recipient's result depends on

A recipient looks at the protected header, at what the ciphertext is bound to, at the payload,
and at its own entry.  Two texts that agree on these give it the same result, whether that is a
message or an error (`decrypt_eq_of_same_entry`).  So it makes no difference who else is
addressed, in which order and in which of the two forms, or what the unprotected header says.

With a known sender even the header of the recipient's own entry is without effect, apart from
its name.
-/

namespace SealedEnvelope

open Json (Tree Token)

/-! ## Entries -/

/-- A recipient takes the same from both entries. -/
structure Recipient.Equivalent (x y : Recipient) : Prop where
  enc?_eq : x.header.enc? = y.header.enc?
  requireEphemeralKey_eq : x.header.requireEphemeralKey = y.header.requireEphemeralKey
  octetsFor_eq : ∀ shared name,
    Header.octetsFor shared x.header name = Header.octetsFor shared y.header name
  encryptedKey_eq : x.encryptedKey = y.encryptedKey

namespace Recipient.Equivalent

theorem refl (x : Recipient) : x.Equivalent x := ⟨rfl, rfl, fun _ _ => rfl, rfl⟩

/-- Entries that were read and are the same are equivalent. -/
theorem of_same {x y : Recipient} (hx : x.header.toJson.Distinct) (hy : y.header.toJson.Distinct)
    (h : x.same y = true) : x.Equivalent y := by
  obtain ⟨hheader, hkey⟩ := Bool.and_eq_true_iff.1 h
  have halike := Header.alike_of_same hx hheader
  exact
    { enc?_eq := Header.text?_of_alike halike "enc"
      requireEphemeralKey_eq := Header.requireEphemeralKey_of_alike hx hy halike
      octetsFor_eq := Header.octetsFor_of_alike halike
      encryptedKey_eq := of_decide_eq_true hkey }

end Recipient.Equivalent

/-! ## Envelopes -/

section Envelopes

variable {a b : Envelope} {recipient : Identity}

/-- The envelopes agree on all that concerns every recipient. -/
structure Envelope.Shares (a b : Envelope) : Prop where
  protectedHeader : a.protectedHeader = b.protectedHeader
  aad : a.aad = b.aad
  payload : a.payload = b.payload

theorem Envelope.Shares.associatedData_eq (h : a.Shares b) :
    a.associatedData = b.associatedData := by
  rw [Envelope.associatedData, Envelope.associatedData, h.protectedHeader, h.aad]

theorem Anoncrypt.decryptEnvelope_congr (h : a.Shares b)
    (hentry : Option.Rel Recipient.Equivalent (a.recipient? recipient.kid)
      (b.recipient? recipient.kid)) :
    Anoncrypt.decryptEnvelope a recipient = Anoncrypt.decryptEnvelope b recipient := by
  unfold Anoncrypt.decryptEnvelope
  rw [h.protectedHeader, h.payload, h.associatedData_eq]
  generalize a.recipient? recipient.kid = x, b.recipient? recipient.kid = y at hentry
  cases hentry with
  | none => rfl
  | some hequivalent =>
    simp only [hequivalent.enc?_eq, hequivalent.requireEphemeralKey_eq, hequivalent.octetsFor_eq,
      hequivalent.encryptedKey_eq]

theorem Authcrypt.decryptEnvelope_congr (h : a.Shares b)
    (hkey : (a.recipient? recipient.kid).map Recipient.encryptedKey =
      (b.recipient? recipient.kid).map Recipient.encryptedKey) (sender : Identity) :
    Authcrypt.decryptEnvelope a recipient sender =
      Authcrypt.decryptEnvelope b recipient sender := by
  unfold Authcrypt.decryptEnvelope
  rw [h.protectedHeader, h.payload, h.associatedData_eq]
  generalize a.recipient? recipient.kid = x, b.recipient? recipient.kid = y at hkey
  cases x with
  | none =>
    cases y with
    | none => rfl
    | some y => cases hkey
  | some x =>
    cases y with
    | none => cases hkey
    | some y =>
      have heq : x.encryptedKey = y.encryptedKey := Option.some.inj hkey
      simp only [heq]

end Envelopes

/-! ## Texts -/

section Texts

variable {text text' : Bytes} {a b : Envelope}

theorem Anoncrypt.decrypt_octets (h : Envelope.ofBytes text = .ok a) (recipient : Identity) :
    Anoncrypt.decrypt (.octets text) recipient = Anoncrypt.decryptEnvelope a recipient := by
  rw [Anoncrypt.decrypt, Source.envelope, h]
  rfl

theorem Authcrypt.decrypt_octets (h : Envelope.ofBytes text = .ok a) (recipient sender : Identity) :
    Authcrypt.decrypt (.octets text) recipient sender =
      Authcrypt.decryptEnvelope a recipient sender := by
  rw [Authcrypt.decrypt, Source.envelope, h]
  rfl

theorem Envelope.ReadFrom.distinct_of_recipient? {tree : Tree} {below : Nat}
    (h : a.ReadFrom below tree) {kid : String} {entry : Recipient}
    (hentry : a.recipient? kid = some entry) : entry.header.toJson.Distinct :=
  (h.recipients.sound entry (List.mem_of_find?_eq_some hentry)).1

/-- Entries that were found by a name and are the same are equivalent. -/
theorem Envelope.ReadFrom.equivalent_of_same {tree tree' : Tree} {below below' : Nat}
    (ha : a.ReadFrom below tree) (hb : b.ReadFrom below' tree') {kid : String}
    (h : Option.Rel (fun x y => x.same y = true) (a.recipient? kid) (b.recipient? kid)) :
    Option.Rel Recipient.Equivalent (a.recipient? kid) (b.recipient? kid) := by
  have hdistinct {x : Recipient} (hx : a.recipient? kid = some x) : x.header.toJson.Distinct :=
    ha.distinct_of_recipient? hx
  have hdistinct' {y : Recipient} (hy : b.recipient? kid = some y) : y.header.toJson.Distinct :=
    hb.distinct_of_recipient? hy
  generalize a.recipient? kid = x, b.recipient? kid = y at h hdistinct hdistinct'
  cases h with
  | none => exact .none
  | some hsame => exact .some (.of_same (hdistinct rfl) (hdistinct' rfl) hsame)

/-- A recipient gets the same from both texts, be it a message or an error. -/
structure SameResults (text text' : Bytes) (recipient : Identity) : Prop where
  anoncrypt : Anoncrypt.decrypt (.octets text) recipient =
    Anoncrypt.decrypt (.octets text') recipient
  authcrypt : ∀ sender, Authcrypt.decrypt (.octets text) recipient sender =
    Authcrypt.decrypt (.octets text') recipient sender

theorem SameResults.of_recipient? {recipient : Identity} (ha : Envelope.ofBytes text = .ok a)
    (hb : Envelope.ofBytes text' = .ok b) (hshares : a.Shares b)
    (h : a.recipient? recipient.kid = b.recipient? recipient.kid) :
    SameResults text text' recipient where
  anoncrypt := by
    rw [Anoncrypt.decrypt_octets ha, Anoncrypt.decrypt_octets hb]
    refine Anoncrypt.decryptEnvelope_congr hshares ?_
    rw [h]
    cases b.recipient? recipient.kid with
    | none => exact .none
    | some entry => exact .some (.refl entry)
  authcrypt sender := by
    rw [Authcrypt.decrypt_octets ha, Authcrypt.decrypt_octets hb]
    exact Authcrypt.decryptEnvelope_congr hshares (by rw [h]) sender

/-- **A recipient's result depends on its own entry and on what the ciphertext is bound to.**
Texts that agree on these give the same result.  In particular they do so for everyone whose
entry stays, wherever it stands, and when a single entry is put into a list or taken out. -/
theorem decrypt_eq_of_same_entry (ha : Envelope.ofBytes text = .ok a)
    (hb : Envelope.ofBytes text' = .ok b)
    (hprotected : a.protectedHeader.encoded = b.protectedHeader.encoded) (haad : a.aad = b.aad)
    (hpayload : a.payload = b.payload) (recipient : Identity) :
    (Option.Rel (fun x y => x.same y = true) (a.recipient? recipient.kid)
        (b.recipient? recipient.kid) →
      Anoncrypt.decrypt (.octets text) recipient = Anoncrypt.decrypt (.octets text') recipient) ∧
    ((a.recipient? recipient.kid).map Recipient.encryptedKey =
        (b.recipient? recipient.kid).map Recipient.encryptedKey →
      ∀ sender, Authcrypt.decrypt (.octets text) recipient sender =
        Authcrypt.decrypt (.octets text') recipient sender) ∧
    (∀ entry ∈ a.recipients, entry ∈ b.recipients → entry.kid? = some recipient.kid →
      SameResults text text' recipient) ∧
    (Envelope.OneRecipient (Tree.build (Token.scan text)).1 (Tree.build (Token.scan text')).1 →
      SameResults text text' recipient) := by
  have hreada := Envelope.readFrom_of_ofBytes ha
  have hreadb := Envelope.readFrom_of_ofBytes hb
  have hheader : (.ok a.protectedHeader : Except HeaderFault ProtectedHeader) =
      .ok b.protectedHeader := by
    rw [← hreada.ofEncoded_eq, ← hreadb.ofEncoded_eq, hprotected]
  have hshares : a.Shares b := ⟨Except.ok.inj hheader, haad, hpayload⟩
  refine ⟨fun hrel => ?_, fun hkey sender => ?_, fun entry hmem hmem' hkid => ?_, fun hforms => ?_⟩
  · rw [Anoncrypt.decrypt_octets ha, Anoncrypt.decrypt_octets hb]
    exact Anoncrypt.decryptEnvelope_congr hshares (hreada.equivalent_of_same hreadb hrel)
  · rw [Authcrypt.decrypt_octets ha, Authcrypt.decrypt_octets hb]
    exact Authcrypt.decryptEnvelope_congr hshares hkey sender
  · -- Names are told apart in what was read, so the entry is found wherever it stands.
    refine .of_recipient? ha hb hshares ?_
    rw [Envelope.recipient?_eq_some hreada.kids_nodup hmem hkid,
      Envelope.recipient?_eq_some hreadb.kids_nodup hmem' hkid]
  · refine .of_recipient? ha hb hshares ?_
    rw [Envelope.recipient?, Envelope.recipient?,
      hreada.recipients.eq_of_oneRecipient hforms hreadb.recipients]

/-- One of two recipients has its entry taken out of the list, with its header in another
order, and the unprotected header is new.  Without a known sender the entry says which cipher it
is for and what the ephemeral key is. -/
theorem decrypt_eq_of_same_entry_taken_out :
    let x := "\"x\":\"CQAAAAAAAAAAAAAAAAAAAAAAAAAAAAAAAAAAAAAAAAA\""
    let epk := "\"epk\":\x7b\"kty\":\"OKP\",\"crv\":\"X25519\"," ++ x ++ "\x7d"
    let epk' := "\"epk\":\x7b" ++ x ++ ",\"crv\":\"X25519\",\"kty\":\"OKP\"\x7d"
    let encoded (members : String) :=
      Text.Base64Url.encode (Bytes.ofText ("\x7b" ++ members ++ "\x7d"))
    let anonymous := encoded "\"alg\":\"ECDH-ES+A256KW\""
    let known := encoded ("\"alg\":\"ECDH-1PU+A256KW\",\"enc\":\"A256CBC-HS512\"," ++ epk)
    let text (shared : String) := Bytes.ofText ("\x7b\"protected\":\"" ++ shared ++
      "\",\"recipients\":[" ++
      "\x7b\"header\":\x7b\"kid\":\"alice\"\x7d,\"encrypted_key\":\"AQ\"\x7d," ++
      "\x7b\"header\":\x7b\"kid\":\"bob\",\"enc\":\"XC20P\"," ++ epk ++
      "\x7d,\"encrypted_key\":\"Ag\"\x7d]," ++
      "\"aad\":\"AQ\",\"iv\":\"AA\",\"ciphertext\":\"AA\",\"tag\":\"AA\"\x7d")
    let text' (shared : String) := Bytes.ofText ("\x7b\"header\":\x7b" ++ epk' ++
      ",\"enc\":\"XC20P\",\"kid\":\"bob\"\x7d,\"encrypted_key\":\"Ag\"," ++
      "\"unprotected\":\x7b\"typ\":1\x7d,\"protected\":\"" ++ shared ++
      "\",\"aad\":\"AQ\",\"iv\":\"AA==\",\"ciphertext\":\"AA\",\"tag\":\"AA\"\x7d")
    let bob : Identity := ⟨.ofX25519Secret ⟨List.replicate 32 7, rfl⟩, "bob"⟩
    let alice : Identity := ⟨.ofX25519Secret ⟨List.replicate 32 3, rfl⟩, "alice"⟩
    Anoncrypt.decrypt (.octets (text anonymous)) bob =
        Anoncrypt.decrypt (.octets (text' anonymous)) bob ∧
      Authcrypt.decrypt (.octets (text known)) bob alice =
        Authcrypt.decrypt (.octets (text' known)) bob alice := by
  intro x epk epk' encoded anonymous known text text' bob alice
  have hsame (shared : String) (hgiven : (Envelope.ofBytes (text shared)).toOption.any (fun a =>
      (Envelope.ofBytes (text' shared)).toOption.any fun b =>
        (a.protectedHeader.encoded = b.protectedHeader.encoded && a.aad = b.aad &&
          a.payload = b.payload) &&
        (a.recipient? "bob").any fun x => (b.recipient? "bob").any x.same) = true) :
      Anoncrypt.decrypt (.octets (text shared)) bob =
          Anoncrypt.decrypt (.octets (text' shared)) bob ∧
        Authcrypt.decrypt (.octets (text shared)) bob alice =
          Authcrypt.decrypt (.octets (text' shared)) bob alice := by
    obtain ⟨a, ha, hgiven⟩ := exists_eq_ok_of_any hgiven
    obtain ⟨b, hb, hgiven⟩ := exists_eq_ok_of_any hgiven
    simp only [Bool.and_eq_true, decide_eq_true_eq, Option.any_eq_true] at hgiven
    obtain ⟨⟨⟨hprotected, haad⟩, hpayload⟩, x, hx, y, hy, hsame⟩ := hgiven
    obtain ⟨hanon, hauth, -⟩ := decrypt_eq_of_same_entry ha hb hprotected haad hpayload bob
    have hkey : x.encryptedKey = y.encryptedKey :=
      of_decide_eq_true (Bool.and_eq_true_iff.1 hsame).2
    refine ⟨hanon ?_, hauth ?_ alice⟩
    · rw [hx, hy]
      exact .some hsame
    · rw [hx, hy, Option.map_some, Option.map_some, hkey]
  exact ⟨(hsame anonymous (by decide +kernel)).1, (hsame known (by decide +kernel)).2⟩

end Texts

end SealedEnvelope
