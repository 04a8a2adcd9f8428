import SealedEnvelope.Envelope.Text
import SealedEnvelope.Proofs.RoundTrip.Header

/-!
# Envelopes, there and back

An envelope is read back from its text, and only one thing about it can be lost: that an
envelope for several recipients was meant to be flattened, which has no effect on its text
(`Envelope.settled`).

The members of an envelope differ from one envelope to the next, since two of them may be
absent and recipients are written in one of two forms.  They are collected one after the
other (`Envelope.collects_toMembers`), and only what is collected in the end is looked at
by cases.
-/

namespace SealedEnvelope

open Json (Reader Tree Schema)
open Text

/-! ## Names that are not repeated -/

theorem firstRepeated?_eq_none {seen names : List String} (h : names.Nodup)
    (hseen : ∀ name ∈ names, name ∉ seen) : firstRepeated? seen names = none := by
  induction names generalizing seen with
  | nil => rfl
  | cons name names ih =>
    obtain ⟨hnew, hrest⟩ := List.nodup_cons.1 h
    have hfirst : ¬seen.contains name = true := fun hmem =>
      hseen name List.mem_cons_self (List.contains_iff_mem.1 hmem)
    rw [firstRepeated?, if_neg hfirst]
    refine ih hrest fun other hmem hother => ?_
    rcases List.mem_cons.1 hother with rfl | hother
    · exact hnew hmem
    · exact hseen other (List.mem_cons_of_mem _ hmem) hother

/-! ## Members -/

theorem octetsReader_encode (depth : Nat) (bytes : Bytes) :
    octetsReader depth (.ofJson (.string (Base64Url.encode bytes))) = .ok bytes := by
  refine Reader.textThen_string ?_
  rw [Base64Url.decode_encode]
  rfl

/-- A recipient is read back from the tree of its text. -/
theorem Recipient.read_toJson {recipient : Recipient} {depth : Nat}
    (h : recipient.header.Legible depth) :
    Recipient.schema.read (depth + 1) (.ofJson recipient.toJson) = .ok recipient := by
  have hheader : Recipient.schema.Collects depth
      (Tree.ofMembers [("header", recipient.header.toJson)]) _ _ :=
    .member "header" rfl (Header.reader_toJson h.distinct h.depth_le)
  have hkey : Recipient.schema.Collects depth
      (Tree.ofMembers [("encrypted_key", .string (Base64Url.encode recipient.encryptedKey))]) _ _ :=
    .member "encrypted_key" rfl (octetsReader_encode depth recipient.encryptedKey)
  exact (hheader.append hkey (by decide)).read rfl

namespace Envelope

/-- An envelope whose headers can travel, and whose protected header is the one that its
text stands for. -/
structure Portable (envelope : Envelope) : Prop where
  protectedHeader : ProtectedHeader.ofEncoded envelope.protectedHeader.encoded =
    .ok envelope.protectedHeader
  unprotected : ∀ header ∈ envelope.unprotected, header.Portable
  recipients : ∀ recipient ∈ envelope.recipients, recipient.header.Portable
  kids_nodup : envelope.kids.Nodup

/-- The envelope without a wish that has no effect: only one with a single recipient is
flattened. -/
def settled (envelope : Envelope) : Envelope :=
  { envelope with flattened := envelope.flattened && envelope.recipients.length = 1 }

/-- An envelope that is read back from its text.  There is more room in the header of a single
recipient that is written without a list around it. -/
structure Legible (envelope : Envelope) : Prop where
  protectedHeader : ProtectedHeader.ofEncoded envelope.protectedHeader.encoded =
    .ok envelope.protectedHeader
  unprotected : ∀ header ∈ envelope.unprotected, header.Legible 126
  recipients : ∀ recipient ∈ envelope.recipients,
    recipient.header.Legible (if envelope.settled.flattened then 126 else 124)
  kids_nodup : envelope.kids.Nodup

/-- What is collected of the recipients' members. -/
def draftRecipients (envelope : Envelope) (draft : Draft) : Draft :=
  match envelope.flattened, envelope.recipients with
  | true, [recipient] =>
    { draft with header := some recipient.header, encryptedKey := some recipient.encryptedKey }
  | _, recipients => { draft with recipients := some recipients }

variable {envelope : Envelope}

theorem Portable.legible (h : envelope.Portable) : envelope.Legible where
  protectedHeader := h.protectedHeader
  unprotected header hmem := (h.unprotected header hmem).legible (by decide)
  recipients recipient hmem := (h.recipients recipient hmem).legible (by split <;> decide)
  kids_nodup := h.kids_nodup

theorem collects_header_encryptedKey {recipient : Recipient} (h : recipient.header.Legible 126) :
    schema.Collects 126 (Tree.ofMembers [("header", recipient.header.toJson),
      ("encrypted_key", .string (Base64Url.encode recipient.encryptedKey))])
      ["header", "encrypted_key"] fun draft =>
        { draft with
          header := some recipient.header
          encryptedKey := some recipient.encryptedKey } := by
  have hread : (Header.reader : Reader MemberFault Header) 126 (.ofJson recipient.header.toJson) =
      .ok recipient.header :=
    Header.reader_toJson h.distinct h.depth_le
  have hheader : schema.Collects 126 (Tree.ofMembers [("header", recipient.header.toJson)]) _ _ :=
    .member "header" rfl (Reader.optional_ofJson hread nofun)
  have hkey : schema.Collects 126
      (Tree.ofMembers [("encrypted_key", .string (Base64Url.encode recipient.encryptedKey))]) _ _ :=
    .member "encrypted_key" rfl (Reader.optional_ofJson (octetsReader_encode 126 _) nofun)
  exact hheader.append hkey (by decide)

theorem collects_recipients {recipients : List Recipient}
    (h : ∀ recipient ∈ recipients, recipient.header.Legible 124) :
    schema.Collects 126
      (Tree.ofMembers [("recipients", .array (recipients.map Recipient.toJson))]) ["recipients"]
      fun draft => { draft with recipients := some recipients } := by
  have hlist : (Reader.list Recipient.schema.read) 126
      (.ofJson (.array (recipients.map Recipient.toJson))) = .ok recipients :=
    Reader.list_map fun recipient hmem => Recipient.read_toJson (h recipient hmem)
  have hmember : schema.Collects 126
      (Tree.ofMembers [("recipients", .array (recipients.map Recipient.toJson))]) _ _ :=
    .member "recipients" rfl (Reader.optional_ofJson hlist nofun)
  exact hmember

/-- Whichever form the recipients are written in, they are collected. -/
theorem collects_recipientMembers (h : envelope.Legible) :
    schema.Collects 126 (Tree.ofMembers envelope.recipientMembers)
      ["recipients", "header", "encrypted_key"] envelope.draftRecipients := by
  have hrecipients := h.recipients
  obtain ⟨_, _, recipients, _, _, flattened⟩ := envelope
  have hlist (h : ∀ recipient ∈ recipients, recipient.header.Legible 124) :=
    (collects_recipients h).mono
      (by decide : ∀ name ∈ _, name ∈ ["recipients", "header", "encrypted_key"])
  cases flattened with
  | false => exact hlist hrecipients
  | true =>
    rcases recipients with _ | ⟨recipient, _ | ⟨next, recipients⟩⟩
    · exact hlist nofun
    · exact (collects_header_encryptedKey (hrecipients _ (List.mem_singleton_self _))).mono
        (by decide)
    · exact hlist fun recipient hmem => hrecipients recipient hmem

/-- The members of an envelope are collected one after the other. -/
theorem collects_toMembers (h : envelope.Legible) :
    schema.Collects 126 (Tree.ofMembers envelope.toMembers)
      (["protected", "unprotected", "recipients", "header", "encrypted_key", "aad", "iv",
        "ciphertext", "tag"])
      fun draft =>
        let draft := { draft with protectedHeader := some envelope.protectedHeader }
        let draft := envelope.unprotected.elim id
          (fun header draft => { draft with unprotected := some header }) draft
        let draft := envelope.draftRecipients draft
        let draft := envelope.aad.elim id (fun aad draft => { draft with aad := some aad }) draft
        { draft with
          iv := some envelope.payload.nonce
          ciphertext := some envelope.payload.ciphertext
          tag := some envelope.payload.tag } := by
  have hprotected : schema.Collects 126
      (Tree.ofMembers [("protected", .string envelope.protectedHeader.encoded)]) _ _ :=
    .member "protected" rfl (Reader.textThen_string (by rw [h.protectedHeader]; rfl))
  have hunprotected : schema.Collects 126 (Tree.ofMembers
      (envelope.unprotected.map fun header => ("unprotected", header.toJson)).toList) _ _ :=
    .optionMember "unprotected" rfl fun header hmem =>
      Reader.optional_ofJson (Header.reader_toJson (h.unprotected header hmem).distinct
        (h.unprotected header hmem).depth_le) nofun
  have haad : schema.Collects 126
      (Tree.ofMembers (envelope.aad.map fun aad => ("aad", Json.string aad)).toList) _ _ :=
    .optionMember "aad" rfl fun aad _ => Reader.optional_ofJson (Reader.text_string aad) nofun
  have hiv : schema.Collects 126
      (Tree.ofMembers [("iv", .string (Base64Url.encode envelope.payload.nonce))]) _ _ :=
    .member "iv" rfl (octetsReader_encode 126 _)
  have hciphertext : schema.Collects 126
      (Tree.ofMembers [("ciphertext", .string (Base64Url.encode envelope.payload.ciphertext))])
      _ _ :=
    .member "ciphertext" rfl (octetsReader_encode 126 _)
  have htag : schema.Collects 126
      (Tree.ofMembers [("tag", .string (Base64Url.encode envelope.payload.tag))]) _ _ :=
    .member "tag" rfl (octetsReader_encode 126 _)
  have hheaders := (hprotected.append hunprotected (by decide)).append
    (collects_recipientMembers h) (by decide)
  have hpayload := hiv.append (hciphertext.append htag (by decide)) (by decide)
  have hmembers := (hheaders.append haad (by decide)).append hpayload (by decide)
  rw [← Tree.ofMembers_append, ← Tree.ofMembers_append, ← Tree.ofMembers_append,
    ← Tree.ofMembers_append, ← Tree.ofMembers_append, ← Tree.ofMembers_append] at hmembers
  exact hmembers

theorem Parts.toEnvelope_eq_ok {parts : Parts} {recipients : List Recipient} {flattened : Bool}
    (h : parts.recipients? = some (recipients, flattened))
    (hkids : (recipients.filterMap Recipient.kid?).Nodup) :
    parts.toEnvelope = .ok ⟨parts.protectedHeader, parts.unprotected, recipients, parts.aad,
      parts.payload, flattened⟩ := by
  rw [Parts.toEnvelope, h]
  dsimp only
  rw [firstRepeated?_eq_none hkids fun _ _ => List.not_mem_nil]

/-- An envelope is read back from the tree of its text. -/
theorem reader_toMembers (h : envelope.Legible) :
    reader 127 (.ofJson (.object envelope.toMembers)) = .ok envelope.settled := by
  have hmembers := collects_toMembers h
  obtain ⟨parts, hparts, henvelope⟩ : ∃ parts,
      schema.read 127 (.ofJson (.object envelope.toMembers)) = .ok parts ∧
        parts.toEnvelope = .ok envelope.settled := by
    have hkids := h.kids_nodup
    obtain ⟨protectedHeader, unprotected, recipients, aad, payload, flattened⟩ := envelope
    cases unprotected <;> cases aad <;> rcases flattened with _ | _ <;>
      rcases recipients with _ | ⟨recipient, _ | ⟨next, recipients⟩⟩ <;>
      exact ⟨_, hmembers.read rfl, Parts.toEnvelope_eq_ok rfl hkids⟩
  rw [reader, hparts]
  show parts.toEnvelope.mapError Json.Fault.rejected = _
  rw [henvelope]
  rfl

theorem integral_recipientMembers
    (h : ∀ recipient ∈ envelope.recipients, recipient.header.toJson.Integral) :
    Json.MembersIntegral envelope.recipientMembers := by
  have hlist : Json.ItemsIntegral (envelope.recipients.map Recipient.toJson) :=
    Json.itemsIntegral_map fun recipient hmem => ⟨h recipient hmem, trivial, trivial⟩
  unfold recipientMembers
  split
  · next recipient _ hone =>
    exact ⟨h recipient (hone ▸ List.mem_singleton_self _), trivial, trivial⟩
  · exact ⟨hlist, trivial⟩

theorem integral_toMembers (h : envelope.Legible) :
    (Json.object envelope.toMembers).Integral := by
  have hunprotected : Json.MembersIntegral
      (envelope.unprotected.map fun header => ("unprotected", header.toJson)).toList := by
    cases hsome : envelope.unprotected with
    | none => exact trivial
    | some header => exact ⟨(h.unprotected header hsome).integral, trivial⟩
  have haad : Json.MembersIntegral
      (envelope.aad.map fun aad => ("aad", Json.string aad)).toList := by
    cases envelope.aad with
    | none => exact trivial
    | some aad => exact ⟨trivial, trivial⟩
  have hrecipients := integral_recipientMembers fun recipient hmem =>
    (h.recipients recipient hmem).integral
  show Json.MembersIntegral envelope.toMembers
  simp only [toMembers, Json.membersIntegral_append]
  exact ⟨⟨⟨⟨⟨trivial, trivial⟩, hunprotected⟩, hrecipients⟩, haad⟩, trivial, trivial, trivial,
    trivial⟩

/-- **Reading undoes writing** for envelopes, as far as there is room for their headers. -/
theorem ofText_render_of_legible (h : envelope.Legible) :
    ofText envelope.render = .ok envelope.settled := by
  rw [ofText, ofBytes, render, Reader.whole_render reader (integral_toMembers h), Json.maxDepth,
    reader_toMembers h]
  rfl

/-- **Reading undoes writing** for envelopes that can travel. -/
theorem ofText_render (h : envelope.Portable) : ofText envelope.render = .ok envelope.settled :=
  ofText_render_of_legible h.legible

end Envelope
end SealedEnvelope
