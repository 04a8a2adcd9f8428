import SealedEnvelope.Proofs.Building.Steps
import SealedEnvelope.Proofs.Opening.Steps
import SealedEnvelope.Proofs.RoundTrip.Envelope

/-!
# Envelopes that were sent

Both ways of encrypting put an envelope together with a builder that may have been used
before.  What they have in common is said here: `Envelope.Sent` lists what is true of the
envelope in the end, and `Envelope.Reaches` lists the ways in which it gets to a recipient.
-/

namespace SealedEnvelope

namespace Builder

variable {builder next extended : Builder}

/-! ## Entries for recipients -/

/-- `extended` is the builder with an entry added for each of the recipients, of which
`made` holds. -/
inductive Adds (made : Identity → Recipient → Prop) : List Identity → Builder → Builder → Prop
  | nil (builder : Builder) : Adds made [] builder builder
  | cons {recipient : Identity} {recipients : List Identity} {entry : Recipient}
      {builder next extended : Builder} (hmade : made recipient entry)
      (hadd : (addRecipient entry).onto builder = .ok next)
      (hrest : Adds made recipients next extended) :
      Adds made (recipient :: recipients) builder extended

namespace Adds

variable {made : Identity → Recipient → Prop} {recipients : List Identity}

/-- Adding entries changes nothing but the recipients. -/
theorem eq_with (h : Adds made recipients builder extended) :
    extended = { builder with recipients := extended.recipients } := by
  induction h with
  | nil builder => rfl
  | cons _ hadd _ ih =>
    obtain ⟨-, rfl⟩ := addRecipient_eq_ok_iff.1 hadd
    rw [ih]

theorem kids_nodup (h : Adds made recipients builder extended) (hkids : builder.kids.Nodup) :
    extended.kids.Nodup := by
  induction h with
  | nil builder => exact hkids
  | cons _ hadd _ ih => exact ih (kids_nodup_addRecipient hkids hadd)

/-- The entries that were there are still there. -/
theorem subset (h : Adds made recipients builder extended) :
    ∀ entry ∈ builder.recipients, entry ∈ extended.recipients := by
  induction h with
  | nil builder => exact fun _ h => h
  | cons _ hadd _ ih =>
    obtain ⟨-, rfl⟩ := addRecipient_eq_ok_iff.1 hadd
    intro entry hmem
    exact ih entry (List.mem_append_left _ hmem)

/-- Each recipient has an entry. -/
theorem exists_entry (h : Adds made recipients builder extended) :
    ∀ recipient ∈ recipients, ∃ entry ∈ extended.recipients, made recipient entry := by
  induction h with
  | nil builder => exact fun _ h => nomatch h
  | cons hmade hadd hrest ih =>
    intro recipient hmem
    rcases List.mem_cons.1 hmem with rfl | hmem
    · obtain ⟨-, rfl⟩ := addRecipient_eq_ok_iff.1 hadd
      exact ⟨_, hrest.subset _ (List.mem_append_right _ (List.mem_singleton_self _)), hmade⟩
    · exact ih recipient hmem

/-- There are no other entries than those that were there and those that were made. -/
theorem entry_cases (h : Adds made recipients builder extended) :
    ∀ entry ∈ extended.recipients,
      entry ∈ builder.recipients ∨ ∃ recipient, made recipient entry := by
  induction h with
  | nil builder => exact fun _ h => .inl h
  | cons hmade hadd _ ih =>
    obtain ⟨-, rfl⟩ := addRecipient_eq_ok_iff.1 hadd
    intro entry hmem
    rcases ih entry hmem with hmem | hmade'
    · rcases List.mem_append.1 hmem with hmem | hmem
      · exact .inl hmem
      · obtain rfl := List.mem_singleton.1 hmem
        exact .inr ⟨_, hmade⟩
    · exact .inr hmade'

end Adds

/-! ## The last steps -/

theorem associatedData_eq_ok {header : ProtectedHeader} {aad : Bytes}
    (hheader : builder.protectedHeader = some header) (h : builder.associatedData = .ok aad) :
    aad = SealedEnvelope.associatedData header builder.aad := by
  rw [associatedData, hheader] at h
  exact (Except.ok.inj h).symm

/-- The envelope that a builder makes with a payload. -/
theorem build_eq_ok {header : ProtectedHeader} {payload : Payload} {envelope : Envelope}
    (hheader : builder.protectedHeader = some header)
    (hpayload : (setPayload payload).onto builder = .ok next) (h : next.build = .ok envelope) :
    envelope = ⟨header, builder.unprotected, builder.recipients, builder.aad, payload,
      builder.flatten⟩ := by
  obtain ⟨-, -, rfl⟩ := setPayload_eq_ok_iff.1 hpayload
  refine ((build_eq_ok_iff ?_ ?_).1 h).2
  · exact hheader
  · rfl

/-- The headers that a builder was given can travel. -/
structure Portable (builder : Builder) : Prop where
  unprotected : ∀ header ∈ builder.unprotected, header.Portable
  recipients : ∀ recipient ∈ builder.recipients, recipient.header.Portable

theorem portable_empty : empty.Portable := ⟨nofun, nofun⟩

end Builder

namespace Envelope

variable {envelope : Envelope} {builder : Builder}

/-! ## Looking up entries -/

/-- The entry of a name is found, since there is only one. -/
theorem recipient?_eq_some (hkids : envelope.kids.Nodup) {entry : Recipient} {kid : String}
    (hmem : entry ∈ envelope.recipients) (hkid : entry.kid? = some kid) :
    envelope.recipient? kid = some entry := by
  unfold kids at hkids
  unfold recipient?
  generalize envelope.recipients = entries at hkids hmem
  induction entries with
  | nil => cases hmem
  | cons other rest ih =>
    by_cases hother : other.kid? = some kid
    · rw [List.find?_cons_of_pos (by simpa using hother)]
      rcases List.mem_cons.1 hmem with rfl | hmem
      · rfl
      · rw [List.filterMap_cons_some hother, List.nodup_cons] at hkids
        exact absurd (List.mem_filterMap.2 ⟨entry, hmem, hkid⟩) hkids.1
    · rw [List.find?_cons_of_neg (by simpa using hother)]
      rcases List.mem_cons.1 hmem with rfl | hmem
      · exact absurd hkid hother
      · exact ih (hkids.sublist ((List.sublist_cons_self other rest).filterMap _)) hmem

/-- An envelope has an entry for each of its names. -/
theorem isSome_recipient?_iff {kid : String} :
    (envelope.recipient? kid).isSome = true ↔ kid ∈ envelope.kids := by
  rw [recipient?, List.find?_isSome, kids, List.mem_filterMap]
  simp only [decide_eq_true_eq]

/-- No entry is found exactly for the names that there are not. -/
theorem recipient?_eq_none_iff {kid : String} :
    envelope.recipient? kid = none ↔ kid ∉ envelope.kids := by
  rw [← isSome_recipient?_iff, Option.not_isSome_iff_eq_none]

theorem recipient?_eq_none {kid : String}
    (h : ∀ entry ∈ envelope.recipients, entry.kid? ≠ some kid) :
    envelope.recipient? kid = none := by
  rw [recipient?_eq_none_iff, kids, List.mem_filterMap]
  rintro ⟨entry, hmem, hkid⟩
  exact h entry hmem hkid

theorem kid?_ne_of_not_mem_kids {kid : String} (h : kid ∉ envelope.kids) :
    ∀ entry ∈ envelope.recipients, entry.kid? ≠ some kid :=
  fun entry hmem hkid => h (List.mem_filterMap.2 ⟨entry, hmem, hkid⟩)

/-! ## Sending -/

/-- What is true of an envelope that was made for recipients, with an entry for each of
which `made` holds. -/
structure Sent (builder : Builder) (recipients : List Identity) (header : Header)
    (made : Identity → Recipient → Prop) (key : ContentKey) (message : Bytes)
    (envelope : Envelope) : Prop where
  protectedHeader : envelope.protectedHeader = .ofHeader header
  unprotected : envelope.unprotected = builder.unprotected
  kids_nodup : builder.kids.Nodup → envelope.kids.Nodup
  exists_entry : ∀ recipient ∈ recipients, ∃ entry ∈ envelope.recipients, made recipient entry
  entry_cases : ∀ entry ∈ envelope.recipients,
    entry ∈ builder.recipients ∨ ∃ recipient, made recipient entry
  opens : key.decrypt envelope.payload envelope.associatedData = .ok message

/-- The ways in which an envelope gets to those who open it: as it is, and also as its text
if the headers that its builder was given can travel. -/
inductive Reaches (envelope : Envelope) (builder : Builder) : Source → Prop
  | parsed : Reaches envelope builder (.parsed envelope)
  | text (h : builder.Portable) : Reaches envelope builder (.text envelope.render)
  | octets (h : builder.Portable) :
      Reaches envelope builder (.octets (Bytes.ofText envelope.render))

namespace Sent

variable {recipients : List Identity} {header : Header} {made : Identity → Recipient → Prop}
  {key : ContentKey} {message : Bytes}

theorem header_eq (h : envelope.Sent builder recipients header made key message) :
    envelope.protectedHeader.header = header := by
  rw [h.protectedHeader]
  rfl

/-- The entry of a recipient is found under its name. -/
theorem exists_recipient? (h : envelope.Sent builder recipients header made key message)
    (hkids : builder.kids.Nodup) {recipient : Identity} (hmem : recipient ∈ recipients)
    (hkid : ∀ entry, made recipient entry → entry.kid? = some recipient.kid) :
    ∃ entry, envelope.recipient? recipient.kid = some entry ∧ made recipient entry := by
  obtain ⟨entry, hentry, hmade⟩ := h.exists_entry recipient hmem
  exact ⟨entry, recipient?_eq_some (h.kids_nodup hkids) hentry (hkid entry hmade), hmade⟩

/-- A sent envelope can travel if all of its headers can. -/
theorem portable (h : envelope.Sent builder recipients header made key message)
    (hbuilder : builder.Portable) (hkids : builder.kids.Nodup) (hheader : header.Portable)
    (hmade : ∀ recipient entry, made recipient entry → entry.header.Portable) :
    envelope.Portable where
  protectedHeader := by
    rw [h.protectedHeader]
    exact Header.ofEncoded_ofHeader (hheader.legible (by decide))
  unprotected := by
    rw [h.unprotected]
    exact hbuilder.unprotected
  recipients := by
    intro entry hmem
    rcases h.entry_cases entry hmem with hmem | ⟨recipient, hentry⟩
    · exact hbuilder.recipients entry hmem
    · exact hmade recipient entry hentry
  kids_nodup := h.kids_nodup hkids

/-- Whichever way an envelope takes, the same is read from it, as long as nothing depends on
the wish to have it flattened. -/
theorem bind_envelope (h : envelope.Sent builder recipients header made key message)
    (hkids : builder.kids.Nodup) (hheader : header.Portable)
    (hmade : ∀ recipient entry, made recipient entry → entry.header.Portable) {source : Source}
    (hsource : envelope.Reaches builder source) {read : Envelope → Except Error Bytes}
    (hread : read envelope.settled = read envelope) :
    (source.envelope >>= read) = read envelope := by
  have htext : builder.Portable → (ofText envelope.render >>= read) = read envelope := by
    intro hbuilder
    rw [ofText_render (h.portable hbuilder hkids hheader hmade)]
    exact hread
  cases hsource with
  | parsed => rfl
  | text hbuilder => exact htext hbuilder
  | octets hbuilder => exact htext hbuilder

end Sent

end Envelope
end SealedEnvelope
