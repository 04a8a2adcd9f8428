import SealedEnvelope.Proofs.Building.History
import SealedEnvelope.Proofs.Reading.Records
import SealedEnvelope.Proofs.Reading.Same
import SealedEnvelope.Proofs.RoundTrip.Envelope

/-!
# Envelopes that were built, there and back

A builder and a reader see to the same things, each in its own way: the reader looks at all
names at once, the builder at one recipient after the other.  So whatever is built is read back
from its text, after any history of the builder (`Builder.ofText_render_of_build`).

The one thing that gets lost is the wish to have several recipients flattened.  It has no effect
on the text, and it is the only way for an envelope to differ from the one that is read back.
-/

namespace SealedEnvelope

open Json (Tree Token)

/-- A tree is an object that has a member of the given name. -/
def Json.Tree.HasMember (name : String) : Tree → Prop
  | .object members _ => some name ∈ members.map Prod.fst
  | _ => False

theorem Json.Tree.hasMember_ofJson_iff {name : String} {members : Json.Members} :
    (ofJson (.object members)).HasMember name ↔ name ∈ members.map Prod.fst := by
  rw [ofJson, HasMember, ofMembers_eq_map, List.map_map]
  simp

theorem Header.Portable.same_self {header : Header} (h : header.Portable) :
    header.same header = true :=
  Json.same_self header.toJson h.integral h.distinct

namespace Envelope

variable {envelope : Envelope}

/-- All headers of an envelope. -/
def headers (envelope : Envelope) : List Header :=
  envelope.protectedHeader.header ::
    (envelope.unprotected.toList ++ envelope.recipients.map Recipient.header)

theorem forall_mem_headers {P : Header → Prop} :
    (∀ header ∈ envelope.headers, P header) ↔
      P envelope.protectedHeader.header ∧ (∀ header ∈ envelope.unprotected, P header) ∧
        ∀ recipient ∈ envelope.recipients, P recipient.header := by
  rw [headers, List.forall_mem_cons, List.forall_mem_append, List.forall_mem_map]
  simp only [Option.mem_toList, Option.mem_def]

/-! ## The wish to be flattened -/

/-- What is lost has no effect on the text. -/
theorem render_settled (envelope : Envelope) : envelope.settled.render = envelope.render := by
  obtain ⟨_, _, recipients, _, _, flattened⟩ := envelope
  cases flattened with
  | false => rfl
  | true =>
    rcases recipients with _ | ⟨recipient, _ | ⟨next, recipients⟩⟩
    · rfl
    · rfl
    · rfl

theorem all_zip_self {α : Type} {p : α × α → Bool} {items : List α}
    (h : ∀ item ∈ items, p (item, item) = true) : (items.zip items).all p = true := by
  rw [List.zip, List.zipWith_self, List.all_map, List.all_eq_true]
  exact h

/-- An envelope is the same as the one without a wish that has no effect, unless it has such a
wish. -/
theorem same_settled (h : ∀ header ∈ envelope.headers, header.Portable) :
    envelope.settled.same envelope = decide (envelope.settled.flattened = envelope.flattened) := by
  obtain ⟨hprotected, hunprotected, hrecipients⟩ := forall_mem_headers.1 h
  obtain ⟨protectedHeader, unprotected, recipients, aad, payload, flattened⟩ := envelope
  have hheader : protectedHeader.same protectedHeader = true := by
    rw [ProtectedHeader.same, decide_eq_true rfl, hprotected.same_self]
    rfl
  have hrecipient : ∀ recipient ∈ recipients, recipient.same recipient = true := by
    intro recipient hmem
    rw [Recipient.same, (hrecipients recipient hmem).same_self]
    exact decide_eq_true rfl
  simp only [same, settled, hheader, decide_true, Bool.and_true, Bool.true_and]
  rw [all_zip_self hrecipient, Bool.and_true]
  cases unprotected with
  | none => rfl
  | some header =>
    show (header.same header && _) = _
    rw [(hunprotected header rfl).same_self, Bool.true_and]

/-- The text has a list of recipients unless there is a single one and the envelope is
flattened. -/
theorem recipients_mem_toMembers_iff (hne : envelope.recipients ≠ []) :
    "recipients" ∈ envelope.toMembers.map Prod.fst ↔
      envelope.flattened = false ∨ 1 < envelope.recipients.length := by
  obtain ⟨_, unprotected, recipients, aad, _, flattened⟩ := envelope
  cases unprotected <;> cases aad <;> cases flattened <;>
    rcases recipients with _ | ⟨recipient, _ | ⟨next, recipients⟩⟩ <;>
    first
      | exact absurd rfl hne
      | simp [toMembers, recipientMembers]

end Envelope

namespace Builder

variable {steps : List Step} {envelope : Envelope}

/-- A protected header that was set is written by the builder. -/
theorem exists_header_of_run {protectedHeader : ProtectedHeader}
    (h : (empty.run steps).protectedHeader = some protectedHeader) :
    ∃ header, protectedHeader = .ofHeader header := by
  rw [protectedHeader_run, empty, Option.none_or] at h
  obtain ⟨step, -, hstep⟩ := List.exists_of_findSome?_eq_some h
  obtain ⟨header, -, rfl⟩ := Option.map_eq_some_iff.1 hstep
  exact ⟨header, rfl⟩

/-- An envelope that was built can travel if its headers can. -/
theorem portable_of_build (hbuild : (empty.run steps).build = .ok envelope)
    (h : ∀ header ∈ envelope.headers, header.Portable) : envelope.Portable := by
  obtain ⟨-, hbuilder⟩ := eq_of_build hbuild
  obtain ⟨hprotected, hunprotected, hrecipients⟩ := Envelope.forall_mem_headers.1 h
  have hkids := kids_nodup_run steps
  obtain ⟨header, hheader⟩ := exists_header_of_run (congrArg Builder.protectedHeader hbuilder)
  rw [hbuilder] at hkids
  rw [hheader] at hprotected
  exact
    { protectedHeader := by
        rw [hheader]
        exact Header.ofEncoded_ofHeader (hprotected.legible (by decide))
      unprotected := hunprotected
      recipients := hrecipients
      kids_nodup := hkids }

/-- **Whatever is built is read back**, after any history of the builder, if the headers can
travel.  The envelope that is read has the same parts, is bound to the same, has the same entry
for everyone and is written as the same text.  It is the same envelope, except for the wish to
have several recipients flattened.  The text has a list of recipients unless a single one was to
be flattened. -/
theorem ofText_render_of_build (hbuild : (empty.run steps).build = .ok envelope)
    (h : ∀ header ∈ envelope.headers, header.Portable) :
    let flatten := (empty.run steps).flatten
    let text := Bytes.ofText envelope.render
    (∃ read, Envelope.ofText envelope.render = .ok read ∧
      read.protectedHeader = envelope.protectedHeader ∧ read.unprotected = envelope.unprotected ∧
      read.recipients = envelope.recipients ∧ read.aad = envelope.aad ∧
      read.payload = envelope.payload ∧
      read.associatedData = envelope.associatedData ∧
      (∀ kid, read.recipient? kid = envelope.recipient? kid) ∧
      read.render = envelope.render ∧
      (read.same envelope = false ↔ flatten = true ∧ 1 < envelope.recipients.length)) ∧
    ((Tree.build (Token.scan text)).1.HasMember "recipients" ↔
      flatten = false ∨ 1 < envelope.recipients.length) := by
  intro flatten text
  have hportable := portable_of_build hbuild h
  obtain ⟨hne, hbuilder⟩ := eq_of_build hbuild
  have hflatten : flatten = envelope.flattened := congrArg Builder.flatten hbuilder
  rw [hbuilder] at hne
  refine ⟨⟨envelope.settled, Envelope.ofText_render hportable, rfl, rfl, rfl, rfl, rfl, rfl,
    fun _ => rfl, envelope.render_settled, ?_⟩, ?_⟩
  · have hpos : 0 < envelope.recipients.length := List.length_pos_iff.2 hne
    rw [Envelope.same_settled h, hflatten, Envelope.settled, decide_eq_false_iff_not]
    cases envelope.flattened with
    | false => simp
    | true =>
      simp only [Bool.true_and, decide_eq_true_eq, true_and]
      omega
  · have htree : (Tree.build (Token.scan text)).1 = .ofJson (.object envelope.toMembers) := by
      show (Tree.build (Token.scan (Bytes.ofText (Json.object envelope.toMembers).render))).1 = _
      rw [Token.scan_render (Envelope.integral_toMembers hportable.legible), Tree.build_tokens]
    rw [htree, Tree.hasMember_ofJson_iff, Envelope.recipients_mem_toMembers_iff hne, hflatten]

/-- Two recipients, one of which has no name and an empty header, of an envelope that was to be
flattened.  Its payload is empty, and the last step comes too late. -/
theorem ofText_render_of_build_two :
    let header : Header := ⟨[("typ", .string "a\"b"), ("n", .number (.integer ⟨7, by decide⟩))]⟩
    let unnamed : Recipient := ⟨.empty, []⟩
    let bob : Recipient := ⟨⟨[("kid", .string "bob")]⟩, [1, 2]⟩
    let steps : List Step := [.flatten true, .recipient unnamed, .aad [255],
      .protectedHeader header, .payload ⟨[], [], []⟩, .recipient bob, .aad [1]]
    ∃ envelope read, (empty.run steps).build = .ok envelope ∧
      Envelope.ofText envelope.render = .ok read ∧ read.recipients = [unnamed, bob] ∧
      read.recipient? "bob" = envelope.recipient? "bob" ∧ read.render = envelope.render ∧
      read.same envelope = false ∧
      (Tree.build (Token.scan (Bytes.ofText envelope.render))).1.HasMember "recipients" := by
  intro header unnamed bob steps
  have hbuild : (empty.run steps).build = .ok ⟨.ofHeader header, none, [unnamed, bob],
      some (Text.Base64Url.encode [255]), ⟨[], [], []⟩, true⟩ := rfl
  have hheader : header.Portable :=
    ⟨⟨trivial, trivial, trivial⟩, ⟨by decide, trivial, trivial, trivial⟩, by decide⟩
  have hunnamed : unnamed.header.Portable := ⟨trivial, ⟨by decide, trivial⟩, by decide⟩
  have hbob : bob.header.Portable := ⟨⟨trivial, trivial⟩, ⟨by decide, trivial, trivial⟩, by decide⟩
  obtain ⟨⟨read, hread, -, -, hrecipients, -, -, -, hfind, hrender, hsame⟩, hlist⟩ :=
    ofText_render_of_build hbuild
      (Envelope.forall_mem_headers.2 ⟨hheader, nofun, by simp [hunnamed, hbob]⟩)
  exact ⟨_, read, hbuild, hread, hrecipients, hfind "bob", hrender,
    hsame.2 ⟨rfl, by decide⟩, hlist.2 (.inr (by decide))⟩

end Builder

end SealedEnvelope
