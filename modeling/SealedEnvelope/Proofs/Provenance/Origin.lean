import SealedEnvelope.Proofs.Reading.Rewriting
import SealedEnvelope.Proofs.RoundTrip.Anoncrypt
import SealedEnvelope.Proofs.RoundTrip.Authcrypt
import SealedEnvelope.Proofs.RoundTrip.Built

/-!
# Where envelopes come from

An envelope is read from octets, or built step by step, or made by one of the two ways of
encrypting.  There is no other way to one (`Origin`).  Each of these ways sees to the names of
recipients by itself (`Origin.kids_nodup`), and each of them has its own relation between a
protected header and the text that it travels as (`Origin.Heads`).
-/

namespace SealedEnvelope

/-- What an envelope comes from.  Encryption may go on with a builder that has a history. -/
inductive Origin where
  | octets (text : Bytes)
  | builder (steps : List Builder.Step)
  | anoncrypt (steps : List Builder.Step) (recipients : List Identity) (message : Bytes)
      (random : Entropy)
  | authcrypt (steps : List Builder.Step) (recipients : List Identity) (sender : Identity)
      (message : Bytes) (random : Entropy)

namespace Origin

/-- The envelope that comes of it, or the failure.  Encryption may also go on for ever. -/
def envelope : Origin → Option (Except Error Envelope)
  | .octets text => some (Envelope.ofBytes text)
  | .builder steps => some (Builder.run .empty steps).build
  | .anoncrypt steps recipients message random =>
    (Anoncrypt.encryptInto (.run .empty steps) recipients message).outcome random
  | .authcrypt steps recipients sender message random =>
    (Authcrypt.encryptInto (.run .empty steps) recipients sender message).outcome random

/-- How the protected header of an envelope and its text belong together: a header that was read
came from its text, all others are written as theirs.  Encryption makes headers that can travel,
while a builder takes any. -/
inductive Heads : Origin → ProtectedHeader → Prop
  | read {text : Bytes} {head : ProtectedHeader}
      (h : ProtectedHeader.ofEncoded head.encoded = .ok head) : Heads (.octets text) head
  | given (steps : List Builder.Step) (header : Header) : Heads (.builder steps) (.ofHeader header)
  | made {origin : Origin} {header : Header} (h : header.Portable) : Heads origin (.ofHeader header)

variable {origin : Origin} {envelope : Envelope} {steps : List Builder.Step}
  {recipients : List Identity} {message : Bytes} {random : Entropy}

theorem exists_sent_of_anoncrypt
    (h : (anoncrypt steps recipients message random).envelope = some (.ok envelope)) :
    ∃ key, envelope.Sent (.run .empty steps) recipients Anoncrypt.protectedHeader
      (Anoncrypt.Makes key) key message := by
  obtain ⟨rest, hrun⟩ := Drawing.outcome_eq_some_iff.1 h
  obtain ⟨key, -, hsent⟩ := Anoncrypt.sent_of_gives ⟨random, rest, hrun⟩
  exact ⟨key, hsent⟩

theorem exists_sent_of_authcrypt {sender : Identity}
    (h : (authcrypt steps recipients sender message random).envelope = some (.ok envelope)) :
    ∃ ephemeral made key, envelope.Sent (.run .empty steps) recipients
      (Authcrypt.protectedHeader sender (Authcrypt.parties sender recipients) ephemeral) made key
      message := by
  obtain ⟨rest, hrun⟩ := Drawing.outcome_eq_some_iff.1 h
  obtain ⟨ephemeral, key, -, hsent⟩ := Authcrypt.sent_of_gives ⟨random, rest, hrun⟩
  exact ⟨ephemeral, _, key, hsent⟩

/-- No two recipients of an envelope have the same name, wherever it comes from. -/
theorem kids_nodup (h : origin.envelope = some (.ok envelope)) : envelope.kids.Nodup := by
  cases origin with
  | octets text => exact (Envelope.readFrom_of_ofBytes (Option.some.inj h)).kids_nodup
  | builder steps =>
    obtain ⟨-, hbuilder⟩ := Builder.eq_of_build (Option.some.inj h)
    have hkids := Builder.kids_nodup_run steps
    rwa [hbuilder] at hkids
  | anoncrypt steps recipients message random =>
    obtain ⟨key, hsent⟩ := exists_sent_of_anoncrypt h
    exact hsent.kids_nodup (Builder.kids_nodup_run steps)
  | authcrypt steps recipients sender message random =>
    obtain ⟨ephemeral, made, key, hsent⟩ := exists_sent_of_authcrypt h
    exact hsent.kids_nodup (Builder.kids_nodup_run steps)

theorem heads (h : origin.envelope = some (.ok envelope)) :
    origin.Heads envelope.protectedHeader := by
  cases origin with
  | octets text => exact .read (Envelope.readFrom_of_ofBytes (Option.some.inj h)).ofEncoded_eq
  | builder steps =>
    obtain ⟨-, hbuilder⟩ := Builder.eq_of_build (Option.some.inj h)
    obtain ⟨header, hheader⟩ :=
      Builder.exists_header_of_run (congrArg Builder.protectedHeader hbuilder)
    rw [hheader]
    exact .given steps header
  | anoncrypt steps recipients message random =>
    obtain ⟨key, hsent⟩ := exists_sent_of_anoncrypt h
    rw [hsent.protectedHeader]
    exact .made Anoncrypt.portable_protectedHeader
  | authcrypt steps recipients sender message random =>
    obtain ⟨ephemeral, made, key, hsent⟩ := exists_sent_of_authcrypt h
    rw [hsent.protectedHeader]
    exact .made (Authcrypt.portable_protectedHeader _ _ _)

/-- What a protected header travels as is base64url text. -/
theorem Heads.exists_decode {head : ProtectedHeader} (h : origin.Heads head) :
    ∃ octets, Text.Base64Url.decode head.encoded = .ok octets := by
  cases h with
  | read hread =>
    unfold ProtectedHeader.ofEncoded at hread
    split at hread
    · cases hread
    · next octets hdecode => exact ⟨octets, hdecode⟩
  | given steps header => exact ⟨_, Text.Base64Url.decode_encode _⟩
  | made hportable => exact ⟨_, Text.Base64Url.decode_encode _⟩

end Origin
end SealedEnvelope
