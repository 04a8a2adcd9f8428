import SealedEnvelope.Authcrypt
import SealedEnvelope.Proofs.Drawing
import SealedEnvelope.Proofs.Key.Generation
import SealedEnvelope.Proofs.RoundTrip.Sent
import SealedEnvelope.Proofs.Sending.Entries
import SealedEnvelope.Proofs.Sending.Wrapping

/-!
# What sender authenticated encryption makes

`Authcrypt.encryptInto_eq_ok_iff` says exactly when a message is encrypted and what comes out.
Three things go into it.

* `Admits`: what is asked of the builder, of the sender and of the recipients before anything
  is drawn.
* `Seals`: the keys that are drawn and the payload that is sealed.  Of the recipients this
  depends on their joined names only, and no octet is drawn for a single recipient.
* the entries, one for each recipient, which is wrapped or not whatever the other ones are.

Whether the entries are wrapped can be said of the keys: a message is encrypted if `Feasible` holds,
and otherwise `Fault` says with which error it fails (`Authcrypt.Fault.outcome_encryptInto`).  The
protected header comes before the entries here, and the ephemeral key before both: if that one
never comes, encryption never ends (`Authcrypt.Endless`).
-/

namespace SealedEnvelope

namespace Authcrypt

variable {builder extended : Builder} {recipients : List Identity} {sender : Identity}
  {message : Bytes} {envelope : Envelope} {random rest : Entropy}

/-! ## Entries -/

theorem addEntries_eq_addEach (make : Identity → Except Error Recipient) (builder : Builder)
    (recipients : List Identity) :
    addEntries make builder recipients = builder.addEach make recipients := by
  induction recipients generalizing builder with
  | nil => rfl
  | cons recipient recipients ih =>
    simp only [addEntries, Builder.addEach, ih]

theorem kid?_of_entry {parties : Agreement} {ephemeral : Key} {contentKey : ContentKey}
    {tag : Bytes} (recipient : Identity) (made : Recipient)
    (h : entry parties sender ephemeral contentKey tag recipient = .ok made) :
    made.kid? = some recipient.kid := by
  unfold entry at h
  split at h <;> cases h
  rfl

theorem error_of_entry {parties : Agreement} {ephemeral : Key} {contentKey : ContentKey}
    {tag : Bytes} (recipient : Identity) (cause : Error)
    (h : entry parties sender ephemeral contentKey tag recipient = .error cause) :
    cause = .encryptionFailed .keyWrap := by
  unfold entry at h
  split at h <;> cases h
  rfl

/-- What is made of a recipient has its name, if anything is made. -/
theorem making_entry (parties : Agreement) (sender : Identity) (ephemeral : Key)
    (contentKey : ContentKey) (tag : Bytes) (recipients : List Identity) :
    let make := entry parties sender ephemeral contentKey tag
    Builder.Making make (·.kid) (fun recipient => ∃ made, make recipient = .ok made) recipients :=
  ⟨fun _ _ => Iff.rfl, kid?_of_entry, error_of_entry⟩

/-- Entries are added exactly if one can be made for each recipient and all names are new. -/
theorem addEntries_eq_ok_iff {parties : Agreement} {ephemeral : Key} {contentKey : ContentKey}
    {tag : Bytes} :
    let make := entry parties sender ephemeral contentKey tag
    addEntries make builder recipients = .ok extended ↔
      (recipients.map (·.kid)).Nodup ∧ (∀ recipient ∈ recipients, recipient.kid ∉ builder.kids) ∧
        (∀ recipient ∈ recipients, ∃ made, make recipient = .ok made) ∧
        extended = { builder with
          recipients := builder.recipients ++ recipients.map (Builder.entryOf make) } := by
  intro make
  rw [addEntries_eq_addEach, Builder.addEach_eq_ok_iff (making_entry _ _ _ _ _ _)]
  constructor
  · rintro ⟨⟨hmakes, hnodup, hnew⟩, rfl⟩
    exact ⟨hnodup, hnew, hmakes, rfl⟩
  · rintro ⟨hnodup, hnew, hmakes, rfl⟩
    exact ⟨⟨hmakes, hnodup, hnew⟩, rfl⟩

/-! ## Conditions -/

/-- What is asked of the builder, of the sender and of the recipients. -/
structure Admits (builder : Builder) (sender : Identity) (recipients : List Identity) : Prop where
  recipients_ne_nil : recipients ≠ []
  hasSecret : sender.hasSecret = true
  supportsAgreement : sender.algorithm.supportsAgreement = true
  same_algorithm : ∀ recipient ∈ recipients, recipient.algorithm = sender.algorithm
  kids_nodup : (recipients.map (·.kid)).Nodup
  kids_new : ∀ recipient ∈ recipients, recipient.kid ∉ builder.kids
  protectedHeader_eq : builder.protectedHeader = none
  payload_eq : builder.payload = none

theorem requireAgreement_eq_ok_iff {identity : Identity} :
    Anoncrypt.requireAgreement identity = .ok () ↔
      identity.algorithm.supportsAgreement = true := by
  rw [Anoncrypt.requireAgreement]
  split
  · next h => exact ⟨fun _ => h, fun _ => rfl⟩
  · next h => exact ⟨nofun, fun h' => absurd h' h⟩

theorem requireSameAlgorithm_eq_ok_iff :
    requireSameAlgorithm sender recipients = .ok () ↔
      ∀ recipient ∈ recipients, recipient.algorithm = sender.algorithm := by
  rw [requireSameAlgorithm]
  split
  · next h => exact ⟨fun _ => by simpa using h, fun _ => rfl⟩
  · next h => exact ⟨nofun, fun h' => absurd (by simpa using h') h⟩

/-! ## Drawing and sealing -/

/-- The keys that are drawn for a message, and the payload that is sealed. -/
inductive Seals (sender : Identity) (parties : Agreement) (aad : Option String) (message : Bytes)
    (random : Entropy) : Key → ContentKey → Payload → Entropy → Prop
  | intro {ephemeral : Key} {contentKey : ContentKey} {payload : Payload}
      {second third rest : Entropy}
      (hephemeral : (Key.generate sender.algorithm).run random = some (ephemeral, second))
      (hkey : (ContentKey.generate encryption).run second = some (contentKey, third))
      (hpayload : (contentKey.encrypt message (associatedData
        (.ofHeader (protectedHeader sender parties ephemeral)) aad)).run.run third =
          some (.ok payload, rest)) :
      Seals sender parties aad message random ephemeral contentKey payload rest

/-- **Exactly when a message is encrypted, and what comes out.** -/
theorem encryptInto_eq_ok_iff :
    (encryptInto builder recipients sender message).run.run random = some (.ok envelope, rest) ↔
      Admits builder sender recipients ∧ ∃ ephemeral contentKey payload,
        Seals sender (parties sender recipients) builder.aad message random ephemeral contentKey
          payload rest ∧
        (∀ recipient ∈ recipients, ∃ made, entry (parties sender recipients) sender ephemeral
          contentKey payload.tag recipient = .ok made) ∧
        envelope =
          { protectedHeader :=
              .ofHeader (protectedHeader sender (parties sender recipients) ephemeral)
            unprotected := builder.unprotected
            recipients := builder.recipients ++ recipients.map (Builder.entryOf
              (entry (parties sender recipients) sender ephemeral contentKey payload.tag))
            aad := builder.aad
            payload := payload
            flattened := builder.flatten } := by
  unfold encryptInto
  dsimp only
  by_cases hempty : recipients.isEmpty = true
  · rw [if_pos hempty]
    refine ⟨nofun, fun ⟨hadmits, _⟩ => ?_⟩
    exact absurd (List.isEmpty_iff.1 hempty) hadmits.recipients_ne_nil
  rw [if_neg hempty]
  have hne : recipients ≠ [] := fun h => hempty (List.isEmpty_iff.2 h)
  simp only [Drawing.run_bind_eq_ok_iff, Drawing.run_liftM_eq_ok_iff, Drawing.run_draw_eq_ok_iff,
    Drawing.run_failingWith_eq_ok_iff]
  constructor
  · rintro ⟨_, _, ⟨hsecret, rfl⟩, _, _, ⟨hagreement, rfl⟩, _, _, ⟨hsame, rfl⟩, ephemeral, second,
      hephemeral, bound, _, ⟨hbound, rfl⟩, contentKey, third, hkey, aad, _, ⟨haad, rfl⟩, payload,
      fourth, hpayload, extended, _, ⟨hextended, rfl⟩, filled, _, ⟨hfilled, rfl⟩, hbuild, rfl⟩
    obtain ⟨hheader, rfl⟩ := Builder.setProtected_eq_ok_iff.1 hbound
    obtain rfl := Builder.associatedData_eq_ok rfl haad
    obtain ⟨hnodup, hnew, hmakes, rfl⟩ := addEntries_eq_ok_iff.1 hextended
    obtain ⟨-, hempty', rfl⟩ := Builder.setPayload_eq_ok_iff.1 hfilled
    obtain ⟨-, rfl⟩ := (Builder.build_eq_ok_iff rfl rfl).1 hbuild
    have hadmits : Admits builder sender recipients :=
      { recipients_ne_nil := hne
        hasSecret := requireSecret_eq_ok_iff.1 hsecret
        supportsAgreement := requireAgreement_eq_ok_iff.1 hagreement
        same_algorithm := requireSameAlgorithm_eq_ok_iff.1 hsame
        kids_nodup := hnodup
        kids_new := hnew
        protectedHeader_eq := hheader
        payload_eq := hempty' }
    exact ⟨hadmits, ephemeral, contentKey, payload, .intro hephemeral hkey hpayload, hmakes, rfl⟩
  · rintro ⟨hadmits, ephemeral, contentKey, payload, ⟨hephemeral, hkey, hpayload⟩, hmakes, rfl⟩
    refine ⟨(), _, ⟨requireSecret_eq_ok_iff.2 hadmits.hasSecret, rfl⟩,
      (), _, ⟨requireAgreement_eq_ok_iff.2 hadmits.supportsAgreement, rfl⟩,
      (), _, ⟨requireSameAlgorithm_eq_ok_iff.2 hadmits.same_algorithm, rfl⟩,
      ephemeral, _, hephemeral,
      _, _, ⟨Builder.setProtected_eq_ok_iff.2 ⟨hadmits.protectedHeader_eq, rfl⟩, rfl⟩,
      contentKey, _, hkey, _, _, ⟨rfl, rfl⟩, payload, _, hpayload,
      _, _, ⟨addEntries_eq_ok_iff.2
        ⟨hadmits.kids_nodup, hadmits.kids_new, hmakes, rfl⟩, rfl⟩,
      _, _, ⟨Builder.setPayload_eq_ok_iff.2 ⟨rfl, hadmits.payload_eq, rfl⟩, rfl⟩, ?_, rfl⟩
    exact (Builder.build_eq_ok_iff rfl rfl).2 ⟨by simp [hne], rfl⟩

/-- The names in an envelope are those of the builder, and behind them those of the recipients. -/
theorem kids_of_encryptInto
    (h : (encryptInto builder recipients sender message).run.run random =
      some (.ok envelope, rest)) :
    envelope.kids = builder.kids ++ recipients.map (·.kid) := by
  obtain ⟨-, ephemeral, contentKey, payload, -, hmakes, rfl⟩ := encryptInto_eq_ok_iff.1 h
  show (builder.recipients ++ _).filterMap Recipient.kid? = _
  rw [List.filterMap_append, (making_entry _ _ _ _ _ _).kids_eq hmakes]
  rfl

/-! ## Faults -/

/-- The ephemeral key, which is drawn first, if one is. -/
def ephemeral? (sender : Identity) (random : Entropy) : Option Key :=
  ((Key.generate sender.algorithm).run random).map Prod.fst

/-- The content key is wrapped for a recipient. -/
structure Wraps (parties : Agreement) (sender : Identity) (ephemeral : Key)
    (recipient : Identity) : Prop where
  /-- The names go into the wrapping key behind their lengths, which have four octets. -/
  fits : parties.Fits
  ephemeral : ¬ephemeral.Vanishes recipient.key
  static : ¬sender.key.Vanishes recipient.key

/-- What is asked of the sender and of the recipients before anything is drawn. -/
structure Agrees (sender : Identity) (recipients : List Identity) : Prop where
  recipients_ne_nil : recipients ≠ []
  hasSecret : sender.hasSecret = true
  algorithm_ne : sender.algorithm ≠ .ed25519
  same_algorithm : ∀ recipient ∈ recipients, recipient.algorithm = sender.algorithm

/-- What is asked of the builder, of the sender, of the recipients and of the key that is drawn. -/
structure Feasible (builder : Builder) (sender : Identity) (recipients : List Identity)
    (random : Entropy) : Prop where
  agrees : Agrees sender recipients
  protectedHeader_eq : builder.protectedHeader = none
  exists_ephemeral : ∃ ephemeral, ephemeral? sender random = some ephemeral ∧
    Builder.Addable builder.kids (·.kid) (Wraps (parties sender recipients) sender ephemeral)
      recipients

/-- For secp256k1 keys, which share a secret in any case, only the names count. -/
theorem Feasible.of_secp256k1 (hagrees : Agrees sender recipients)
    (halgorithm : sender.algorithm = .secp256k1) (hfits : (parties sender recipients).Fits)
    (hnodup : (recipients.map (·.kid)).Nodup)
    (hnew : ∀ recipient ∈ recipients, recipient.kid ∉ builder.kids) {ephemeral : Key}
    (hephemeral : ephemeral? sender random = some ephemeral)
    (hheader : builder.protectedHeader = none) : Feasible builder sender recipients random where
  agrees := hagrees
  protectedHeader_eq := hheader
  exists_ephemeral := by
    refine ⟨ephemeral, hephemeral, fun recipient hmem => ?_, hnodup, hnew⟩
    have hne : recipient.key.algorithm ≠ .x25519 := fun h => by
      cases h.symm.trans ((hagrees.same_algorithm recipient hmem).trans halgorithm)
    exact ⟨hfits, Key.not_vanishes_of_algorithm_ne hne, Key.not_vanishes_of_algorithm_ne hne⟩

/-- What goes wrong first. -/
inductive Fault (builder : Builder) (sender : Identity) (recipients : List Identity)
    (random : Entropy) : Error → Prop
  | noRecipients (hnil : recipients = []) :
      Fault builder sender recipients random .noRecipients
  | missingSecret (hne : recipients ≠ []) (hsecret : sender.hasSecret = false) :
      Fault builder sender recipients random (.missingSecret sender.kid)
  | unsupported (hne : recipients ≠ []) (hsecret : sender.hasSecret = true)
      (halgorithm : sender.algorithm = .ed25519) :
      Fault builder sender recipients random
        (.unsupportedAlgorithm (.recipientAgreement sender.algorithm sender.kid))
  | inconsistent (hne : recipients ≠ []) (hsecret : sender.hasSecret = true)
      (halgorithm : sender.algorithm ≠ .ed25519) {recipient : Identity}
      (hmem : recipient ∈ recipients) (hother : recipient.algorithm ≠ sender.algorithm) :
      Fault builder sender recipients random .inconsistentRecipients
  | protectedHeader (hagrees : Agrees sender recipients) {ephemeral : Key}
      (hephemeral : ephemeral? sender random = some ephemeral)
      (hset : builder.protectedHeader.isSome = true) :
      Fault builder sender recipients random (.configuration .protectedHeaderAlreadySet)
  | entry (hagrees : Agrees sender recipients) {ephemeral : Key}
      (hephemeral : ephemeral? sender random = some ephemeral)
      (hheader : builder.protectedHeader = none) {cause : Error}
      (hfault : Builder.EntryFault builder.kids (·.kid)
        (Wraps (parties sender recipients) sender ephemeral) recipients cause) :
      Fault builder sender recipients random cause

/-- Nothing goes wrong until the ephemeral key is to be drawn, and that one never comes. -/
structure Endless (sender : Identity) (recipients : List Identity) (random : Entropy) : Prop where
  agrees : Agrees sender recipients
  ephemeral?_eq_none : ephemeral? sender random = none

/-- Nothing goes wrong, or something goes wrong first, or a key never comes. -/
theorem feasible_or_endless_or_exists_fault (builder : Builder) (sender : Identity)
    (recipients : List Identity) (random : Entropy) :
    Feasible builder sender recipients random ∨ Endless sender recipients random ∨
      ∃ error, Fault builder sender recipients random error := by
  by_cases hne : recipients = []
  · exact .inr (.inr ⟨_, .noRecipients hne⟩)
  by_cases hsecret : sender.hasSecret = true
  · by_cases halgorithm : sender.algorithm = .ed25519
    · exact .inr (.inr ⟨_, .unsupported hne hsecret halgorithm⟩)
    by_cases hsame : ∀ recipient ∈ recipients, recipient.algorithm = sender.algorithm
    · have hagrees : Agrees sender recipients := ⟨hne, hsecret, halgorithm, hsame⟩
      cases hephemeral : ephemeral? sender random with
      | none => exact .inr (.inl ⟨hagrees, hephemeral⟩)
      | some ephemeral =>
        cases hheader : builder.protectedHeader with
        | some header =>
          exact .inr (.inr ⟨_, .protectedHeader hagrees hephemeral (by rw [hheader]; rfl)⟩)
        | none =>
          rcases Builder.addable_or_exists_fault builder.kids (·.kid)
            (Wraps (parties sender recipients) sender ephemeral) recipients with
            haddable | ⟨cause, hfault⟩
          · exact .inl ⟨hagrees, hheader, ephemeral, hephemeral, haddable⟩
          · exact .inr (.inr ⟨cause, .entry hagrees hephemeral hheader hfault⟩)
    · simp only [not_forall, exists_prop] at hsame
      obtain ⟨recipient, hmem, hother⟩ := hsame
      exact .inr (.inr ⟨_, .inconsistent hne hsecret halgorithm hmem hother⟩)
  · exact .inr (.inr ⟨_, .missingSecret hne (by simpa using hsecret)⟩)

/-! ## Outcomes -/

/-- From ones an ephemeral key is drawn. -/
theorem exists_ephemeral?_ones (sender : Identity) (used : Nat) :
    ∃ ephemeral, ephemeral? sender (.repeating 1 used) = some ephemeral := by
  obtain ⟨ephemeral, hephemeral⟩ := Key.exists_generate_ones sender.algorithm used
  exact ⟨ephemeral, by rw [ephemeral?, hephemeral]; rfl⟩

theorem exists_generate {ephemeral : Key} (h : ephemeral? sender random = some ephemeral) :
    ∃ second, (Key.generate sender.algorithm).run random = some (ephemeral, second) := by
  obtain ⟨⟨_, second⟩, hrun, rfl⟩ := Option.map_eq_some_iff.1 h
  exact ⟨second, hrun⟩

/-- With an ephemeral key the message is sealed, whatever the recipients are. -/
theorem exists_seals {ephemeral : Key} (h : ephemeral? sender random = some ephemeral)
    (parties : Agreement) (aad : Option String) (message : Bytes) :
    ∃ contentKey payload rest, payload.tag.length < 0x100000000 ∧
      Seals sender parties aad message random ephemeral contentKey payload rest := by
  obtain ⟨second, hephemeral⟩ := exists_generate h
  obtain ⟨contentKey, third, hkey⟩ : ∃ contentKey third,
      (ContentKey.generate encryption).run second = some (contentKey, third) := ⟨_, _, rfl⟩
  obtain ⟨payload, hpayload⟩ := contentKey.exists_encrypt message
    (associatedData (.ofHeader (protectedHeader sender parties ephemeral)) aad) third
  exact ⟨contentKey, payload, _, ContentKey.length_tag_lt ⟨_, _, hpayload⟩,
    .intro hephemeral hkey hpayload⟩

theorem exists_entry_iff {parties : Agreement} {ephemeral : Key} {contentKey : ContentKey}
    {tag : Bytes} {recipient : Identity} :
    (∃ made, entry parties sender ephemeral contentKey tag recipient = .ok made) ↔
      ∃ wrapped, Ecdh1Pu.wrapKey parties keyWrap ephemeral sender.key recipient.key contentKey tag =
        .ok wrapped := by
  unfold entry
  cases Ecdh1Pu.wrapKey parties keyWrap ephemeral sender.key recipient.key contentKey tag with
  | error cause => exact ⟨nofun, nofun⟩
  | ok wrapped => exact ⟨fun _ => ⟨_, rfl⟩, fun _ => ⟨_, rfl⟩⟩

theorem Agrees.making (h : Agrees sender recipients) {ephemeral : Key}
    (hephemeral : ephemeral? sender random = some ephemeral) (parties : Agreement)
    (contentKey : ContentKey) {tag : Bytes} (htag : tag.length < 0x100000000) :
    Builder.Making (entry parties sender ephemeral contentKey tag) (·.kid)
      (Wraps parties sender ephemeral) recipients where
  exists_iff recipient hmem := by
    have hsame := h.same_algorithm recipient hmem
    obtain ⟨second, hgenerate⟩ := exists_generate hephemeral
    obtain ⟨halgorithm, hsecret⟩ := Key.of_generate hgenerate
    have hsupports : recipient.algorithm.supportsAgreement = true := by
      rw [hsame]
      exact Algorithm.supportsAgreement_iff.2 h.algorithm_ne
    rw [exists_entry_iff, Ecdh1Pu.exists_wrapKey_iff htag,
      Key.exists_exchange_iff hsecret (halgorithm.trans hsame.symm) hsupports,
      Key.exists_exchange_iff h.hasSecret hsame.symm hsupports]
    exact ⟨fun ⟨hfits, hephemeral, hstatic⟩ => ⟨hfits, hephemeral, hstatic⟩,
      fun ⟨hfits, hephemeral, hstatic⟩ => ⟨hfits, hephemeral, hstatic⟩⟩
  kid?_eq := kid?_of_entry
  error_eq := error_of_entry

/-- **The envelope that comes out if nothing goes wrong** has the entries of the recipients behind
those of the builder. -/
theorem Feasible.exists_run_encryptInto (h : Feasible builder sender recipients random)
    (hpayload : builder.payload = none) (message : Bytes) :
    ∃ envelope rest, (encryptInto builder recipients sender message).run.run random =
      some (.ok envelope, rest) := by
  obtain ⟨ephemeral, hephemeral, haddable⟩ := h.exists_ephemeral
  obtain ⟨contentKey, payload, rest, htag, hseals⟩ :=
    exists_seals hephemeral (parties sender recipients) builder.aad message
  have hmaking := h.agrees.making hephemeral (parties sender recipients) contentKey htag
  refine ⟨_, rest, encryptInto_eq_ok_iff.2 ⟨?_, _, contentKey, payload, hseals, ?_, rfl⟩⟩
  · exact
      { recipients_ne_nil := h.agrees.recipients_ne_nil
        hasSecret := h.agrees.hasSecret
        supportsAgreement := Algorithm.supportsAgreement_iff.2 h.agrees.algorithm_ne
        same_algorithm := h.agrees.same_algorithm
        kids_nodup := haddable.names_nodup
        kids_new := haddable.names_new
        protectedHeader_eq := h.protectedHeader_eq
        payload_eq := hpayload }
  · intro recipient hmem
    exact (hmaking.exists_iff recipient hmem).2 (haddable.wraps recipient hmem)

/-- What is left to do when the ephemeral key is drawn. -/
def finish (sender : Identity) (recipients : List Identity) (message : Bytes) (builder : Builder)
    (ephemeral : Key) : Drawing Envelope := do
  let parties := parties sender recipients
  let builder ← (Builder.setProtected (protectedHeader sender parties ephemeral)).onto builder
  let contentKey ← ContentKey.generate encryption
  let aad ← builder.associatedData
  let payload ← (contentKey.encrypt message aad).failingWith (.encryptionFailed .content)
  let builder ← addEntries (entry parties sender ephemeral contentKey payload.tag) builder
    recipients
  let builder ← (Builder.setPayload payload).onto builder
  builder.build

/-- With a sender and recipients that can agree, encryption draws the ephemeral key and goes on
with it. -/
theorem Agrees.run_encryptInto (h : Agrees sender recipients) (builder : Builder) (message : Bytes)
    (random : Entropy) :
    (encryptInto builder recipients sender message).run.run random =
      ((liftM (Key.generate sender.algorithm) : Drawing Key) >>=
        finish sender recipients message builder).run.run random := by
  have hsupports := Algorithm.supportsAgreement_iff.2 h.algorithm_ne
  unfold encryptInto
  dsimp only
  rw [if_neg (by simpa using h.recipients_ne_nil),
    Drawing.run_liftM_bind (requireSecret_eq_ok_iff.2 h.hasSecret),
    Drawing.run_liftM_bind (requireAgreement_eq_ok_iff.2 hsupports),
    Drawing.run_liftM_bind (requireSameAlgorithm_eq_ok_iff.2 h.same_algorithm)]
  rfl

/-- If the ephemeral key never comes, nothing does. -/
theorem Endless.outcome_encryptInto (h : Endless sender recipients random) (builder : Builder)
    (message : Bytes) : (encryptInto builder recipients sender message).outcome random = none := by
  rw [Drawing.outcome_eq_none_iff, h.agrees.run_encryptInto]
  exact Drawing.run_draw_bind_of_none (Option.map_eq_none_iff.1 h.ephemeral?_eq_none)

/-- With a protected header of its own the builder gives no envelope. -/
theorem outcome_finish_of_isSome {ephemeral : Key} (hset : builder.protectedHeader.isSome = true) :
    (finish sender recipients message builder ephemeral).outcome random =
      some (.error (.configuration .protectedHeaderAlreadySet)) := by
  unfold finish
  dsimp only
  rw [Builder.setProtected_eq_error hset]
  rfl

/-- An entry that can not be added is what encryption fails with. -/
theorem Agrees.outcome_of_entryFault (hagrees : Agrees sender recipients) {ephemeral : Key}
    (hephemeral : ephemeral? sender random = some ephemeral)
    (hheader : builder.protectedHeader = none) {cause : Error}
    (hfault : Builder.EntryFault builder.kids (·.kid)
      (Wraps (parties sender recipients) sender ephemeral) recipients cause) :
    (encryptInto builder recipients sender message).outcome random = some (.error cause) := by
  obtain ⟨contentKey, payload, rest, htag, ⟨hgenerate, hkey, hpayload⟩⟩ :=
    exists_seals hephemeral (parties sender recipients) builder.aad message
  have hmaking := hagrees.making hephemeral (parties sender recipients) contentKey htag
  let bound : Builder := { builder with
    protectedHeader := some (.ofHeader (protectedHeader sender (parties sender recipients)
      ephemeral)) }
  have hbound : (Builder.setProtected (protectedHeader sender (parties sender recipients)
      ephemeral)).onto builder = .ok bound := Builder.setProtected_eq_ok_iff.2 ⟨hheader, rfl⟩
  have haad : bound.associatedData = .ok (associatedData
      (.ofHeader (protectedHeader sender (parties sender recipients) ephemeral)) builder.aad) := rfl
  have hentries : addEntries (entry (parties sender recipients) sender ephemeral contentKey
      payload.tag) bound recipients = .error cause := by
    rw [addEntries_eq_addEach]
    exact Builder.EntryFault.addEach_eq_error hfault hmaking
  rw [Drawing.outcome, hagrees.run_encryptInto, Drawing.run_draw_bind hgenerate]
  unfold finish
  dsimp only
  rw [Drawing.run_liftM_bind hbound, Drawing.run_draw_bind hkey,
    Drawing.run_liftM_bind haad,
    Drawing.run_bind_of_ok (Drawing.run_failingWith_eq_ok_iff.2 hpayload),
    Drawing.run_liftM_bind_of_error hentries]
  rfl

/-- **What goes wrong first is what comes out.** -/
theorem Fault.outcome_encryptInto {error : Error}
    (h : Fault builder sender recipients random error) (message : Bytes) :
    (encryptInto builder recipients sender message).outcome random = some (.error error) := by
  cases h with
  | noRecipients hnil =>
    rw [hnil]
    rfl
  | missingSecret hne hsecret =>
    have hfails : requireSecret sender = .error (.missingSecret sender.kid) := by
      rw [requireSecret, hsecret]
      rfl
    unfold encryptInto
    dsimp only
    rw [if_neg (by simpa using hne), hfails]
    rfl
  | unsupported hne hsecret halgorithm =>
    have hfails : Anoncrypt.requireAgreement sender =
        .error (.unsupportedAlgorithm (.recipientAgreement sender.algorithm sender.kid)) :=
      if_neg fun h => Algorithm.supportsAgreement_iff.1 h halgorithm
    unfold encryptInto
    dsimp only
    rw [if_neg (by simpa using hne), Drawing.outcome,
      Drawing.run_liftM_bind (requireSecret_eq_ok_iff.2 hsecret), hfails]
    rfl
  | inconsistent hne hsecret halgorithm hmem hother =>
    have hsupports := Algorithm.supportsAgreement_iff.2 halgorithm
    have hfails : requireSameAlgorithm sender recipients = .error .inconsistentRecipients := by
      refine if_neg fun hall => hother ?_
      exact of_decide_eq_true (List.all_eq_true.1 hall _ hmem)
    unfold encryptInto
    dsimp only
    rw [if_neg (by simpa using hne), Drawing.outcome,
      Drawing.run_liftM_bind (requireSecret_eq_ok_iff.2 hsecret),
      Drawing.run_liftM_bind (requireAgreement_eq_ok_iff.2 hsupports), hfails]
    rfl
  | protectedHeader hagrees hephemeral hset =>
    obtain ⟨second, hgenerate⟩ := exists_generate hephemeral
    rw [Drawing.outcome, hagrees.run_encryptInto, Drawing.run_draw_bind hgenerate]
    exact outcome_finish_of_isSome hset
  | entry hagrees hephemeral hheader hfault =>
    exact hagrees.outcome_of_entryFault hephemeral hheader hfault

end Authcrypt
end SealedEnvelope
