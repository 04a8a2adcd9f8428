import SealedEnvelope.Anoncrypt
import SealedEnvelope.Proofs.Drawing
import SealedEnvelope.Proofs.Key.Generation
import SealedEnvelope.Proofs.Sending.Entries
import SealedEnvelope.Proofs.Sending.Wrapping

/-!
# When anonymous encryption succeeds

A message is encrypted exactly if `Anoncrypt.Feasible` holds, and otherwise `Anoncrypt.Fault` says
with which error it fails.  The recipients' kinds are looked at before anything is drawn, their
entries are made one after the other, and the protected header comes last.

The ephemeral keys are part of this, since an X25519 agreement may give zero: they are the keys
that are drawn for the recipients in order, behind the content key (`Anoncrypt.drawn`).  A
secp256k1 key may never come, and then encryption never ends (`Anoncrypt.Endless`), unless
something went wrong before.
-/

namespace SealedEnvelope

namespace Anoncrypt

variable {builder : Builder} {recipients : List Identity} {message : Bytes} {random : Entropy}
  {contentKey : ContentKey} {error : Error}

/-! ## Drawn keys -/

/-- The recipients, each with the ephemeral key that is drawn for it.  Behind a draw that never
ends nothing is drawn. -/
def drawn : List Identity → Entropy → List (Identity × Key)
  | [], _ => []
  | recipient :: rest, random =>
    match (Key.generate recipient.algorithm).run random with
    | some (ephemeral, random) => (recipient, ephemeral) :: drawn rest random
    | none => []

theorem drawn_cons_of_some {recipient : Identity} {ephemeral : Key} {middle : Entropy}
    (h : (Key.generate recipient.algorithm).run random = some (ephemeral, middle)) :
    drawn (recipient :: recipients) random = (recipient, ephemeral) :: drawn recipients middle := by
  rw [drawn, h]

theorem drawn_cons_of_none {recipient : Identity}
    (h : (Key.generate recipient.algorithm).run random = none) :
    drawn (recipient :: recipients) random = [] := by
  rw [drawn, h]

/-- A key is drawn for every recipient: no draw goes on for ever. -/
def AllDrawn (recipients : List Identity) (random : Entropy) : Prop :=
  (drawn recipients random).length = recipients.length

instance : Decidable (AllDrawn recipients random) :=
  inferInstanceAs (Decidable (_ = _))

theorem allDrawn_cons_iff {recipient : Identity} {ephemeral : Key} {middle : Entropy}
    (h : (Key.generate recipient.algorithm).run random = some (ephemeral, middle)) :
    AllDrawn (recipient :: recipients) random ↔ AllDrawn recipients middle := by
  rw [AllDrawn, AllDrawn, drawn_cons_of_some h]
  exact Nat.add_right_cancel_iff

theorem not_allDrawn_cons {recipient : Identity}
    (h : (Key.generate recipient.algorithm).run random = none) :
    ¬AllDrawn (recipient :: recipients) random := by
  rw [AllDrawn, drawn_cons_of_none h]
  exact nofun

theorem isPrefix_map_fst_drawn (recipients : List Identity) (random : Entropy) :
    (drawn recipients random).map Prod.fst <+: recipients := by
  induction recipients generalizing random with
  | nil => exact List.prefix_rfl
  | cons recipient recipients ih =>
    cases hephemeral : (Key.generate recipient.algorithm).run random with
    | none =>
      rw [drawn_cons_of_none hephemeral]
      exact List.nil_prefix
    | some pair =>
      rw [drawn_cons_of_some hephemeral]
      exact List.cons_prefix_cons.2 ⟨rfl, ih pair.2⟩

theorem AllDrawn.map_fst_drawn (h : AllDrawn recipients random) :
    (drawn recipients random).map Prod.fst = recipients :=
  (isPrefix_map_fst_drawn recipients random).eq_of_length (by rw [List.length_map, h])

theorem AllDrawn.map_kid_drawn (h : AllDrawn recipients random) :
    (drawn recipients random).map (fun pair => pair.1.kid) = recipients.map (·.kid) :=
  calc (drawn recipients random).map (fun pair => pair.1.kid)
      = ((drawn recipients random).map Prod.fst).map (·.kid) := List.map_map.symm
    _ = recipients.map (·.kid) := by rw [h.map_fst_drawn]

/-- A key is drawn of its recipient's kind, with its secret. -/
theorem of_mem_drawn {pair : Identity × Key} (hmem : pair ∈ drawn recipients random) :
    pair.1 ∈ recipients ∧ pair.2.algorithm = pair.1.algorithm ∧ pair.2.hasSecret = true := by
  induction recipients generalizing random with
  | nil => cases hmem
  | cons recipient recipients ih =>
    cases hephemeral : (Key.generate recipient.algorithm).run random with
    | none =>
      rw [drawn_cons_of_none hephemeral] at hmem
      cases hmem
    | some drawn =>
      rw [drawn_cons_of_some hephemeral] at hmem
      rcases List.mem_cons.1 hmem with rfl | hmem
      · exact ⟨List.mem_cons_self, Key.of_generate hephemeral⟩
      · obtain ⟨hrecipient, hkey⟩ := ih hmem
        exact ⟨List.mem_cons_of_mem _ hrecipient, hkey⟩

/-- From ones every key is drawn. -/
theorem allDrawn_ones (recipients : List Identity) (used : Nat) :
    AllDrawn recipients (.repeating 1 used) := by
  induction recipients generalizing used with
  | nil => rfl
  | cons recipient recipients ih =>
    obtain ⟨ephemeral, hephemeral⟩ := Key.exists_generate_ones recipient.algorithm used
    exact (allDrawn_cons_iff hephemeral).2 (ih _)

/-! ## Entries -/

/-- The entry for a recipient and the key that is drawn for it. -/
def entryFor (contentKey : ContentKey) (pair : Identity × Key) : Except Error Recipient :=
  entry contentKey pair.1 pair.2

/-- Entries are added for the recipients with the keys that are drawn for them.  A failure comes
out even if a key behind it would never be drawn. -/
theorem exists_run_addEntries (contentKey : ContentKey) (builder : Builder)
    (recipients : List Identity) (random : Entropy) :
    ∃ rest, (addEntries contentKey builder recipients).run.run random =
      match builder.addEach (entryFor contentKey) (drawn recipients random) with
      | .error cause => some (.error cause, rest)
      | .ok extended => if AllDrawn recipients random then some (.ok extended, rest) else none := by
  induction recipients generalizing builder random with
  | nil => exact ⟨random, rfl⟩
  | cons recipient recipients ih =>
    rw [addEntries]
    cases hephemeral : (Key.generate recipient.algorithm).run random with
    | none =>
      refine ⟨random, (Drawing.run_draw_bind_of_none hephemeral).trans ?_⟩
      rw [drawn_cons_of_none hephemeral]
      exact (if_neg (not_allDrawn_cons hephemeral)).symm
    | some pair =>
      obtain ⟨ephemeral, middle⟩ := pair
      simp only [Drawing.run_draw_bind hephemeral, drawn_cons_of_some hephemeral,
        allDrawn_cons_iff hephemeral]
      cases hmade : entryFor contentKey (recipient, ephemeral) with
      | error cause =>
        rw [Builder.addEach_cons_of_error hmade]
        exact ⟨middle, Drawing.run_liftM_bind_of_error hmade⟩
      | ok made =>
        have hentry : entry contentKey recipient ephemeral = .ok made := hmade
        rw [Builder.addEach_cons hmade, Drawing.run_liftM_bind hentry]
        cases hadd : (Builder.addRecipient made).onto builder with
        | error cause => exact ⟨middle, rfl⟩
        | ok next => exact ih next middle

theorem exists_entry_iff {recipient : Identity} {ephemeral : Key} :
    (∃ made, entry contentKey recipient ephemeral = .ok made) ↔
      ∃ wrapped, EcdhEs.wrapKey ⟨alg, [], []⟩ keyWrap ephemeral recipient.key contentKey =
        .ok wrapped := by
  unfold entry
  cases EcdhEs.wrapKey ⟨alg, [], []⟩ keyWrap ephemeral recipient.key contentKey with
  | error cause => exact ⟨nofun, nofun⟩
  | ok wrapped => exact ⟨fun _ => ⟨_, rfl⟩, fun _ => ⟨_, rfl⟩⟩

/-- The content key is wrapped for a recipient under the key that is drawn for it. -/
def Wraps (pair : Identity × Key) : Prop := ¬pair.2.Vanishes pair.1.key

theorem making (contentKey : ContentKey)
    (h : ∀ recipient ∈ recipients, recipient.algorithm ≠ .ed25519) :
    Builder.Making (entryFor contentKey) (fun pair => pair.1.kid) Wraps
      (drawn recipients random) where
  exists_iff pair hmem := by
    obtain ⟨hrecipient, halgorithm, hsecret⟩ := of_mem_drawn hmem
    rw [entryFor, exists_entry_iff, EcdhEs.exists_wrapKey_iff ⟨by decide, by decide, by decide⟩]
    exact Key.exists_exchange_iff hsecret halgorithm
      (Algorithm.supportsAgreement_iff.2 (h pair.1 hrecipient))
  kid?_eq pair made hmade := by
    unfold entryFor entry at hmade
    split at hmade <;> cases hmade
    rfl
  error_eq pair cause hcause := by
    unfold entryFor entry at hcause
    split at hcause <;> cases hcause
    rfl

/-! ## Conditions -/

/-- What is asked of the builder, of the recipients and of the keys that are drawn. -/
structure Feasible (builder : Builder) (recipients : List Identity) (random : Entropy) : Prop where
  recipients_ne_nil : recipients ≠ []
  algorithm_ne : ∀ recipient ∈ recipients, recipient.algorithm ≠ .ed25519
  addable : Builder.Addable builder.kids (fun pair => pair.1.kid) Wraps
    (drawn recipients (random.skip encryption.keySize))
  allDrawn : AllDrawn recipients (random.skip encryption.keySize)
  protectedHeader_eq : builder.protectedHeader = none

/-- For secp256k1 keys, which share a secret in any case, only the names count. -/
theorem Feasible.of_secp256k1 (hne : recipients ≠ [])
    (halgorithm : ∀ recipient ∈ recipients, recipient.algorithm = .secp256k1)
    (hnodup : (recipients.map (·.kid)).Nodup)
    (hnew : ∀ recipient ∈ recipients, recipient.kid ∉ builder.kids)
    (hdrawn : AllDrawn recipients (random.skip encryption.keySize))
    (hheader : builder.protectedHeader = none) : Feasible builder recipients random where
  recipients_ne_nil := hne
  algorithm_ne recipient hmem := by
    rw [halgorithm recipient hmem]
    exact nofun
  addable :=
    { wraps := fun pair hmem => Key.not_vanishes_of_algorithm_ne fun h => by
        cases h.symm.trans (halgorithm pair.1 (of_mem_drawn hmem).1)
      names_nodup := by rwa [hdrawn.map_kid_drawn]
      names_new := fun pair hmem => hnew pair.1 (of_mem_drawn hmem).1 }
  allDrawn := hdrawn
  protectedHeader_eq := hheader

/-- What goes wrong first. -/
inductive Fault (builder : Builder) (recipients : List Identity) (random : Entropy) : Error → Prop
  | noRecipients (hnil : recipients = []) : Fault builder recipients random .noRecipients
  /-- The first of the recipients that can not agree on secrets. -/
  | unsupported {recipient : Identity}
      (hfind : recipients.find? (·.algorithm = .ed25519) = some recipient) :
      Fault builder recipients random
        (.unsupportedAlgorithm (.recipientAgreement recipient.algorithm recipient.kid))
  | entry (halgorithm : ∀ recipient ∈ recipients, recipient.algorithm ≠ .ed25519) {cause : Error}
      (hfault : Builder.EntryFault builder.kids (fun pair => pair.1.kid) Wraps
        (drawn recipients (random.skip encryption.keySize)) cause) :
      Fault builder recipients random cause
  | protectedHeader (hne : recipients ≠ [])
      (halgorithm : ∀ recipient ∈ recipients, recipient.algorithm ≠ .ed25519)
      (haddable : Builder.Addable builder.kids (fun pair => pair.1.kid) Wraps
        (drawn recipients (random.skip encryption.keySize)))
      (hdrawn : AllDrawn recipients (random.skip encryption.keySize))
      (hset : builder.protectedHeader.isSome = true) :
      Fault builder recipients random (.configuration .protectedHeaderAlreadySet)

/-- Nothing goes wrong until a key is to be drawn that never comes. -/
structure Endless (builder : Builder) (recipients : List Identity) (random : Entropy) : Prop where
  algorithm_ne : ∀ recipient ∈ recipients, recipient.algorithm ≠ .ed25519
  addable : Builder.Addable builder.kids (fun pair => pair.1.kid) Wraps
    (drawn recipients (random.skip encryption.keySize))
  not_allDrawn : ¬AllDrawn recipients (random.skip encryption.keySize)

theorem Endless.recipients_ne_nil (h : Endless builder recipients random) : recipients ≠ [] := by
  rintro rfl
  exact h.not_allDrawn rfl

/-- Nothing goes wrong, or something goes wrong first, or a key never comes. -/
theorem feasible_or_endless_or_exists_fault (builder : Builder) (recipients : List Identity)
    (random : Entropy) :
    Feasible builder recipients random ∨ Endless builder recipients random ∨
      ∃ error, Fault builder recipients random error := by
  by_cases hne : recipients = []
  · exact .inr (.inr ⟨_, .noRecipients hne⟩)
  cases hfind : recipients.find? (·.algorithm = .ed25519) with
  | some recipient => exact .inr (.inr ⟨_, .unsupported hfind⟩)
  | none =>
    have halgorithm : ∀ recipient ∈ recipients, recipient.algorithm ≠ .ed25519 := by
      simpa using hfind
    rcases Builder.addable_or_exists_fault builder.kids (fun pair => pair.1.kid) Wraps
      (drawn recipients (random.skip encryption.keySize)) with haddable | ⟨cause, hfault⟩
    · by_cases hdrawn : AllDrawn recipients (random.skip encryption.keySize)
      · cases hheader : builder.protectedHeader with
        | none => exact .inl ⟨hne, halgorithm, haddable, hdrawn, hheader⟩
        | some header =>
          exact .inr (.inr
            ⟨_, .protectedHeader hne halgorithm haddable hdrawn (by rw [hheader]; rfl)⟩)
      · exact .inr (.inl ⟨halgorithm, haddable, hdrawn⟩)
    · exact .inr (.inr ⟨cause, .entry halgorithm hfault⟩)

/-! ## Outcomes -/

/-- The first recipient that can not agree on secrets is the one that is named. -/
theorem requireAgreements_eq (recipients : List Identity) :
    requireAgreements recipients =
      match recipients.find? (·.algorithm = .ed25519) with
      | some recipient =>
        .error (.unsupportedAlgorithm (.recipientAgreement recipient.algorithm recipient.kid))
      | none => .ok () := by
  induction recipients with
  | nil => rfl
  | cons recipient recipients ih =>
    rw [requireAgreements, requireAgreement]
    by_cases halgorithm : recipient.algorithm = .ed25519
    · have hunsupported : ¬recipient.algorithm.supportsAgreement = true :=
        fun h => Algorithm.supportsAgreement_iff.1 h halgorithm
      rw [List.find?_cons_of_pos (by simpa using halgorithm), if_neg hunsupported]
      rfl
    · rw [List.find?_cons_of_neg (by simpa using halgorithm),
        if_pos (Algorithm.supportsAgreement_iff.2 halgorithm), ← ih]
      rfl

/-- The content key, which is drawn first. -/
def contentKeyOf (random : Entropy) : ContentKey :=
  ⟨encryption, random.next encryption.keySize, random.length_next _⟩

/-- What is left to do when all entries are there. -/
def finish (contentKey : ContentKey) (message : Bytes) (builder : Builder) : Drawing Envelope := do
  let builder ← (Builder.setProtected protectedHeader).onto builder
  let aad ← builder.associatedData
  let payload ← (contentKey.encrypt message aad).failingWith (.encryptionFailed .content)
  let builder ← (Builder.setPayload payload).onto builder
  builder.build

/-- If all recipients can agree on secrets, encryption goes as far as the entries do. -/
theorem exists_run_encryptInto (builder : Builder) (message : Bytes) (random : Entropy)
    (hne : recipients ≠ [])
    (halgorithm : ∀ recipient ∈ recipients, recipient.algorithm ≠ .ed25519) :
    ∃ rest, (encryptInto builder recipients message).run.run random =
      match builder.addEach (entryFor (contentKeyOf random))
        (drawn recipients (random.skip encryption.keySize)) with
      | .error cause => some (.error cause, rest)
      | .ok extended =>
        if AllDrawn recipients (random.skip encryption.keySize) then
          (finish (contentKeyOf random) message extended).run.run rest
        else none := by
  have hfind : recipients.find? (·.algorithm = .ed25519) = none := by simpa using halgorithm
  have hrequire : requireAgreements recipients = .ok () := by rw [requireAgreements_eq, hfind]
  have hkey : (ContentKey.generate encryption).run random =
      some (contentKeyOf random, random.skip encryption.keySize) := rfl
  obtain ⟨rest, hentries⟩ := exists_run_addEntries (contentKeyOf random) builder recipients
    (random.skip encryption.keySize)
  refine ⟨rest, ?_⟩
  unfold encryptInto
  dsimp only
  rw [if_neg (by simpa using hne), Drawing.run_liftM_bind hrequire, Drawing.run_draw_bind hkey]
  cases hadd : builder.addEach (entryFor (contentKeyOf random))
    (drawn recipients (random.skip encryption.keySize)) with
  | error cause => exact Drawing.run_bind_of_error (hentries.trans (by rw [hadd]))
  | ok extended =>
    rw [hadd] at hentries
    dsimp only at hentries ⊢
    split at hentries
    · next hdrawn => rw [if_pos hdrawn, Drawing.run_bind_of_ok hentries, finish]
    · next hdrawn => rw [if_neg hdrawn, Drawing.run_bind_of_none hentries]

/-- If moreover every entry can be added, encryption goes on, unless a key never comes. -/
theorem exists_run_encryptInto_of_addable (message : Bytes) (hne : recipients ≠ [])
    (halgorithm : ∀ recipient ∈ recipients, recipient.algorithm ≠ .ed25519)
    (haddable : Builder.Addable builder.kids (fun pair => pair.1.kid) Wraps
      (drawn recipients (random.skip encryption.keySize))) :
    ∃ rest, (encryptInto builder recipients message).run.run random =
      if AllDrawn recipients (random.skip encryption.keySize) then
        (finish (contentKeyOf random) message { builder with
          recipients := builder.recipients ++
            (drawn recipients (random.skip encryption.keySize)).map
              (Builder.entryOf (entryFor (contentKeyOf random))) }).run.run rest
      else none := by
  obtain ⟨rest, hrun⟩ := exists_run_encryptInto builder message random hne halgorithm
  rw [(Builder.addEach_eq_ok_iff (making _ halgorithm)).2 ⟨haddable, rfl⟩] at hrun
  exact ⟨rest, hrun⟩

/-- With a protected header of its own the builder gives no envelope. -/
theorem outcome_finish_of_isSome (hset : builder.protectedHeader.isSome = true) :
    (finish contentKey message builder).outcome random =
      some (.error (.configuration .protectedHeaderAlreadySet)) := by
  rw [finish, Builder.setProtected_eq_error hset]
  rfl

/-- Otherwise the message is sealed and the envelope is built. -/
theorem exists_run_finish (hheader : builder.protectedHeader = none)
    (hpayload : builder.payload = none) (hne : builder.recipients ≠ []) :
    ∃ payload rest, (finish contentKey message builder).run.run random =
      some (.ok ⟨.ofHeader protectedHeader, builder.unprotected, builder.recipients, builder.aad,
        payload, builder.flatten⟩, rest) := by
  let bound : Builder := { builder with protectedHeader := some (.ofHeader protectedHeader) }
  obtain ⟨payload, hencrypt⟩ := contentKey.exists_encrypt message
    (associatedData (.ofHeader protectedHeader) builder.aad) random
  have hbound : (Builder.setProtected protectedHeader).onto builder = .ok bound :=
    Builder.setProtected_eq_ok_iff.2 ⟨hheader, rfl⟩
  have haad : bound.associatedData =
      .ok (associatedData (.ofHeader protectedHeader) builder.aad) := rfl
  have hfilled : (Builder.setPayload payload).onto bound =
      .ok { bound with payload := some payload } :=
    Builder.setPayload_eq_ok_iff.2 ⟨rfl, hpayload, rfl⟩
  refine ⟨payload, random.skip contentKey.encryption.nonceSize, ?_⟩
  rw [finish, Drawing.run_liftM_bind hbound, Drawing.run_liftM_bind haad,
    Drawing.run_bind_of_ok (Drawing.run_failingWith_eq_ok_iff.2 hencrypt),
    Drawing.run_liftM_bind hfilled]
  exact Drawing.run_liftM_eq_ok_iff.2 ⟨(Builder.build_eq_ok_iff rfl rfl).2 ⟨hne, rfl⟩, rfl⟩

/-- **The envelope that comes out if nothing goes wrong.** -/
theorem Feasible.exists_run_encryptInto (h : Feasible builder recipients random)
    (hpayload : builder.payload = none) (message : Bytes) :
    ∃ payload rest, (encryptInto builder recipients message).run.run random =
      some (.ok
        { protectedHeader := .ofHeader protectedHeader
          unprotected := builder.unprotected
          recipients := builder.recipients ++
            (drawn recipients (random.skip encryption.keySize)).map
              (Builder.entryOf (entryFor (contentKeyOf random)))
          aad := builder.aad
          payload := payload
          flattened := builder.flatten }, rest) := by
  obtain ⟨middle, hrun⟩ :=
    exists_run_encryptInto_of_addable message h.recipients_ne_nil h.algorithm_ne h.addable
  rw [hrun, if_pos h.allDrawn]
  refine exists_run_finish h.protectedHeader_eq hpayload ?_
  intro hnil
  obtain ⟨-, hmade⟩ := List.append_eq_nil_iff.1 hnil
  rw [List.map_eq_nil_iff, ← List.map_eq_nil_iff, h.allDrawn.map_fst_drawn] at hmade
  exact h.recipients_ne_nil hmade

/-- If a key never comes, nothing does. -/
theorem Endless.outcome_encryptInto (h : Endless builder recipients random) (message : Bytes) :
    (encryptInto builder recipients message).outcome random = none := by
  obtain ⟨rest, hrun⟩ :=
    exists_run_encryptInto_of_addable message h.recipients_ne_nil h.algorithm_ne h.addable
  rw [Drawing.outcome_eq_none_iff, hrun, if_neg h.not_allDrawn]

/-- **What goes wrong first is what comes out.** -/
theorem Fault.outcome_encryptInto (h : Fault builder recipients random error) (message : Bytes) :
    (encryptInto builder recipients message).outcome random = some (.error error) := by
  cases h with
  | noRecipients hnil =>
    rw [hnil]
    rfl
  | unsupported hfind =>
    have hne : recipients ≠ [] := by
      rintro rfl
      cases hfind
    unfold encryptInto
    dsimp only
    rw [if_neg (by simpa using hne), requireAgreements_eq, hfind]
    rfl
  | entry halgorithm hfault =>
    have hne : recipients ≠ [] := by
      rintro rfl
      rcases hfault with ⟨hsplit, -, -⟩ | ⟨hsplit, -, -, -⟩ <;> simp [drawn] at hsplit
    obtain ⟨rest, hrun⟩ := exists_run_encryptInto builder message random hne halgorithm
    rw [hfault.addEach_eq_error (making _ halgorithm)] at hrun
    exact Drawing.outcome_eq_some_iff.2 ⟨rest, hrun⟩
  | protectedHeader hne halgorithm haddable hdrawn hset =>
    obtain ⟨rest, hrun⟩ := exists_run_encryptInto_of_addable message hne halgorithm haddable
    rw [Drawing.outcome, hrun, if_pos hdrawn]
    exact outcome_finish_of_isSome hset

/-- The names in an envelope are those of the builder, and behind them those of the recipients. -/
theorem kids_of_encryptInto {envelope : Envelope} {rest : Entropy}
    (h : (encryptInto builder recipients message).run.run random = some (.ok envelope, rest))
    (hpayload : builder.payload = none) :
    envelope.kids = builder.kids ++ recipients.map (·.kid) := by
  have hresult : (encryptInto builder recipients message).outcome random = some (.ok envelope) :=
    Drawing.outcome_eq_some_iff.2 ⟨rest, h⟩
  rcases feasible_or_endless_or_exists_fault builder recipients random with
    hfeasible | hendless | ⟨error, hfault⟩
  · obtain ⟨payload, rest', hrun⟩ := hfeasible.exists_run_encryptInto hpayload message
    cases h.symm.trans hrun
    show (builder.recipients ++ _).filterMap Recipient.kid? = _
    rw [List.filterMap_append, (making _ hfeasible.algorithm_ne).kids_eq hfeasible.addable.wraps]
    rw [hfeasible.allDrawn.map_kid_drawn]
    rfl
  · cases hresult.symm.trans (hendless.outcome_encryptInto message)
  · cases hresult.symm.trans (hfault.outcome_encryptInto message)

end Anoncrypt

end SealedEnvelope
