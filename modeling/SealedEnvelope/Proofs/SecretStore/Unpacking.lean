import SealedEnvelope.Proofs.Opening.Failures
import SealedEnvelope.Proofs.RoundTrip.Anoncrypt
import SealedEnvelope.Proofs.RoundTrip.Authcrypt
import SealedEnvelope.Proofs.SecretStore.History
import SealedEnvelope.Proofs.Sending.Anoncrypt
import SealedEnvelope.Proofs.Sending.Authcrypt

/-!
# Unpacking with stored secrets

Unpacking an envelope is opening it for the first of its recipients that is known.  Four things
have to name the same entry for this: the names in the envelope, in their order, the name that an
identity is filed under, the identity's own name, and the entry that an opening looks for.

They do, since in a store that came about by additions and removals every identity is filed under
its own name (`SecretStore.Filed`).  So unpacking never fails for the reasons that are about a
recipient: there is an entry and there is a secret (`SecretStore.opensAs_unpackWith`).  What was
encrypted is read if the stored key is the one that it was encrypted to
(`SecretStore.unpackWith_of_render`).
`SecretStore.unpack_run` puts this together for every history of a store.
-/

namespace SealedEnvelope

namespace SecretStore

variable {store : SecretStore} {source : Source} {envelope : Envelope} {kid : String}
  {identity sender known : Identity}

/-! ## The first known name -/

/-- Whether there is an identity of a name. -/
def knows (store : SecretStore) (kid : String) : Bool := (store.get? kid).isSome

theorem findSome?_get?_eq_some_iff {names : List String} :
    names.findSome? store.get? = some identity ↔
      ∃ kid, names.find? store.knows = some kid ∧ store.get? kid = some identity := by
  induction names with
  | nil => simp
  | cons name names ih =>
    cases hget : store.get? name with
    | none =>
      have hknows : ¬store.knows name = true := by rw [knows, hget]; decide
      rw [List.findSome?_cons, hget, List.find?_cons_of_neg hknows]
      exact ih
    | some other =>
      have hknows : store.knows name = true := by rw [knows, hget]; rfl
      rw [List.findSome?_cons, hget, List.find?_cons_of_pos hknows]
      simp [hget]

/-- The recipient is the identity of the first known name. -/
theorem localRecipient_eq_ok (hfind : envelope.kids.find? store.knows = some kid)
    (hget : store.get? kid = some identity) : store.localRecipient envelope = .ok identity := by
  rw [localRecipient, findSome?_get?_eq_some_iff.2 ⟨kid, hfind, hget⟩]

/-- If no name is known, all of them are named. -/
theorem localRecipient_eq_error (h : envelope.kids.find? store.knows = none) :
    store.localRecipient envelope =
      .error (.recipientNotFound (String.intercalate ", " envelope.kids)) := by
  have hnone : envelope.kids.findSome? store.get? = none := by
    rw [List.findSome?_eq_none_iff]
    intro kid hmem
    simpa [knows] using List.find?_eq_none.1 h kid hmem
  rw [localRecipient, hnone]

/-- The names in an envelope are those of the identities that it was made for, so the same one is
found first. -/
theorem find?_kids_eq_some {recipients : List Identity} {recipient : Identity}
    (hkids : envelope.kids = recipients.map (·.kid))
    (hfind : recipients.find? (store.knows ·.kid) = some recipient) :
    envelope.kids.find? store.knows = some recipient.kid := by
  rw [hkids, List.find?_map]
  exact congrArg (Option.map (·.kid)) hfind

/-! ## Unpacking and opening -/

/-- Opens an envelope for the first of its recipients that is known. -/
def unpackWith (store : SecretStore) (opening : Envelope → Identity → Except Error Bytes)
    (source : Source) : Except Error Unpacked := do
  let envelope ← source.envelope
  let recipient ← store.localRecipient envelope
  .ok ⟨← opening envelope recipient, recipient.kid⟩

theorem unpackAnoncrypt_eq_unpackWith (store : SecretStore) (source : Source) :
    store.unpackAnoncrypt source = store.unpackWith Anoncrypt.decryptEnvelope source := rfl

theorem unpackAuthcrypt_eq_unpackWith (store : SecretStore) (source : Source) (sender : Identity) :
    store.unpackAuthcrypt source sender =
      store.unpackWith (Authcrypt.decryptEnvelope · · sender) source := rfl

/-- An unpacking is an opening for the identity of a name, and does not fail for a reason that is
about the recipient. -/
structure OpensAs (unpacked : Except Error Unpacked) (opened : Except Error Bytes)
    (kid : String) : Prop where
  eq_map : unpacked = opened.map (⟨·, kid⟩)
  ne_missingSecret : ∀ name, unpacked ≠ .error (.missingSecret name)
  ne_recipientNotFound : ∀ name, unpacked ≠ .error (.recipientNotFound name)

section Source

variable {opening : Envelope → Identity → Except Error Bytes}
  (hsource : source.envelope = .ok envelope)
include hsource

theorem unpackWith_eq_error {error : Error} (h : store.localRecipient envelope = .error error) :
    store.unpackWith opening source = .error error := by
  rw [unpackWith, hsource]
  show (store.localRecipient envelope >>= _) = _
  rw [h]
  rfl

variable (hfind : envelope.kids.find? store.knows = some kid)
  (hget : store.get? kid = some identity) (hkid : identity.kid = kid)
include hfind hget hkid

/-- Unpacking is opening for the identity of the first known name. -/
theorem unpackWith_eq_map :
    store.unpackWith opening source = (opening envelope identity).map (⟨·, kid⟩) := by
  rw [unpackWith, hsource, ← hkid]
  show (store.localRecipient envelope >>= _) = _
  rw [localRecipient_eq_ok hfind hget]
  rfl

/-- There is an entry for an identity that was found.  So if it comes with its secret, whatever
opening the envelope fails with is public. -/
theorem opensAs_unpackWith (hsecret : identity.hasSecret = true)
    (h : FailsWith (OpeningFails envelope identity) (opening envelope identity)) :
    OpensAs (store.unpackWith opening source) (opening envelope identity) kid := by
  have hentry : (envelope.recipient? identity.kid).isSome = true := by
    rw [Envelope.isSome_recipient?_iff, hkid]
    exact List.mem_of_find?_eq_some hfind
  have hopening : FailsInPublic (opening envelope identity) :=
    h.mono fun error hfails => hfails.isPublic hentry hsecret
  have heq : store.unpackWith opening source = (opening envelope identity).map (⟨·, kid⟩) :=
    unpackWith_eq_map hsource hfind hget hkid
  have hpublic : FailsInPublic (store.unpackWith opening source) := by
    rw [heq]
    exact hopening.map _
  exact
    { eq_map := heq
      ne_missingSecret := fun name herror => nomatch hpublic _ herror
      ne_recipientNotFound := fun name herror => nomatch hpublic _ herror }

end Source

/-! ## Unpacking what was encrypted -/

section Encrypted

variable {recipients : List Identity} {recipient : Identity} {message : Bytes}
  (hfind : recipients.find? (store.knows ·.kid) = some recipient)
  (hget : store.get? recipient.kid = some identity) (hkid : identity.kid = recipient.kid)
include hfind hget hkid

/-- What is written for recipients is unpacked by the first of them that is known, if that one can
open it. -/
theorem unpackWith_of_render {opening : Envelope → Identity → Except Error Bytes}
    (hportable : envelope.Portable) (hkids : envelope.kids = recipients.map (·.kid))
    (hsource : source.envelope = Envelope.ofText envelope.render)
    (hopens : opening envelope.settled identity = .ok message) :
    store.unpackWith opening source = .ok ⟨message, recipient.kid⟩ := by
  have hread : source.envelope = .ok envelope.settled :=
    hsource.trans (Envelope.ofText_render hportable)
  have hsettled : envelope.settled.kids = recipients.map (·.kid) := hkids
  rw [unpackWith_eq_map hread (find?_kids_eq_some hsettled hfind) hget hkid, hopens]
  rfl

variable {text : String} {random rest : Entropy} (hsource : source.envelope = Envelope.ofText text)
  (hsecret : identity.hasSecret = true) (halgorithm : identity.algorithm = recipient.algorithm)
  (hbytes : identity.key.publicBytes = recipient.key.publicBytes)
include hsource hsecret halgorithm hbytes

/-- The stored identity of the first known recipient reads a message, if it has the key that the
message was encrypted to. -/
theorem unpackAnoncrypt_of_encrypt
    (h : (Anoncrypt.encrypt recipients message).run.run random = some (.ok text, rest)) :
    store.unpackAnoncrypt source = .ok ⟨message, recipient.kid⟩ := by
  obtain ⟨envelope, rest', hrun, htext⟩ := Drawing.run_bind_eq_ok_iff.1 h
  obtain rfl : envelope.render = text := Except.ok.inj (Prod.mk.inj (Option.some.inj htext)).1
  obtain ⟨contentKey, hkey, hsent⟩ := Anoncrypt.sent_of_gives ⟨random, rest', hrun⟩
  have hportable := hsent.portable Builder.portable_empty List.nodup_nil
    Anoncrypt.portable_protectedHeader fun _ _ => Anoncrypt.Makes.portable
  have hopens : Anoncrypt.decryptEnvelope envelope identity = .ok message :=
    Anoncrypt.decryptEnvelope_of_sent hsent hkey List.nodup_nil (List.mem_of_find?_eq_some hfind)
      hsecret hkid (Key.toPublic_eq halgorithm hbytes)
  rw [unpackAnoncrypt_eq_unpackWith]
  exact unpackWith_of_render hfind hget hkid hportable (Anoncrypt.kids_of_encryptInto hrun rfl)
    hsource hopens

/-- The stored identity of the first known recipient reads a message from a sender whose public key
is known, if it has the key that the message was encrypted to. -/
theorem unpackAuthcrypt_of_encrypt
    (h : (Authcrypt.encrypt recipients sender message).run.run random = some (.ok text, rest))
    (hsender : known.algorithm = sender.algorithm)
    (hsender' : known.key.publicBytes = sender.key.publicBytes) :
    store.unpackAuthcrypt source known = .ok ⟨message, recipient.kid⟩ := by
  obtain ⟨envelope, rest', hrun, htext⟩ := Drawing.run_bind_eq_ok_iff.1 h
  obtain rfl : envelope.render = text := Except.ok.inj (Prod.mk.inj (Option.some.inj htext)).1
  obtain ⟨ephemeral, contentKey, hkey, hsent⟩ := Authcrypt.sent_of_gives ⟨random, rest', hrun⟩
  have hportable := hsent.portable Builder.portable_empty List.nodup_nil
    (Authcrypt.portable_protectedHeader _ _ _) fun _ _ => Authcrypt.Makes.portable
  have hopens : Authcrypt.decryptEnvelope envelope identity known = .ok message :=
    Authcrypt.decryptEnvelope_of_sent hsent rfl hkey List.nodup_nil
      (List.mem_of_find?_eq_some hfind) hsecret hkid
      (Key.toPublic_eq halgorithm hbytes) (Key.toPublic_eq hsender hsender')
  rw [unpackAuthcrypt_eq_unpackWith]
  exact unpackWith_of_render hfind hget hkid hportable (Authcrypt.kids_of_encryptInto hrun) hsource
    hopens

end Encrypted

/-! ## Histories -/

/-- **Unpacking after any history of a store.**  An identity without a secret is refused, which
leaves the store as it was.  What is filed under a name is what was added last and not removed
since, and every identity in the store has its secret, is filed under its own name and found there.
An envelope for nobody who is known is refused, with all of its names.  Any other is opened for the
first one who is known, and never fails because of who that is.  What was encrypted to the key that
is filed under that name is read. -/
theorem unpack_run (changes : List Change) :
    let store := empty.run changes
    (∀ identity : Identity, identity.hasSecret = false →
      (add identity).run.run store = (.error (.missingSecret identity.kid), store)) ∧
    (∀ kid identity, store.get? kid = some identity ↔ LastAdded changes kid identity) ∧
    (∀ kid identity, (kid, identity) ∈ store.entries →
      identity.hasSecret = true ∧ identity.kid = kid ∧ store.get? kid = some identity) ∧
    (∀ source envelope, source.envelope = .ok envelope →
      (envelope.kids.find? store.knows = none →
        let error := .recipientNotFound (String.intercalate ", " envelope.kids)
        store.unpackAnoncrypt source = .error error ∧
          ∀ sender, store.unpackAuthcrypt source sender = .error error) ∧
      ∀ kid, envelope.kids.find? store.knows = some kid →
        ∃ identity, store.get? kid = some identity ∧ identity.hasSecret = true ∧
          identity.kid = kid ∧
          OpensAs (store.unpackAnoncrypt source) (Anoncrypt.decrypt source identity) kid ∧
          ∀ sender, OpensAs (store.unpackAuthcrypt source sender)
            (Authcrypt.decrypt source identity sender) kid) ∧
    ∀ recipients recipient identity message random rest text source,
      recipients.find? (store.knows ·.kid) = some recipient →
      store.get? recipient.kid = some identity → identity.algorithm = recipient.algorithm →
      identity.key.publicBytes = recipient.key.publicBytes →
      source.envelope = Envelope.ofText text →
      ((Anoncrypt.encrypt recipients message).run.run random = some (.ok text, rest) →
        store.unpackAnoncrypt source = .ok ⟨message, recipient.kid⟩) ∧
      ∀ sender known : Identity,
        (Authcrypt.encrypt recipients sender message).run.run random = some (.ok text, rest) →
        known.algorithm = sender.algorithm → known.key.publicBytes = sender.key.publicBytes →
        store.unpackAuthcrypt source known = .ok ⟨message, recipient.kid⟩ := by
  intro store
  have hfiled : store.Filed := filed_run changes
  refine ⟨fun _ hsecret => run_add_of_not_hasSecret hsecret store,
    fun _ _ => get?_run_eq_some_iff, ?_, ?_, ?_⟩
  · intro kid identity hmem
    exact ⟨hfiled.hasSecret _ hmem, hfiled.kid_eq _ hmem, hfiled.get?_of_mem hmem⟩
  · intro source envelope hsource
    constructor
    · intro hfind
      have herror := localRecipient_eq_error hfind
      exact ⟨unpackWith_eq_error hsource herror, fun _ => unpackWith_eq_error hsource herror⟩
    · intro kid hfind
      have hknows : store.knows kid = true := List.find?_some hfind
      obtain ⟨identity, hget⟩ := Option.isSome_iff_exists.1 hknows
      obtain ⟨hsecret, hkid⟩ := hfiled.of_get? hget
      refine ⟨identity, hget, hsecret, hkid, ?_, fun sender => ?_⟩
      · rw [unpackAnoncrypt_eq_unpackWith, Anoncrypt.decrypt, hsource]
        exact opensAs_unpackWith hsource hfind hget hkid hsecret Anoncrypt.openingFails
      · rw [unpackAuthcrypt_eq_unpackWith, Authcrypt.decrypt, hsource]
        exact opensAs_unpackWith hsource hfind hget hkid hsecret (Authcrypt.openingFails sender)
  · intro recipients recipient identity message random rest text source hfind hget halgorithm hbytes
      hsource
    obtain ⟨hsecret, hkid⟩ := hfiled.of_get? hget
    exact ⟨unpackAnoncrypt_of_encrypt hfind hget hkid hsource hsecret halgorithm hbytes,
      fun sender known =>
        unpackAuthcrypt_of_encrypt hfind hget hkid hsource hsecret halgorithm hbytes⟩

/-- Of three recipients one is not stored.  The name of the next one stood for another key at
first, and its public key alone was refused later on. -/
theorem unpack_run_of_three :
    let alice : Identity := ⟨.ofScalar ⟨3, by decide, by decide⟩, "alice"⟩
    let bob : Identity := ⟨.ofScalar ⟨7, by decide, by decide⟩, "bob"⟩
    let carol : Identity := ⟨.ofScalar ⟨11, by decide, by decide⟩, "carol"⟩
    let dave : Identity := ⟨.ofScalar ⟨13, by decide, by decide⟩, "dave"⟩
    let known : Identity := ⟨alice.key.toPublic, "someone"⟩
    let random : Entropy := .repeating 1 0
    let recipients := [dave.toPublic, carol.toPublic, bob.toPublic]
    let store := empty.run [.add ⟨bob.key, "carol"⟩, .add dave, .add carol, .add bob,
      .remove "dave", .add carol.toPublic]
    ∃ text text' rest rest',
      (Anoncrypt.encrypt recipients [1, 2, 3]).run.run random = some (.ok text, rest) ∧
      (Authcrypt.encrypt recipients alice [1, 2, 3]).run.run random = some (.ok text', rest') ∧
      store.unpackAnoncrypt (.text text) = .ok ⟨[1, 2, 3], "carol"⟩ ∧
      store.unpackAuthcrypt (.text text') known = .ok ⟨[1, 2, 3], "carol"⟩ := by
  intro alice bob carol dave known random recipients store
  have hjoined : Authcrypt.joinedKids recipients = "bob.carol.dave" := by
    simp [Authcrypt.joinedKids, recipients, List.mergeSort, bob, carol, dave,
      Identity.toPublic]
  have hfits : (Authcrypt.parties alice recipients).Fits := by
    rw [Authcrypt.parties, hjoined]
    exact ⟨by decide, by decide, by decide⟩
  have halgorithm : ∀ recipient ∈ [dave.toPublic, carol.toPublic, bob.toPublic],
      recipient.algorithm = .secp256k1 := by
    rintro recipient (_ | ⟨_, _ | ⟨_, _ | ⟨_, ⟨⟩⟩⟩⟩) <;>
      exact (rfl : Algorithm.secp256k1 = .secp256k1)
  have hnodup : (recipients.map (·.kid)).Nodup := (by decide : ["dave", "carol", "bob"].Nodup)
  have hfeasible : Anoncrypt.Feasible .empty recipients random :=
    .of_secp256k1 (List.cons_ne_nil _ _) halgorithm hnodup (fun _ _ => List.not_mem_nil)
      (Anoncrypt.allDrawn_ones _ _) rfl
  obtain ⟨ephemeral, hephemeral⟩ := Authcrypt.exists_ephemeral?_ones alice 0
  have hagrees : Authcrypt.Agrees alice recipients :=
    ⟨List.cons_ne_nil _ _, rfl, (by decide : Algorithm.secp256k1 ≠ .ed25519), halgorithm⟩
  have hfeasible' : Authcrypt.Feasible .empty alice recipients random :=
    .of_secp256k1 hagrees rfl hfits hnodup (fun _ _ => List.not_mem_nil) hephemeral rfl
  obtain ⟨text, rest, hrun⟩ : ∃ text rest,
      (Anoncrypt.encrypt recipients [1, 2, 3]).run.run random = some (.ok text, rest) := by
    obtain ⟨payload, rest, hrun⟩ := hfeasible.exists_run_encryptInto rfl [1, 2, 3]
    exact ⟨_, rest, Drawing.run_bind_of_ok hrun⟩
  obtain ⟨text', rest', hrun'⟩ : ∃ text rest,
      (Authcrypt.encrypt recipients alice [1, 2, 3]).run.run random = some (.ok text, rest) := by
    obtain ⟨envelope, rest, hrun⟩ := hfeasible'.exists_run_encryptInto rfl [1, 2, 3]
    exact ⟨_, rest, Drawing.run_bind_of_ok hrun⟩
  obtain ⟨-, -, -, -, hopens⟩ := unpack_run [.add ⟨bob.key, "carol"⟩, .add dave, .add carol,
    .add bob, .remove "dave", .add carol.toPublic]
  have hfind : recipients.find? (store.knows ·.kid) = some carol.toPublic := by rfl
  have hget : store.get? "carol" = some carol := by rfl
  have hbytes := carol.key.publicBytes_toPublic.symm
  exact ⟨text, text', rest, rest', hrun, hrun',
    (hopens recipients carol.toPublic carol [1, 2, 3] random rest text (.text text) hfind hget rfl
      hbytes rfl).1 hrun,
    (hopens recipients carol.toPublic carol [1, 2, 3] random rest' text' (.text text') hfind hget
      rfl hbytes rfl).2 alice known hrun' rfl alice.key.publicBytes_toPublic⟩

end SecretStore

end SealedEnvelope
