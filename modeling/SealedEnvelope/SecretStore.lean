import SealedEnvelope.Authcrypt
import SealedEnvelope.Changing

/-!
# Stored secrets

A store files identities with their secrets under their names.  With a store an
envelope can be opened without saying for whom: the first recipient, in the order of
the envelope, whose secret is stored opens it.
-/

namespace SealedEnvelope

/-- Identities, each filed under a name. -/
structure SecretStore where
  entries : List (String × Identity)

namespace SecretStore

/-- The store without secrets. -/
def empty : SecretStore := ⟨[]⟩

/-- The identity that is filed under a name. -/
def get? (store : SecretStore) (kid : String) : Option Identity := store.entries.lookup kid

/-- The store without what is filed under a name. -/
def erase (store : SecretStore) (kid : String) : SecretStore :=
  ⟨store.entries.filter (·.1 ≠ kid)⟩

/-- Files an identity under a name, in place of what was there. -/
def insert (store : SecretStore) (kid : String) (identity : Identity) : SecretStore :=
  ⟨(kid, identity) :: (store.erase kid).entries⟩

/-- Stores an identity, which must come with its secret, under its own name. -/
def add (identity : Identity) : Changing SecretStore Unit := do
  unless identity.hasSecret do throw (.missingSecret identity.kid)
  modify (·.insert identity.kid identity)

/-- Removes what is stored under a name, and gives it out. -/
def remove (kid : String) : Changing SecretStore (Option Identity) := do
  let found := (← get).get? kid
  modify (·.erase kid)
  pure found

/-- A change of a store. -/
inductive Change where
  | add (identity : Identity)
  | remove (kid : String)

/-- Makes a change. -/
def make : Change → Changing SecretStore Unit
  | .add identity => add identity
  | .remove kid => discard (remove kid)

/-- Makes changes one after the other.  If one of them fails, it goes on with what that one left
behind. -/
def run (store : SecretStore) (changes : List Change) : SecretStore :=
  changes.foldl (fun store change => (make change).leaves store) store

/-- The first recipient of an envelope whose secret is stored. -/
def localRecipient (store : SecretStore) (envelope : Envelope) : Except Error Identity :=
  match envelope.kids.findSome? store.get? with
  | some identity => .ok identity
  | none => .error (.recipientNotFound (String.intercalate ", " envelope.kids))

end SecretStore

/-- A message and the recipient that opened its envelope. -/
structure Unpacked where
  message : Bytes
  recipientKid : String
  deriving DecidableEq, Repr

namespace SecretStore

/-- Opens an envelope of an anonymous sender. -/
def unpackAnoncrypt (store : SecretStore) (source : Source) : Except Error Unpacked := do
  let envelope ← source.envelope
  let recipient ← store.localRecipient envelope
  .ok ⟨← Anoncrypt.decryptEnvelope envelope recipient, recipient.kid⟩

/-- Opens an envelope of a known sender. -/
def unpackAuthcrypt (store : SecretStore) (source : Source) (sender : Identity) :
    Except Error Unpacked := do
  let envelope ← source.envelope
  let recipient ← store.localRecipient envelope
  .ok ⟨← Authcrypt.decryptEnvelope envelope recipient sender, recipient.kid⟩

end SecretStore
end SealedEnvelope
