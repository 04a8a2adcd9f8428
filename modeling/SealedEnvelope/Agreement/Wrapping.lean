import SealedEnvelope.Agreement.Derivation
import SealedEnvelope.Agreement.Exchange
import SealedEnvelope.Agreement.KeyWrap
import SealedEnvelope.Content.Key

/-!
# Content keys for a recipient

A content key travels encrypted under a key that sender and recipient derive from
secrets they share.

* Anonymously (`EcdhEs`), the secret is that of an ephemeral key and the recipient's.
* Authenticated (`Ecdh1Pu`), the secret of the sender's own key and the recipient's
  comes behind it, and the key is bound to the tag of the ciphertext.

Both sides derive the key from the same octets, and so each can undo what the other
does.
-/

namespace SealedEnvelope

/-- What the two sides of an agreement have in common. -/
structure Agreement where
  algorithm : String
  partyU : Bytes
  partyV : Bytes
  deriving DecidableEq, Repr

namespace Agreement

/-- The key that encrypts content keys, from shared secrets. -/
def wrappingKey (agreement : Agreement) (wrap : KeyWrap) (secret tag : Bytes) :
    Except Error Bytes :=
  let derivation : Derivation :=
    ⟨agreement.algorithm, agreement.partyU, agreement.partyV, wrap.keySize, tag⟩
  match derivation.key? secret with
  | some key => .ok key
  | none => .error .cryptography

/-- Encrypts a content key under what shared secrets give. -/
def wrapUnder (agreement : Agreement) (wrap : KeyWrap) (secret tag : Bytes)
    (contentKey : ContentKey) : Except Error Bytes := do
  let key ← agreement.wrappingKey wrap secret tag
  match wrap.wrap? key contentKey.bytes with
  | some wrapped => .ok wrapped
  | none => .error .cryptography

/-- Decrypts a content key with what shared secrets give. -/
def unwrapUnder (agreement : Agreement) (wrap : KeyWrap) (secret tag : Bytes)
    (encryption : ContentEncryption) (wrapped : Bytes) : Except Error ContentKey := do
  let key ← agreement.wrappingKey wrap secret tag
  match wrap.unwrap? key wrapped with
  | some bytes => ContentKey.ofBytes encryption bytes
  | none => .error .cryptography

end Agreement

namespace EcdhEs

/-- Encrypts a content key to a recipient. -/
def wrapKey (agreement : Agreement) (wrap : KeyWrap) (ephemeral recipient : Key)
    (contentKey : ContentKey) : Except Error Bytes := do
  let secret ← ephemeral.exchange recipient
  agreement.wrapUnder wrap secret [] contentKey

/-- Decrypts a content key as its recipient. -/
def unwrapKey (agreement : Agreement) (wrap : KeyWrap) (encryption : ContentEncryption)
    (ephemeral recipient : Key) (wrapped : Bytes) : Except Error ContentKey := do
  let secret ← recipient.exchange ephemeral
  agreement.unwrapUnder wrap secret [] encryption wrapped

end EcdhEs

namespace Ecdh1Pu

/-- Encrypts a content key to a recipient, as its sender. -/
def wrapKey (agreement : Agreement) (wrap : KeyWrap) (ephemeral sender recipient : Key)
    (contentKey : ContentKey) (tag : Bytes) : Except Error Bytes := do
  let ephemeralSecret ← ephemeral.exchange recipient
  let staticSecret ← sender.exchange recipient
  agreement.wrapUnder wrap (ephemeralSecret ++ staticSecret) tag contentKey

/-- Decrypts a content key as its recipient, from a known sender. -/
def unwrapKey (agreement : Agreement) (wrap : KeyWrap) (encryption : ContentEncryption)
    (ephemeral sender recipient : Key) (wrapped tag : Bytes) : Except Error ContentKey := do
  let ephemeralSecret ← recipient.exchange ephemeral
  let staticSecret ← recipient.exchange sender
  agreement.unwrapUnder wrap (ephemeralSecret ++ staticSecret) tag encryption wrapped

end Ecdh1Pu
end SealedEnvelope
