import SealedEnvelope.Key.VerificationMethod
import SealedEnvelope.Proofs.Agreement.OneToOne
import SealedEnvelope.Proofs.Agreement.Separation
import SealedEnvelope.Proofs.Content.Acceptance
import SealedEnvelope.Proofs.Content.Sealed
import SealedEnvelope.Proofs.Key.Resolution
import SealedEnvelope.Proofs.Opening.Acceptance
import SealedEnvelope.Proofs.Opening.Conforming
import SealedEnvelope.Proofs.Opening.Indistinct
import SealedEnvelope.Proofs.Opening.Locality
import SealedEnvelope.Proofs.Provenance.Binding
import SealedEnvelope.Proofs.Provenance.Consistency
import SealedEnvelope.Proofs.Reading.Listing
import SealedEnvelope.Proofs.Reading.Rearranging
import SealedEnvelope.Proofs.RoundTrip.Anoncrypt
import SealedEnvelope.Proofs.RoundTrip.Authcrypt
import SealedEnvelope.Proofs.RoundTrip.Built
import SealedEnvelope.Proofs.RoundTrip.ProtectedHeader
import SealedEnvelope.Proofs.RoundTrip.PublicForms
import SealedEnvelope.Proofs.SecretStore.Unpacking
import SealedEnvelope.Proofs.Sending.Outcome
import SealedEnvelope.Proofs.Sending.RecipientOrder
import SealedEnvelope.SecretStore
import SealedEnvelope.Text.Base64Url.RoundTrip
