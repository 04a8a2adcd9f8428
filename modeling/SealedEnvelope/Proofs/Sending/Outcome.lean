import SealedEnvelope.Proofs.Building.History
import SealedEnvelope.Proofs.Sending.Anoncrypt
import SealedEnvelope.Proofs.Sending.Authcrypt

/-!
# What encryption comes to

Both ways of encrypting look at many things in a certain order, some of them once and some for one
recipient after the other.  For each of them it is said elsewhere when nothing goes wrong
(`Anoncrypt.Feasible`, `Authcrypt.Feasible`) and what goes wrong first (`Anoncrypt.Fault`,
`Authcrypt.Fault`).  Together this is all there is to say: `encryptInto_outcome` holds for every
builder that was ever begun, all recipients, every sender, every message and every source of
octets.
-/

namespace SealedEnvelope

/-- An outcome is settled by what makes it a value, by what makes it an error and by what keeps it
from coming, if one of these is always the case. -/
theorem outcome_iff {α : Type} {result : Option (Except Error α)} {Feasible Endless : Prop}
    {Fault : Error → Prop} (htotal : Feasible ∨ Endless ∨ ∃ error, Fault error)
    (hok : Feasible → ∃ a, result = some (.ok a)) (hnone : Endless → result = none)
    (herror : ∀ error, Fault error → result = some (.error error)) :
    ((∃ a, result = some (.ok a)) ↔ Feasible) ∧
      (∀ error, result = some (.error error) ↔ Fault error) ∧ (result = none ↔ Endless) := by
  rcases htotal with hfeasible | hendless | ⟨error, hfault⟩
  · obtain ⟨a, ha⟩ := hok hfeasible
    refine ⟨⟨fun _ => hfeasible, hok⟩, fun error => ⟨fun h => ?_, herror error⟩, fun h => ?_, hnone⟩
    · cases ha.symm.trans h
    · cases ha.symm.trans h
  · have hresult := hnone hendless
    refine ⟨⟨?_, hok⟩, fun error => ⟨fun h => ?_, herror error⟩, fun _ => hendless, hnone⟩
    · rintro ⟨a, ha⟩
      cases hresult.symm.trans ha
    · cases hresult.symm.trans h
  · have hresult := herror error hfault
    refine ⟨⟨?_, hok⟩, fun other => ⟨fun h => ?_, herror other⟩, fun h => ?_, hnone⟩
    · rintro ⟨a, ha⟩
      cases hresult.symm.trans ha
    · cases hresult.symm.trans h
      exact hfault
    · cases hresult.symm.trans h

theorem Anoncrypt.outcome (steps : List Builder.Step) (recipients : List Identity)
    (message : Bytes) (random : Entropy) :
    let builder := Builder.run .empty steps
    let result := (encryptInto builder recipients message).outcome random
    ((∃ envelope, result = some (.ok envelope)) ↔ Feasible builder recipients random) ∧
      (∀ error, result = some (.error error) ↔ Fault builder recipients random error) ∧
      (result = none ↔ Endless builder recipients random) := by
  intro builder result
  refine outcome_iff (feasible_or_endless_or_exists_fault builder recipients random) ?_
    (fun h => h.outcome_encryptInto message) fun error h => h.outcome_encryptInto message
  intro h
  obtain ⟨payload, rest, hrun⟩ := h.exists_run_encryptInto
    (Builder.payload_run_eq_none h.protectedHeader_eq) message
  exact ⟨_, Drawing.outcome_eq_some_iff.2 ⟨rest, hrun⟩⟩

theorem Authcrypt.outcome (steps : List Builder.Step) (recipients : List Identity)
    (sender : Identity) (message : Bytes) (random : Entropy) :
    let builder := Builder.run .empty steps
    let result := (encryptInto builder recipients sender message).outcome random
    ((∃ envelope, result = some (.ok envelope)) ↔ Feasible builder sender recipients random) ∧
      (∀ error, result = some (.error error) ↔ Fault builder sender recipients random error) ∧
      (result = none ↔ Endless sender recipients random) := by
  intro builder result
  refine outcome_iff (feasible_or_endless_or_exists_fault builder sender recipients random) ?_
    (fun h => h.outcome_encryptInto builder message) fun error h => h.outcome_encryptInto message
  intro h
  obtain ⟨envelope, rest, hrun⟩ := h.exists_run_encryptInto
    (Builder.payload_run_eq_none h.protectedHeader_eq) message
  exact ⟨envelope, Drawing.outcome_eq_some_iff.2 ⟨rest, hrun⟩⟩

end SealedEnvelope
