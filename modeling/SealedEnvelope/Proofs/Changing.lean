import SealedEnvelope.Changing

/-!
# Changes that look before they change anything

A change that fails may have changed something before it failed.  Those here do not: they look at
the state first, and either refuse or go through (`Changing.Checks`).  So a failure leaves the
state as it was (`Changing.Checks.atomic`).
-/

namespace SealedEnvelope.Changing

variable {σ : Type} {change : Changing σ Unit} {state after : σ} {error : Error}

/-- If the change fails it leaves the state as it was. -/
def Atomic (change : Changing σ Unit) : Prop :=
  ∀ state error after, change.run.run state = (.error error, after) → after = state

theorem onto_eq_ok_iff :
    change.onto state = .ok after ↔ change.run.run state = (.ok (), after) := by
  rw [onto]
  rcases change.run.run state with ⟨result, next⟩
  cases result with
  | error cause => exact ⟨nofun, nofun⟩
  | ok _ => exact ⟨fun h => Except.ok.inj h ▸ rfl, fun h => congrArg Except.ok (Prod.mk.inj h).2⟩

theorem onto_eq_error (h : change.run.run state = (.error error, after)) :
    change.onto state = .error error := by
  rw [onto, h]
  rfl

/-- The change goes through, and leaves the state that is given, unless there is a reason to
refuse. -/
def Checks (change : Changing σ Unit) (refuses : σ → Option Error) (next : σ → σ) : Prop :=
  ∀ state, change.run.run state =
    match refuses state with
    | some error => (.error error, state)
    | none => (.ok (), next state)

namespace Checks

variable {refuses : σ → Option Error} {next : σ → σ}

theorem run_eq_ok_iff (h : change.Checks refuses next) :
    change.run.run state = (.ok (), after) ↔ refuses state = none ∧ after = next state := by
  rw [h state]
  cases refuses state with
  | some error => exact ⟨nofun, nofun⟩
  | none => exact ⟨fun hrun => ⟨rfl, (Prod.mk.inj hrun).2.symm⟩, fun ⟨_, hnext⟩ => hnext ▸ rfl⟩

theorem run_eq_error_iff (h : change.Checks refuses next) :
    change.run.run state = (.error error, after) ↔
      refuses state = some error ∧ after = state := by
  rw [h state]
  cases refuses state with
  | none => exact ⟨nofun, nofun⟩
  | some cause =>
    constructor
    · intro hrun
      cases hrun
      exact ⟨rfl, rfl⟩
    · rintro ⟨hcause, rfl⟩
      rw [Option.some.inj hcause]

theorem onto_eq_ok_iff (h : change.Checks refuses next) :
    change.onto state = .ok after ↔ refuses state = none ∧ after = next state :=
  Changing.onto_eq_ok_iff.trans h.run_eq_ok_iff

theorem onto_eq_error (h : change.Checks refuses next) (hrefuses : refuses state = some error) :
    change.onto state = .error error :=
  Changing.onto_eq_error (h.run_eq_error_iff.2 ⟨hrefuses, rfl⟩)

/-- **Whoever looks first has nothing to undo.** -/
theorem atomic (h : change.Checks refuses next) : change.Atomic :=
  fun _ _ _ hrun => (h.run_eq_error_iff.1 hrun).2

end Checks

/-- A plain change has no reason to refuse. -/
theorem checks_modify (next : σ → σ) :
    (modify next : Changing σ Unit).Checks (fun _ => none) next := fun _ => rfl

end SealedEnvelope.Changing
