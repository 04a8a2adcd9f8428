import SealedEnvelope.Drawing

/-!
# What a computation that draws can give

A computation draws octets as it goes, and what it gives depends on them.  `Drawing.Gives`
forgets the octets and keeps the values that the computation gives from one source or
another.  A chain gives what its steps give, so that a chain which did give a value is taken
apart step by step, and nothing more is said about sources.

Where it matters which octets were drawn, the same is done for a run from a given source: a
chain gives a value and leaves a source exactly if its steps hand the source on
(`run_bind_eq_ok_iff`).  A chain ends with its first step if that one fails, and it never ends
if that one never does.
-/

namespace SealedEnvelope.Drawing

variable {α β : Type} {a : α} {b : β}

/-- The computation gives the value from some source of octets. -/
def Gives (computation : Drawing α) (a : α) : Prop :=
  ∃ random rest, computation.run.run random = some (.ok a, rest)

/-! ## Runs from a given source -/

section Runs

variable {random rest : Entropy} {error : Error} {first : Drawing α} {next : α → Drawing β}
  {computation : Drawing α} {draw : Draw α} {result : Except Error α}

/-- A chain runs its second step from what the first one leaves. -/
theorem run_bind (first : Drawing α) (next : α → Drawing β) (random : Entropy) :
    (first >>= next).run.run random = (first.run.run random).bind fun (result, middle) =>
      (ExceptT.bindCont next result : Draw _).run middle := rfl

/-- A chain gives a value exactly if its steps do, the second from what the first one leaves. -/
theorem run_bind_eq_ok_iff :
    (first >>= next).run.run random = some (.ok b, rest) ↔
      ∃ a middle, first.run.run random = some (.ok a, middle) ∧
        (next a).run.run middle = some (.ok b, rest) := by
  rw [run_bind, Option.bind_eq_some_iff]
  constructor
  · rintro ⟨⟨result, middle⟩, hfirst, h⟩
    cases result with
    | error cause => cases h
    | ok a => exact ⟨a, middle, hfirst, h⟩
  · rintro ⟨a, middle, hfirst, h⟩
    exact ⟨(.ok a, middle), hfirst, h⟩

/-- A result that is known gives what it is. -/
theorem run_liftM (result : Except Error α) (random : Entropy) :
    (liftM result : Drawing α).run.run random = some (result, random) := rfl

theorem run_liftM_eq_ok_iff :
    (liftM result : Drawing α).run.run random = some (.ok a, rest) ↔
      result = .ok a ∧ random = rest := by
  rw [run_liftM, Option.some.injEq, Prod.mk.injEq]

/-- What is drawn and can not fail is a value. -/
theorem run_draw (draw : Draw α) (random : Entropy) :
    (liftM draw : Drawing α).run.run random =
      (draw.run random).map fun (a, rest) => (.ok a, rest) :=
  (Option.map_eq_bind ..).symm

theorem run_draw_eq_ok_iff :
    (liftM draw : Drawing α).run.run random = some (.ok a, rest) ↔
      draw.run random = some (a, rest) := by
  rw [run_draw, Option.map_eq_some_iff]
  constructor
  · rintro ⟨⟨a, rest⟩, hdraw, ⟨⟩⟩
    exact hdraw
  · intro hdraw
    exact ⟨(a, rest), hdraw, rfl⟩

theorem run_failingWith (error : Error) (computation : Drawing α) (random : Entropy) :
    (computation.failingWith error).run.run random =
      (computation.run.run random).map fun (result, rest) =>
        (result.mapError fun _ => error, rest) :=
  (Option.map_eq_bind ..).symm

theorem run_failingWith_eq_ok_iff :
    (computation.failingWith error).run.run random = some (.ok a, rest) ↔
      computation.run.run random = some (.ok a, rest) := by
  rw [run_failingWith, Option.map_eq_some_iff]
  constructor
  · rintro ⟨⟨result, middle⟩, hrun, h⟩
    cases result with
    | error cause => cases h
    | ok other =>
      cases h
      exact hrun
  · intro hrun
    exact ⟨(.ok a, rest), hrun, rfl⟩

/-- What a chain does once its first step gave a value. -/
theorem run_bind_of_ok (h : first.run.run random = some (.ok a, rest)) :
    (first >>= next).run.run random = (next a).run.run rest := by
  rw [run_bind, h]
  rfl

/-- A chain fails with the error of its first step. -/
theorem run_bind_of_error (h : first.run.run random = some (.error error, rest)) :
    (first >>= next).run.run random = some (.error error, rest) := by
  rw [run_bind, h]
  rfl

/-- A chain never ends if its first step does not. -/
theorem run_bind_of_none (h : first.run.run random = none) :
    (first >>= next).run.run random = none := by
  rw [run_bind, h]
  rfl

theorem run_liftM_bind (h : result = .ok a) :
    ((liftM result : Drawing α) >>= next).run.run random = (next a).run.run random :=
  run_bind_of_ok (run_liftM_eq_ok_iff.2 ⟨h, rfl⟩)

theorem run_liftM_bind_of_error (h : result = .error error) :
    ((liftM result : Drawing α) >>= next).run.run random = some (.error error, random) :=
  run_bind_of_error (congrArg (fun result => some (result, random)) h)

theorem run_draw_bind (h : draw.run random = some (a, rest)) :
    ((liftM draw : Drawing α) >>= next).run.run random = (next a).run.run rest :=
  run_bind_of_ok (run_draw_eq_ok_iff.2 h)

theorem run_draw_bind_of_none (h : draw.run random = none) :
    ((liftM draw : Drawing α) >>= next).run.run random = none :=
  run_bind_of_none (by rw [run_draw, h]; rfl)

/-! ## Outcomes -/

theorem outcome_eq_some_iff :
    computation.outcome random = some result ↔
      ∃ rest, computation.run.run random = some (result, rest) := by
  rw [outcome, Option.map_eq_some_iff]
  constructor
  · rintro ⟨⟨result, rest⟩, h, rfl⟩
    exact ⟨rest, h⟩
  · rintro ⟨rest, h⟩
    exact ⟨(result, rest), h, rfl⟩

theorem outcome_eq_none_iff :
    computation.outcome random = none ↔ computation.run.run random = none :=
  Option.map_eq_none_iff

end Runs

/-! ## Runs from some source -/

/-- What a chain gives comes from what its first step gives. -/
theorem Gives.of_bind {first : Drawing α} {next : α → Drawing β} (h : (first >>= next).Gives b) :
    ∃ a, first.Gives a ∧ (next a).Gives b := by
  obtain ⟨random, rest, h⟩ := h
  obtain ⟨a, middle, hfirst, hnext⟩ := run_bind_eq_ok_iff.1 h
  exact ⟨a, ⟨random, middle, hfirst⟩, ⟨middle, rest, hnext⟩⟩

theorem not_gives_throw {error : Error} : ¬(throw error : Drawing α).Gives a := by
  rintro ⟨random, rest, h⟩
  cases h

theorem gives_liftM_iff {result : Except Error α} :
    (liftM result : Drawing α).Gives a ↔ result = .ok a := by
  constructor
  · rintro ⟨random, rest, h⟩
    exact (run_liftM_eq_ok_iff.1 h).1
  · intro h
    exact ⟨⟨[], fun _ => 0, 0⟩, _, run_liftM_eq_ok_iff.2 ⟨h, rfl⟩⟩

/-- What is given by a computation that draws and can not fail. -/
theorem Gives.of_draw {draw : Draw α} (h : (liftM draw : Drawing α).Gives a) :
    ∃ random rest, draw.run random = some (a, rest) := by
  obtain ⟨random, rest, h⟩ := h
  exact ⟨random, rest, run_draw_eq_ok_iff.1 h⟩

theorem Gives.of_failingWith {error : Error} {computation : Drawing α}
    (h : (computation.failingWith error).Gives a) : computation.Gives a := by
  obtain ⟨random, rest, h⟩ := h
  exact ⟨random, rest, run_failingWith_eq_ok_iff.1 h⟩

end SealedEnvelope.Drawing
