import SealedEnvelope.Proofs.Building.Steps

/-!
# What a history makes of a builder

The steps of a history come in any order, and those that do not fit fail and change nothing.
What is left of them is `Builder.accepted`, and the builder in the end is made of these alone:
its recipients are theirs (`Builder.recipients_run`), its protected header is the first one and
its payload is the first one (`Builder.protectedHeader_run`, `Builder.payload_run`).

The order of the steps matters where the ciphertext is concerned.  Whatever it is bound to was
there before the payload, and from then on it stays as it is (`Builder.associatedData_run`).
`Builder.run_invariant` puts this together with what comes out in the end.
-/

namespace SealedEnvelope.Builder

variable {builder next : Builder} {step : Step} {steps : List Step}

/-! ## Accepted steps -/

namespace Step

/-- The recipient that a step adds. -/
def recipient? : Step → Option Recipient
  | .recipient added => some added
  | _ => none

/-- The header that a step sets to be protected. -/
def protectedHeader? : Step → Option Header
  | .protectedHeader header => some header
  | _ => none

/-- The payload that a step sets. -/
def payload? : Step → Option Payload
  | .payload sealed => some sealed
  | _ => none

theorem recipient?_eq_some {added : Recipient} :
    step.recipient? = some added ↔ step = .recipient added := by
  cases step <;> simp [recipient?]

theorem payload?_eq_some {sealed : Payload} :
    step.payload? = some sealed ↔ step = .payload sealed := by
  cases step <;> simp [payload?]

end Step

/-- The steps of a history that do not fail. -/
def accepted : Builder → List Step → List Step
  | _, [] => []
  | builder, step :: steps =>
    match (take step).run.run builder with
    | (.ok (), next) => step :: next.accepted steps
    | (.error _, next) => next.accepted steps

theorem accepted_cons_of_ok (h : (take step).run.run builder = (.ok (), next)) :
    builder.accepted (step :: steps) = step :: next.accepted steps := by
  rw [accepted, h]

theorem accepted_cons_of_error {cause : Error}
    (h : (take step).run.run builder = (.error cause, next)) :
    builder.accepted (step :: steps) = builder.accepted steps := by
  rw [accepted, h, atomic_take step _ _ _ h]

theorem run_append (builder : Builder) (steps later : List Step) :
    builder.run (steps ++ later) = (builder.run steps).run later :=
  List.foldl_append

/-- What each step adds to what was there is, after a history, what the accepted steps add. -/
theorem run_eq_foldl_accepted {α : Type} (view : Builder → α) (add : α → Step → α)
    (hstep : ∀ {builder step next}, Taken builder step next → view next = add (view builder) step)
    (builder : Builder) (steps : List Step) :
    view (builder.run steps) = (builder.accepted steps).foldl add (view builder) := by
  induction steps generalizing builder with
  | nil => rfl
  | cons step steps ih =>
    rcases htake : (take step).run.run builder with ⟨_ | _, next⟩
    · rw [run_cons_of_error htake, accepted_cons_of_error htake]
      exact ih builder
    · rw [run_cons_of_ok htake, accepted_cons_of_ok htake, ih next,
        hstep (take_eq_ok_iff.1 htake)]
      rfl

/-! ## What is added -/

theorem Taken.recipients_eq (h : builder.Taken step next) :
    next.recipients = builder.recipients ++ step.recipient?.toList := by
  cases h with
  | recipient recipient => rfl
  | flatten | protectedHeader | unprotected | aad | payload => exact (List.append_nil _).symm

/-- A protected header is set once. -/
theorem Taken.protectedHeader_eq (h : builder.Taken step next) :
    next.protectedHeader =
      builder.protectedHeader.or (step.protectedHeader?.map ProtectedHeader.ofHeader) := by
  cases h with
  | protectedHeader header hnone =>
    rw [hnone]
    rfl
  | flatten | unprotected | aad | recipient | payload => exact Option.or_none.symm

/-- A payload is set once. -/
theorem Taken.payload_eq (h : builder.Taken step next) :
    next.payload = builder.payload.or step.payload? := by
  cases h with
  | payload payload hheader hnone =>
    rw [hnone]
    rfl
  | flatten | protectedHeader | unprotected | aad | recipient => exact Option.or_none.symm

theorem foldl_append_toList {α β : Type} {f : α → Option β} (as : List α) (bs : List β) :
    as.foldl (fun bs a => bs ++ (f a).toList) bs = bs ++ as.filterMap f := by
  induction as generalizing bs with
  | nil => exact (List.append_nil bs).symm
  | cons a as ih =>
    rw [List.foldl_cons, ih, List.append_assoc]
    cases hfa : f a with
    | none => rw [List.filterMap_cons_none hfa]; rfl
    | some b => rw [List.filterMap_cons_some hfa]; rfl

theorem foldl_or {α β : Type} {f : α → Option β} (as : List α) (b : Option β) :
    as.foldl (fun b a => b.or (f a)) b = b.or (as.findSome? f) := by
  induction as generalizing b with
  | nil => exact Option.or_none.symm
  | cons a as ih =>
    rw [List.foldl_cons, ih, List.findSome?_cons, Option.or_assoc]
    cases f a <;> rfl

/-- The recipients are those of the accepted steps, in their order. -/
theorem recipients_run (builder : Builder) (steps : List Step) :
    (builder.run steps).recipients =
      builder.recipients ++ (builder.accepted steps).filterMap Step.recipient? := by
  rw [run_eq_foldl_accepted recipients (fun entries step => entries ++ step.recipient?.toList)
    Taken.recipients_eq, foldl_append_toList]

theorem protectedHeader_run (builder : Builder) (steps : List Step) :
    (builder.run steps).protectedHeader = builder.protectedHeader.or
      ((builder.accepted steps).findSome? fun step =>
        step.protectedHeader?.map ProtectedHeader.ofHeader) := by
  rw [run_eq_foldl_accepted Builder.protectedHeader
    (fun header step => header.or (step.protectedHeader?.map ProtectedHeader.ofHeader))
    Taken.protectedHeader_eq, foldl_or]

theorem payload_run (builder : Builder) (steps : List Step) :
    (builder.run steps).payload =
      builder.payload.or ((builder.accepted steps).findSome? Step.payload?) := by
  rw [run_eq_foldl_accepted Builder.payload (fun payload step => payload.or step.payload?)
    Taken.payload_eq, foldl_or]

/-- There is a recipient exactly if one was added. -/
theorem recipients_run_empty_eq_nil_iff :
    (empty.run steps).recipients = [] ↔
      ∀ recipient, .recipient recipient ∉ empty.accepted steps := by
  rw [recipients_run, empty, List.nil_append, List.filterMap_eq_nil_iff]
  constructor
  · intro h recipient hmem
    cases h _ hmem
  · intro h step hmem
    cases hrecipient : step.recipient? with
    | none => rfl
    | some recipient => exact absurd (Step.recipient?_eq_some.1 hrecipient ▸ hmem) (h recipient)

/-- There is a payload exactly if one was set. -/
theorem payload_run_empty_isSome_iff :
    (empty.run steps).payload.isSome = true ↔
      ∃ payload, .payload payload ∈ empty.accepted steps := by
  rw [payload_run, empty, Option.none_or, List.findSome?_isSome_iff]
  constructor
  · rintro ⟨step, hmem, hpayload⟩
    obtain ⟨payload, hpayload⟩ := Option.isSome_iff_exists.1 hpayload
    exact ⟨payload, Step.payload?_eq_some.1 hpayload ▸ hmem⟩
  · rintro ⟨payload, hmem⟩
    exact ⟨_, hmem, rfl⟩

/-! ## What stays -/

/-- A payload needs a protected header. -/
theorem Taken.isSome_protectedHeader (h : builder.Taken step next)
    (hheader : builder.payload.isSome = true → builder.protectedHeader.isSome = true)
    (hpayload : next.payload.isSome = true) : next.protectedHeader.isSome = true := by
  cases h with
  | flatten | unprotected | aad | recipient => exact hheader hpayload
  | protectedHeader => rfl
  | payload payload hisSome => exact hisSome

/-- Where there is a payload there is a protected header. -/
theorem isSome_protectedHeader_run (steps : List Step)
    (hpayload : (empty.run steps).payload.isSome = true) :
    (empty.run steps).protectedHeader.isSome = true :=
  run_induction (P := fun builder => builder.payload.isSome = true →
      builder.protectedHeader.isSome = true)
    (fun _ _ _ hheader htaken => htaken.isSome_protectedHeader hheader)
    steps nofun hpayload

theorem payload_run_eq_none (h : (empty.run steps).protectedHeader = none) :
    (empty.run steps).payload = none := by
  cases hpayload : (empty.run steps).payload with
  | none => rfl
  | some payload =>
    have hheader := isSome_protectedHeader_run steps (Option.isSome_of_eq_some hpayload)
    rw [h] at hheader
    cases hheader

/-- The protected header never changes. -/
theorem protectedHeader_run_of_some {header : ProtectedHeader}
    (h : builder.protectedHeader = some header) (steps : List Step) :
    (builder.run steps).protectedHeader = some header := by
  rw [protectedHeader_run, h, Option.some_or]

/-- The payload never changes. -/
theorem payload_run_of_some {payload : Payload} (h : builder.payload = some payload)
    (steps : List Step) : (builder.run steps).payload = some payload := by
  rw [payload_run, h, Option.some_or]

/-- From the payload on, the additional data never changes. -/
theorem aad_run_of_some {payload : Payload} (h : builder.payload = some payload)
    (steps : List Step) : (builder.run steps).aad = builder.aad := by
  have hrun : (builder.run steps).payload = some payload ∧
      (builder.run steps).aad = builder.aad := by
    refine run_induction (P := fun current => current.payload = some payload ∧
      current.aad = builder.aad) ?_ steps ⟨h, rfl⟩
    rintro current step next ⟨hpayload, haad⟩ htaken
    cases htaken with
    | flatten | protectedHeader | unprotected | recipient => exact ⟨hpayload, haad⟩
    | aad _ hnone | payload _ _ hnone =>
      rw [hpayload] at hnone
      cases hnone
  exact hrun.2

/-- Once there are a protected header and a payload, what the payload is bound to never
changes. -/
theorem associatedData_run {header : ProtectedHeader} {payload : Payload}
    (hheader : builder.protectedHeader = some header) (hpayload : builder.payload = some payload)
    (steps : List Step) : (builder.run steps).associatedData = builder.associatedData := by
  rw [associatedData, associatedData, protectedHeader_run_of_some hheader, hheader,
    aad_run_of_some hpayload]

/-! ## What comes out -/

/-- A payload that is there was set at some point of the history. -/
theorem exists_setPayload {payload : Payload} (h : (builder.run steps).payload = some payload)
    (hnone : builder.payload = none) :
    ∃ before later next, steps = before ++ .payload payload :: later ∧
      (setPayload payload).run.run (builder.run before) = (.ok (), next) := by
  induction steps generalizing builder with
  | nil => cases hnone.symm.trans h
  | cons step steps ih =>
    rcases htake : (take step).run.run builder with ⟨_ | _, next⟩
    · rw [run_cons_of_error htake] at h
      obtain ⟨before, later, next, rfl, hset⟩ := ih h hnone
      refine ⟨step :: before, later, next, rfl, ?_⟩
      rw [run_cons_of_error htake]
      exact hset
    · rw [run_cons_of_ok htake] at h
      cases hpayload : next.payload with
      | none =>
        obtain ⟨before, later, filled, rfl, hset⟩ := ih h hpayload
        refine ⟨step :: before, later, filled, rfl, ?_⟩
        rw [run_cons_of_ok htake]
        exact hset
      | some other =>
        -- This is the step that sets it, and what it sets is what stays.
        obtain rfl : other = payload :=
          Option.some.inj ((payload_run_of_some hpayload steps).symm.trans h)
        have hstep := (take_eq_ok_iff.1 htake).payload_eq
        rw [hnone, Option.none_or, hpayload] at hstep
        obtain rfl := Step.payload?_eq_some.1 hstep.symm
        exact ⟨[], steps, next, rfl, htake⟩

/-- An envelope comes out exactly if nothing is missing. -/
theorem exists_build_iff :
    (∃ envelope, builder.build = .ok envelope) ↔
      builder.recipients ≠ [] ∧ builder.protectedHeader.isSome = true ∧
        builder.payload.isSome = true := by
  unfold build
  cases builder.recipients with
  | nil => simp
  | cons _ _ => cases builder.protectedHeader <;> cases builder.payload <;> simp

/-- That there are no recipients is noticed first. -/
theorem build_eq_error_iff {cause : Error} :
    builder.build = .error cause ↔
      (builder.recipients = [] ∧ cause = .noRecipients) ∨
        builder.recipients ≠ [] ∧
          ¬(builder.protectedHeader.isSome = true ∧ builder.payload.isSome = true) ∧
          cause = .configuration .payloadNeverSet := by
  unfold build
  rw [@eq_comm _ cause, @eq_comm _ cause]
  cases builder.recipients with
  | nil => simp
  | cons _ _ => cases builder.protectedHeader <;> cases builder.payload <;> simp

/-- The parts of an envelope are those of its builder. -/
theorem eq_of_build {envelope : Envelope} (h : builder.build = .ok envelope) :
    builder.recipients ≠ [] ∧ builder = ⟨some envelope.protectedHeader, envelope.unprotected,
      envelope.recipients, envelope.aad, some envelope.payload, envelope.flattened⟩ := by
  obtain ⟨hne, hheader, hpayload⟩ := exists_build_iff.1 ⟨envelope, h⟩
  obtain ⟨header, hheader⟩ := Option.isSome_iff_exists.1 hheader
  obtain ⟨payload, hpayload⟩ := Option.isSome_iff_exists.1 hpayload
  obtain ⟨-, rfl⟩ := (build_eq_ok_iff hheader hpayload).1 h
  refine ⟨hne, ?_⟩
  rw [← hheader, ← hpayload]

/-- The payload of an envelope that comes out is bound to what the builder says. -/
theorem associatedData_of_build {envelope : Envelope} (h : builder.build = .ok envelope) :
    builder.payload = some envelope.payload ∧
      builder.associatedData = .ok envelope.associatedData := by
  obtain ⟨-, hbuilder⟩ := eq_of_build h
  rw [hbuilder]
  exact ⟨rfl, rfl⟩

/-- **Whatever the order of the steps, and whichever of them fail.**  A step does what is listed or
fails, and one that fails leaves the builder as it was.  A payload comes after the protected
header, which stays as it is once it is there, and from the payload on nothing that it is bound to
changes.  The recipients are those that were added without failure, in that order and with
different names.  An envelope comes out exactly if a recipient was added and a payload was set, and
its payload is bound to what the builder said when it was set. -/
theorem run_invariant (steps : List Step) :
    let builder := empty.run steps
    let accepted := empty.accepted steps
    (∀ step next, (take step).run.run builder = (.ok (), next) ↔ builder.Taken step next) ∧
    (∀ step cause next, (take step).run.run builder = (.error cause, next) →
      next = builder ∧ empty.run (steps ++ [step]) = builder) ∧
    (builder.payload.isSome = true → builder.protectedHeader.isSome = true) ∧
    (∀ later header, builder.protectedHeader = some header →
      (empty.run (steps ++ later)).protectedHeader = some header) ∧
    (∀ later payload, builder.payload = some payload →
      (empty.run (steps ++ later)).payload = some payload ∧
      (empty.run (steps ++ later)).aad = builder.aad ∧
      (empty.run (steps ++ later)).associatedData = builder.associatedData) ∧
    builder.recipients = accepted.filterMap Step.recipient? ∧
    builder.kids.Nodup ∧
    ((∃ envelope, builder.build = .ok envelope) ↔
      (∃ recipient, .recipient recipient ∈ accepted) ∧ ∃ payload, .payload payload ∈ accepted) ∧
    (∀ cause, builder.build = .error cause ↔
      ((∀ recipient, .recipient recipient ∉ accepted) ∧ cause = .noRecipients) ∨
      ((∃ recipient, .recipient recipient ∈ accepted) ∧ (∀ payload, .payload payload ∉ accepted) ∧
        cause = .configuration .payloadNeverSet)) ∧
    ∀ envelope, builder.build = .ok envelope →
      ∃ before later next, steps = before ++ .payload envelope.payload :: later ∧
        (setPayload envelope.payload).run.run (empty.run before) = (.ok (), next) ∧
        (empty.run before).associatedData = .ok envelope.associatedData := by
  intro builder accepted
  have hrecipient : builder.recipients ≠ [] ↔ ∃ recipient, .recipient recipient ∈ accepted := by
    rw [ne_eq, recipients_run_empty_eq_nil_iff, Classical.not_forall_not]
  have hsealed : builder.protectedHeader.isSome = true ∧ builder.payload.isSome = true ↔
      builder.payload.isSome = true :=
    ⟨And.right, fun hpayload => ⟨isSome_protectedHeader_run steps hpayload, hpayload⟩⟩
  refine ⟨fun _ _ => take_eq_ok_iff, ?_, isSome_protectedHeader_run steps, ?_, ?_,
    recipients_run empty steps, kids_nodup_run steps, ?_, ?_, ?_⟩
  · intro step cause next htake
    rw [run_append]
    exact ⟨atomic_take step _ _ _ htake, run_cons_of_error htake⟩
  · intro later header hheader
    rw [run_append]
    exact protectedHeader_run_of_some hheader later
  · intro later payload hpayload
    obtain ⟨header, hheader⟩ := Option.isSome_iff_exists.1
      (isSome_protectedHeader_run steps (Option.isSome_of_eq_some hpayload))
    rw [run_append]
    exact ⟨payload_run_of_some hpayload later, aad_run_of_some hpayload later,
      associatedData_run hheader hpayload later⟩
  · rw [exists_build_iff, hsealed, payload_run_empty_isSome_iff, hrecipient]
  · intro cause
    rw [build_eq_error_iff, hsealed, payload_run_empty_isSome_iff, not_exists, hrecipient,
      recipients_run_empty_eq_nil_iff]
  · intro envelope hbuild
    obtain ⟨hpayload, haad⟩ := associatedData_of_build hbuild
    obtain ⟨before, later, next, rfl, hset⟩ := exists_setPayload hpayload rfl
    refine ⟨before, later, next, rfl, hset, ?_⟩
    -- The payload itself is no part of what it is bound to, and the steps behind it keep that.
    have hrun : builder = next.run later := by
      show empty.run (before ++ .payload envelope.payload :: later) = _
      rw [run_append]
      exact run_cons_of_ok hset
    obtain ⟨hheader, -, hnext⟩ := setPayload_eq_ok_iff.1 (Changing.onto_eq_ok_iff.2 hset)
    obtain ⟨header, hheader⟩ := Option.isSome_iff_exists.1 hheader
    have hsame : next.associatedData = (empty.run before).associatedData := by
      rw [hnext]
      rfl
    have hstays : (next.run later).associatedData = next.associatedData :=
      associatedData_run (by rw [hnext]; exact hheader) (by rw [hnext]) later
    rw [← hsame, ← hstays, ← hrun, haad]

/-- Of these steps seven fail: a payload before the protected header, a name for the second time,
and everything that comes after the payload and is bound to it or replaces it. -/
theorem run_invariant_of_failing_steps :
    let header : Header := ⟨[("typ", .string "example")]⟩
    let bob : Recipient := ⟨⟨[("kid", .string "bob")]⟩, [1, 2]⟩
    let unnamed : Recipient := ⟨.empty, []⟩
    let sealed : Payload := ⟨[1], [2], [3]⟩
    let before : List Step := [.payload ⟨[], [], []⟩, .aad [9], .recipient bob,
      .recipient ⟨⟨[("kid", .string "bob")]⟩, []⟩, .protectedHeader header, .protectedHeader .empty]
    let steps := before ++ .payload sealed :: [.aad [1], .payload ⟨[], [], []⟩, .recipient unnamed,
      .protectedHeader .empty, .recipient bob]
    let builder := empty.run steps
    (∃ cause next, (take (.aad [1])).run.run builder = (.error cause, next) ∧ next = builder) ∧
      builder.recipients = [bob, unnamed] ∧ builder.kids.Nodup ∧
      (∃ envelope, builder.build = .ok envelope ∧
        (empty.run before).associatedData = .ok envelope.associatedData) ∧
      (empty.run (steps ++ [.aad [1], .protectedHeader .empty])).associatedData =
        builder.associatedData := by
  intro header bob unnamed sealed before steps builder
  obtain ⟨-, hfails, -, -, hstays, hrecipients, hnodup, hbuild, -, -⟩ := run_invariant steps
  obtain ⟨envelope, henvelope⟩ := hbuild.2
    ⟨⟨bob, .tail _ (.head _)⟩, sealed, .tail _ (.tail _ (.tail _ (.head _)))⟩
  let aad := Text.Base64Url.encode [9]
  have hbefore : empty.run before =
      ⟨some (.ofHeader header), none, [bob], some aad, none, false⟩ := rfl
  have hbuilder : builder =
      ⟨some (.ofHeader header), none, [bob, unnamed], some aad, some sealed, false⟩ := rfl
  obtain ⟨cause, next, htake⟩ :
      ∃ cause next, (take (.aad [1])).run.run builder = (.error cause, next) := by
    rw [hbuilder]
    exact ⟨_, _, rfl⟩
  have haad : (empty.run before).associatedData = builder.associatedData := by
    rw [hbefore, hbuilder]
    rfl
  have hpayload : builder.payload = some sealed := congrArg payload hbuilder
  exact ⟨⟨cause, next, htake, (hfails _ _ _ htake).1⟩, hrecipients, hnodup,
    ⟨envelope, henvelope, haad.trans (associatedData_of_build henvelope).2⟩,
    (hstays [.aad [1], .protectedHeader .empty] sealed hpayload).2.2⟩

end SealedEnvelope.Builder
