import SealedEnvelope.Envelope.Builder
import SealedEnvelope.Proofs.Changing

/-!
# The steps of building an envelope

`Builder.Taken` lists what a step can do.  It has a constructor for each kind of step, with what
the step asks of the builder, and a step succeeds exactly in these ways
(`Builder.take_eq_ok_iff`).  All steps look at the builder before they change it, so one that
fails leaves it as it was (`Builder.atomic_take`).  What the others preserve holds after any
history (`Builder.run_induction`).

A recipient looks for the entry with its own name, so it matters that no name occurs twice.
A builder sees to that with each recipient that is added (`Builder.Taken.kids_nodup`), and so
it holds after any history (`Builder.kids_nodup_run`).
-/

namespace SealedEnvelope.Builder

variable {builder next : Builder}

/-! ## Recipients -/

/-- The names of the recipients, in order. -/
def kids (builder : Builder) : List String := builder.recipients.filterMap Recipient.kid?

theorem hasRecipient_iff {kid : String} : builder.hasRecipient kid = true ↔ kid ∈ builder.kids := by
  rw [hasRecipient, List.any_eq_true, kids, List.mem_filterMap]
  simp only [decide_eq_true_eq]

theorem kids_append (builder : Builder) (entries : List Recipient) :
    { builder with recipients := builder.recipients ++ entries }.kids =
      builder.kids ++ entries.filterMap Recipient.kid? :=
  List.filterMap_append

theorem checks_addRecipient (entry : Recipient) :
    (addRecipient entry).Checks
      (fun builder => entry.kid?.bind fun kid =>
        if builder.hasRecipient kid then some (.configuration (.duplicateRecipient kid)) else none)
      fun builder => { builder with recipients := builder.recipients ++ [entry] } := by
  intro builder
  unfold addRecipient
  cases entry.kid? with
  | none => rfl
  | some kid =>
    dsimp only [Option.bind_some]
    show (if builder.hasRecipient kid then _ else _ : Changing Builder Unit).run.run builder = _
    cases builder.hasRecipient kid <;> rfl

/-- A recipient is added behind the others, exactly if its name is new. -/
theorem addRecipient_eq_ok_iff {entry : Recipient} :
    (addRecipient entry).onto builder = .ok next ↔
      (∀ kid ∈ entry.kid?, kid ∉ builder.kids) ∧
        next = { builder with recipients := builder.recipients ++ [entry] } := by
  rw [(checks_addRecipient entry).onto_eq_ok_iff]
  refine and_congr_left fun _ => ?_
  cases entry.kid? with
  | none => simp
  | some kid => simp [← hasRecipient_iff]

theorem addRecipient_eq_error {entry : Recipient} {kid : String} (hkid : entry.kid? = some kid)
    (hmem : kid ∈ builder.kids) :
    (addRecipient entry).onto builder = .error (.configuration (.duplicateRecipient kid)) := by
  refine (checks_addRecipient entry).onto_eq_error ?_
  rw [hkid]
  exact if_pos (hasRecipient_iff.2 hmem)

theorem kids_nodup_addRecipient {entry : Recipient} (h : builder.kids.Nodup)
    (hadd : (addRecipient entry).onto builder = .ok next) : next.kids.Nodup := by
  obtain ⟨hnew, rfl⟩ := addRecipient_eq_ok_iff.1 hadd
  rw [kids_append, List.nodup_append]
  refine ⟨h, ?_, ?_⟩
  · cases hkid : entry.kid? <;> simp [hkid]
  · intro kid hmem other hother
    rw [List.mem_filterMap] at hother
    obtain ⟨entry', hentry, hother⟩ := hother
    obtain rfl := List.mem_singleton.1 hentry
    rintro rfl
    exact hnew kid hother hmem

/-! ## The other steps -/

theorem checks_setProtected (header : Header) :
    (setProtected header).Checks
      (fun builder =>
        builder.protectedHeader.map fun _ => .configuration .protectedHeaderAlreadySet)
      fun builder => { builder with protectedHeader := some (.ofHeader header) } := by
  rintro ⟨_ | _, _, _, _, _, _⟩ <;> rfl

theorem setProtected_eq_ok_iff {header : Header} :
    (setProtected header).onto builder = .ok next ↔
      builder.protectedHeader = none ∧
        next = { builder with protectedHeader := some (.ofHeader header) } := by
  rw [(checks_setProtected header).onto_eq_ok_iff, Option.map_eq_none_iff]

theorem setProtected_eq_error (h : builder.protectedHeader.isSome = true) (header : Header) :
    (setProtected header).onto builder = .error (.configuration .protectedHeaderAlreadySet) := by
  obtain ⟨_, hheader⟩ := Option.isSome_iff_exists.1 h
  exact (checks_setProtected header).onto_eq_error (by rw [hheader]; rfl)

theorem checks_setAad (aad : Bytes) :
    (setAad aad).Checks
      (fun builder => builder.payload.map fun _ => .configuration .aadAfterPayload)
      fun builder => { builder with aad := some (Text.Base64Url.encode aad) } := by
  rintro ⟨_, _, _, _, _ | _, _⟩ <;> rfl

theorem setAad_eq_ok_iff {aad : Bytes} :
    (setAad aad).onto builder = .ok next ↔
      builder.payload = none ∧
        next = { builder with aad := some (Text.Base64Url.encode aad) } := by
  rw [(checks_setAad aad).onto_eq_ok_iff, Option.map_eq_none_iff]

theorem checks_setPayload (payload : Payload) :
    (setPayload payload).Checks
      (fun builder =>
        if builder.protectedHeader.isNone then some (.configuration .payloadBeforeProtectedHeader)
        else builder.payload.map fun _ => .configuration .payloadAlreadySet)
      fun builder => { builder with payload := some payload } := by
  rintro ⟨_ | _, _, _, _, _ | _, _⟩ <;> rfl

theorem setPayload_eq_ok_iff {payload : Payload} :
    (setPayload payload).onto builder = .ok next ↔
      builder.protectedHeader.isSome = true ∧ builder.payload = none ∧
        next = { builder with payload := some payload } := by
  rw [(checks_setPayload payload).onto_eq_ok_iff, ← and_assoc]
  refine and_congr_left fun _ => ?_
  cases builder.protectedHeader <;> simp

/-! ## Taking a step -/

/-- What a step can do, and what it asks of the builder. -/
inductive Taken (builder : Builder) : Step → Builder → Prop
  | flatten (flatten : Bool) : Taken builder (.flatten flatten) { builder with flatten := flatten }
  | protectedHeader (header : Header) (hnone : builder.protectedHeader = none) :
      Taken builder (.protectedHeader header)
        { builder with protectedHeader := some (.ofHeader header) }
  | unprotected (header : Header) :
      Taken builder (.unprotected header) { builder with unprotected := some header }
  | aad (aad : Bytes) (hnone : builder.payload = none) :
      Taken builder (.aad aad) { builder with aad := some (Text.Base64Url.encode aad) }
  | recipient (recipient : Recipient) (hnew : ∀ kid ∈ recipient.kid?, kid ∉ builder.kids) :
      Taken builder (.recipient recipient)
        { builder with recipients := builder.recipients ++ [recipient] }
  | payload (payload : Payload) (hheader : builder.protectedHeader.isSome = true)
      (hnone : builder.payload = none) :
      Taken builder (.payload payload) { builder with payload := some payload }

/-- A step succeeds exactly in the ways that are listed. -/
theorem take_eq_ok_iff {step : Step} :
    (take step).run.run builder = (.ok (), next) ↔ builder.Taken step next := by
  rw [← Changing.onto_eq_ok_iff]
  constructor
  · intro h
    cases step with
    | flatten flatten =>
      cases h
      exact .flatten flatten
    | protectedHeader header =>
      obtain ⟨hnone, rfl⟩ := setProtected_eq_ok_iff.1 h
      exact .protectedHeader header hnone
    | unprotected header =>
      cases h
      exact .unprotected header
    | aad aad =>
      obtain ⟨hnone, rfl⟩ := setAad_eq_ok_iff.1 h
      exact .aad aad hnone
    | recipient recipient =>
      obtain ⟨hnew, rfl⟩ := addRecipient_eq_ok_iff.1 h
      exact .recipient recipient hnew
    | payload payload =>
      obtain ⟨hheader, hnone, rfl⟩ := setPayload_eq_ok_iff.1 h
      exact .payload payload hheader hnone
  · intro h
    cases h with
    | flatten flatten => rfl
    | protectedHeader header hnone => exact setProtected_eq_ok_iff.2 ⟨hnone, rfl⟩
    | unprotected header => rfl
    | aad aad hnone => exact setAad_eq_ok_iff.2 ⟨hnone, rfl⟩
    | recipient recipient hnew => exact addRecipient_eq_ok_iff.2 ⟨hnew, rfl⟩
    | payload payload hheader hnone => exact setPayload_eq_ok_iff.2 ⟨hheader, hnone, rfl⟩

/-- **A step that fails leaves the builder as it was.** -/
theorem atomic_take : ∀ step : Step, (take step).Atomic
  | .flatten flatten => (Changing.checks_modify fun builder : Builder =>
      builder.withFlatten flatten).atomic
  | .protectedHeader header => (checks_setProtected header).atomic
  | .unprotected _ => (Changing.checks_modify _).atomic
  | .aad aad => (checks_setAad aad).atomic
  | .recipient recipient => (checks_addRecipient recipient).atomic
  | .payload payload => (checks_setPayload payload).atomic

/-! ## Histories -/

theorem run_cons_of_ok {step : Step} {steps : List Step}
    (h : (take step).run.run builder = (.ok (), next)) :
    builder.run (step :: steps) = next.run steps := by
  show ((take step).run.run builder).2.run steps = _
  rw [h]

/-- A step that fails counts for nothing. -/
theorem run_cons_of_error {step : Step} {steps : List Step} {cause : Error}
    (h : (take step).run.run builder = (.error cause, next)) :
    builder.run (step :: steps) = builder.run steps := by
  show ((take step).run.run builder).2.run steps = _
  rw [h, atomic_take step _ _ _ h]

/-- What each step preserves that does not fail holds after a history. -/
theorem run_induction {P : Builder → Prop}
    (hstep : ∀ builder step next, P builder → Taken builder step next → P next)
    (steps : List Step) (h : P builder) : P (builder.run steps) := by
  induction steps generalizing builder with
  | nil => exact h
  | cons step steps ih =>
    rcases htake : (take step).run.run builder with ⟨_ | _, next⟩
    · rw [run_cons_of_error htake]
      exact ih h
    · rw [run_cons_of_ok htake]
      exact ih (hstep builder step next h (take_eq_ok_iff.1 htake))

/-- No step makes two recipients have one name. -/
theorem Taken.kids_nodup {step : Step} (htaken : builder.Taken step next)
    (h : builder.kids.Nodup) : next.kids.Nodup := by
  cases htaken with
  | flatten | protectedHeader | unprotected | aad | payload => exact h
  | recipient recipient hnew =>
    exact kids_nodup_addRecipient h (addRecipient_eq_ok_iff.2 ⟨hnew, rfl⟩)

/-- **After any history no two recipients have one name.** -/
theorem kids_nodup_run (steps : List Step) : (empty.run steps).kids.Nodup :=
  run_induction (fun _ _ _ h htaken => htaken.kids_nodup h) steps List.nodup_nil

/-! ## Building -/

/-- The envelope that a builder makes which lacks nothing but perhaps recipients. -/
theorem build_eq_ok_iff {header : ProtectedHeader} (hheader : builder.protectedHeader = some header)
    {payload : Payload} (hpayload : builder.payload = some payload) {envelope : Envelope} :
    builder.build = .ok envelope ↔
      builder.recipients ≠ [] ∧ envelope = ⟨header, builder.unprotected, builder.recipients,
        builder.aad, payload, builder.flatten⟩ := by
  rw [build, hheader, hpayload]
  cases builder.recipients with
  | nil => simp
  | cons _ _ => simp [eq_comm]

end SealedEnvelope.Builder
