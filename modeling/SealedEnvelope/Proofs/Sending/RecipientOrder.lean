import SealedEnvelope.Proofs.Sending.Authcrypt

/-!
# The order of the recipients

With a known sender it does not matter in which order the recipients are given: the same
octets are drawn, the same payload is sealed under the same header, and each recipient gets
the same entry, in the place where it was given (`Authcrypt.encryptInto_perm`).

The recipients come into the header through their joined names, which are sorted.  A sorted
list is determined by what it holds, since the order of texts is total and no two texts are
equal in it.
-/

namespace SealedEnvelope.Authcrypt

variable {builder : Builder} {recipients reordered : List Identity} {sender : Identity}
  {message : Bytes} {random : Entropy}

theorem pairwise_mergeSort (names : List String) :
    (names.mergeSort fun a b => a ≤ b).Pairwise fun a b => a ≤ b := by
  have hsorted := @List.pairwise_mergeSort String (fun a b => a ≤ b)
    (fun _ _ _ hab hbc => decide_eq_true
      (String.le_trans (of_decide_eq_true hab) (of_decide_eq_true hbc)))
    (fun a b => by simpa using String.le_total a b) names
  exact hsorted.imp fun h => of_decide_eq_true h

/-- Sorting brings every order of the same texts into one. -/
theorem mergeSort_eq_of_perm {names names' : List String} (h : names.Perm names') :
    (names.mergeSort fun a b => a ≤ b) = names'.mergeSort fun a b => a ≤ b := by
  refine List.Perm.eq_of_pairwise (fun _ _ _ _ => String.le_antisymm) (pairwise_mergeSort names)
    (pairwise_mergeSort names') ?_
  exact (List.mergeSort_perm names _).trans (h.trans (List.mergeSort_perm names' _).symm)

theorem joinedKids_perm (h : recipients.Perm reordered) :
    joinedKids recipients = joinedKids reordered := by
  rw [joinedKids, joinedKids, mergeSort_eq_of_perm (h.map _)]

theorem parties_perm (h : recipients.Perm reordered) :
    parties sender recipients = parties sender reordered := by
  rw [parties, parties, joinedKids_perm h]

theorem Admits.perm (hadmits : Admits builder sender recipients)
    (h : recipients.Perm reordered) : Admits builder sender reordered where
  recipients_ne_nil := by
    rintro rfl
    exact hadmits.recipients_ne_nil h.eq_nil
  hasSecret := hadmits.hasSecret
  supportsAgreement := hadmits.supportsAgreement
  same_algorithm recipient hmem := hadmits.same_algorithm recipient (h.mem_iff.2 hmem)
  kids_nodup := (h.map _).nodup_iff.1 hadmits.kids_nodup
  kids_new recipient hmem := hadmits.kids_new recipient (h.mem_iff.2 hmem)
  protectedHeader_eq := hadmits.protectedHeader_eq
  payload_eq := hadmits.payload_eq

/-- What encryption makes for recipients it also makes for them in another order, with their
entries in that order. -/
theorem encryptInto_reordered (h : recipients.Perm reordered) {envelope : Envelope} {rest : Entropy}
    (hrun : (encryptInto builder recipients sender message).run.run random =
      some (.ok envelope, rest)) :
    ∃ entryOf : Identity → Recipient,
      (∀ recipient ∈ recipients, (entryOf recipient).kid? = some recipient.kid) ∧
      envelope.recipients = builder.recipients ++ recipients.map entryOf ∧
      (encryptInto builder reordered sender message).run.run random =
        some (.ok { envelope with recipients := builder.recipients ++ reordered.map entryOf },
          rest) := by
  obtain ⟨hadmits, ephemeral, contentKey, payload, hseals, hmakes, rfl⟩ :=
    encryptInto_eq_ok_iff.1 hrun
  -- The header, the keys and the payload depend on the recipients through the parties alone.
  rw [parties_perm h] at hseals hmakes ⊢
  refine ⟨Builder.entryOf
      (entry (parties sender reordered) sender ephemeral contentKey payload.tag),
    ?_, rfl, encryptInto_eq_ok_iff.2 ⟨hadmits.perm h, ephemeral, contentKey, payload, hseals,
      fun recipient hmem => hmakes recipient (h.mem_iff.2 hmem), rfl⟩⟩
  intro recipient hmem
  obtain ⟨made, hmade⟩ := hmakes recipient hmem
  rw [Builder.entryOf_eq hmade]
  exact kid?_of_entry recipient made hmade

/-- **The order of the recipients does not matter.**  A message is encrypted in one order exactly
if it is encrypted in the other.  Then the same octets are drawn, the two envelopes are the same
but for their entries, and of these each recipient has the same one in both. -/
theorem encryptInto_perm (h : recipients.Perm reordered) :
    let run (recipients : List Identity) :=
      (encryptInto builder recipients sender message).run.run random
    ((∃ envelope rest, run recipients = some (.ok envelope, rest)) ↔
      ∃ envelope rest, run reordered = some (.ok envelope, rest)) ∧
    ∀ one other rest rest', run recipients = some (.ok one, rest) →
      run reordered = some (.ok other, rest') →
      rest = rest' ∧
      one.protectedHeader = other.protectedHeader ∧ one.unprotected = other.unprotected ∧
      one.aad = other.aad ∧ one.payload = other.payload ∧ one.flattened = other.flattened ∧
      ∃ entryOf : Identity → Recipient,
        (∀ recipient ∈ recipients, (entryOf recipient).kid? = some recipient.kid) ∧
        one.recipients = builder.recipients ++ recipients.map entryOf ∧
        other.recipients = builder.recipients ++ reordered.map entryOf := by
  intro run
  refine ⟨⟨?_, ?_⟩, ?_⟩
  · rintro ⟨envelope, rest, hrun⟩
    obtain ⟨entryOf, -, -, hrun'⟩ := encryptInto_reordered h hrun
    exact ⟨_, rest, hrun'⟩
  · rintro ⟨envelope, rest, hrun⟩
    obtain ⟨entryOf, -, -, hrun'⟩ := encryptInto_reordered h.symm hrun
    exact ⟨_, rest, hrun'⟩
  · intro one other rest rest' hone hother
    obtain ⟨entryOf, hkid, hrecipients, hrun⟩ := encryptInto_reordered h hone
    cases hother.symm.trans hrun
    exact ⟨rfl, rfl, rfl, rfl, rfl, rfl, entryOf, hkid, hrecipients, rfl⟩

/-- Two recipients behind one that was there before, in both orders. -/
theorem encryptInto_perm_of_two :
    let alice : Identity := ⟨.ofScalar ⟨3, by decide, by decide⟩, "alice"⟩
    let bob : Identity := ⟨.ofScalar ⟨7, by decide, by decide⟩, "bob"⟩
    let carol : Identity := ⟨.ofScalar ⟨11, by decide, by decide⟩, "carol"⟩
    let random : Entropy := .repeating 1 0
    let before : Recipient := ⟨⟨[("kid", .string "dave")]⟩, [1, 2]⟩
    let builder : Builder := .run .empty [.recipient before, .flatten true]
    ∃ one other rest rest' atBob atCarol,
      (encryptInto builder [carol.toPublic, bob.toPublic] alice [1, 2, 3]).run.run random =
        some (.ok one, rest) ∧
      (encryptInto builder [bob.toPublic, carol.toPublic] alice [1, 2, 3]).run.run random =
        some (.ok other, rest') ∧
      rest = rest' ∧ one.protectedHeader = other.protectedHeader ∧ one.payload = other.payload ∧
      one.recipients = [before, atCarol, atBob] ∧ other.recipients = [before, atBob, atCarol] := by
  intro alice bob carol random before builder
  have hjoined : joinedKids [carol.toPublic, bob.toPublic] = "bob.carol" := by
    simp [joinedKids, List.mergeSort, bob, carol, Identity.toPublic]
  have hfits : (parties alice [carol.toPublic, bob.toPublic]).Fits := by
    rw [parties, hjoined]
    exact ⟨by decide, by decide, by decide⟩
  have hagrees : Agrees alice [carol.toPublic, bob.toPublic] := by
    refine ⟨nofun, rfl, nofun, ?_⟩
    rintro recipient (_ | ⟨_, _ | ⟨_, ⟨⟩⟩⟩) <;> exact (rfl : Algorithm.secp256k1 = .secp256k1)
  have hnodup : ["carol", "bob"].Nodup := by decide
  have hnew : ∀ recipient ∈ [carol.toPublic, bob.toPublic], recipient.kid ∉ builder.kids := by
    rintro recipient (_ | ⟨_, _ | ⟨_, ⟨⟩⟩⟩)
    · exact (by decide : "carol" ∉ ["dave"])
    · exact (by decide : "bob" ∉ ["dave"])
  obtain ⟨ephemeral, hephemeral⟩ := exists_ephemeral?_ones alice 0
  have hfeasible : Feasible builder alice [carol.toPublic, bob.toPublic] random :=
    .of_secp256k1 hagrees rfl hfits hnodup hnew hephemeral rfl
  obtain ⟨one, rest, hone⟩ := hfeasible.exists_run_encryptInto rfl [1, 2, 3]
  have hswap : [carol.toPublic, bob.toPublic].Perm [bob.toPublic, carol.toPublic] := .swap _ _ _
  obtain ⟨other, rest', hother⟩ := (encryptInto_perm hswap).1.1 ⟨one, rest, hone⟩
  obtain ⟨hrest, hheader, -, -, hpayload, -, entryOf, -, hrecipients, hrecipients'⟩ :=
    (encryptInto_perm hswap).2 one other rest rest' hone hother
  exact ⟨one, other, rest, rest', entryOf bob.toPublic, entryOf carol.toPublic, hone, hother, hrest,
    hheader, hpayload, hrecipients, hrecipients'⟩

end SealedEnvelope.Authcrypt
