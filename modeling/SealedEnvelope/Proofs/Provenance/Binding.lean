import SealedEnvelope.Proofs.Provenance.Origin

/-!
# What a ciphertext is bound to can be taken apart

A ciphertext is bound to the text of the protected header and to the additional data, with a dot
in between.  Additional data that was read may be any text, and may have dots.  The text of the
protected header has none: whoever made the envelope, the text is base64url.  So the first dot is
the one in between, and whoever moved characters across it would change what the ciphertext is
bound to (`Origin.associatedData_eq_iff`).
-/

namespace SealedEnvelope

/-- The octet of the dot between the protected header and the additional data. -/
def dot : UInt8 := 0x2e

/-! ## Texts without dots -/

namespace Text.Base64Url

theorem symbolByte_ne_dot {n : Nat} (h : n < 64) : symbolByte n ≠ dot := by
  have : ∀ n : Fin 64, symbolByte n ≠ dot := by decide +kernel
  exact this ⟨n, h⟩

/-- A text that can be read has no dots, with or without fill. -/
theorem dot_notMem_of_decode {text : String} {octets : Bytes} (h : decode text = .ok octets) :
    dot ∉ Bytes.ofText text := by
  obtain ⟨count, htext⟩ := exists_fill_of_decode h
  rw [htext, ofText_encode, List.mem_append, not_or]
  constructor
  · intro hmem
    obtain ⟨n, hn, hsymbol⟩ := List.mem_map.1 hmem
    exact symbolByte_ne_dot (sextets_lt octets n hn) hsymbol
  · intro hmem
    exact absurd (List.eq_of_mem_replicate hmem) (by decide)

end Text.Base64Url

/-! ## The first dot -/

variable {a b : ProtectedHeader} {x y : Option String}

/-- What comes before the first dot is the text of the protected header. -/
theorem takeWhile_associatedData (h : dot ∉ Bytes.ofText a.encoded) :
    (associatedData a x).takeWhile (· ≠ dot) = Bytes.ofText a.encoded := by
  have hall : ∀ octet ∈ Bytes.ofText a.encoded, decide (octet ≠ dot) = true := by
    intro octet hmem
    rw [decide_eq_true_eq]
    rintro rfl
    exact h hmem
  cases x with
  | none => exact List.takeWhile_eq_self_iff.2 hall
  | some text =>
    show (Bytes.ofText a.encoded ++ dot :: Bytes.ofText text).takeWhile (· ≠ dot) = _
    rw [List.takeWhile_append_of_pos hall, List.takeWhile_cons_of_neg (by simp), List.append_nil]

/-- What comes after the text of the protected header is the additional data, if there is any. -/
theorem associatedData_eq_iff_of_encoded_eq (h : a.encoded = b.encoded) :
    associatedData a x = associatedData b y ↔ x = y := by
  constructor
  · intro hsame
    unfold associatedData at hsame
    rw [h] at hsame
    cases x with
    | none =>
      cases y with
      | none => rfl
      | some text => simp at hsame
    | some text =>
      cases y with
      | none => simp at hsame
      | some other =>
        rw [Bytes.ofText_injective (List.cons.inj (List.append_cancel_left hsame)).2]
  · rintro rfl
    unfold associatedData
    rw [h]

namespace Origin

/-- **The ciphertexts of two envelopes are bound to the same only if the parts are the same**,
wherever the envelopes come from.  An empty text for additional data is not the same as none. -/
theorem associatedData_eq_iff {origin origin' : Origin} {a b : Envelope}
    (ha : origin.envelope = some (.ok a)) (hb : origin'.envelope = some (.ok b)) :
    a.associatedData = b.associatedData ↔
      a.protectedHeader.encoded = b.protectedHeader.encoded ∧ a.aad = b.aad := by
  obtain ⟨_, hdecode⟩ := (heads ha).exists_decode
  obtain ⟨_, hdecode'⟩ := (heads hb).exists_decode
  constructor
  · intro hsame
    have hbefore := congrArg (List.takeWhile (· ≠ dot)) hsame
    rw [Envelope.associatedData, Envelope.associatedData,
      takeWhile_associatedData (Text.Base64Url.dot_notMem_of_decode hdecode),
      takeWhile_associatedData (Text.Base64Url.dot_notMem_of_decode hdecode')] at hbefore
    have hencoded := Bytes.ofText_injective hbefore
    exact ⟨hencoded, (associatedData_eq_iff_of_encoded_eq hencoded).1 hsame⟩
  · rintro ⟨hencoded, haad⟩
    exact (associatedData_eq_iff_of_encoded_eq hencoded).2 haad

/-- An envelope with empty additional data that was built, and three that were read: only the one
that has an empty text as well is bound to the same. -/
theorem associatedData_eq_iff_of_empty_aad :
    let built : Origin := .builder [.protectedHeader .empty, .aad [], .payload ⟨[], [], []⟩,
      .recipient ⟨.empty, []⟩]
    let text (aad : String) := Bytes.ofText ("\x7b\"protected\":\"e30\"," ++ aad ++
      "\"iv\":\"\",\"ciphertext\":\"\",\"tag\":\"\",\"encrypted_key\":\"\"\x7d")
    let read (aad : String) : Origin := .octets (text aad)
    ∃ a b c d, built.envelope = some (.ok a) ∧ (read "\"aad\":\"\",").envelope = some (.ok b) ∧
      (read "").envelope = some (.ok c) ∧ (read "\"aad\":\".\",").envelope = some (.ok d) ∧
      a.associatedData = b.associatedData ∧ a.associatedData ≠ c.associatedData ∧
      a.associatedData ≠ d.associatedData := by
  intro built text read
  have hbuilt : built.envelope = some (.ok ⟨.ofHeader .empty, none, [⟨.empty, []⟩], some "",
      ⟨[], [], []⟩, false⟩) := rfl
  have hencoded : (ProtectedHeader.ofHeader .empty).encoded = "e30" := by decide +kernel
  have hempty : (Envelope.ofBytes (text "\"aad\":\"\",")).toOption.any (fun envelope =>
      envelope.protectedHeader.encoded = "e30" && envelope.aad = some "") = true := by
    decide +kernel
  have hnone : (Envelope.ofBytes (text "")).toOption.any (·.aad = none) = true := by decide +kernel
  have hdot : (Envelope.ofBytes (text "\"aad\":\".\",")).toOption.any (·.aad = some ".") =
      true := by
    decide +kernel
  obtain ⟨b, hb, hsame⟩ := exists_eq_ok_of_any hempty
  obtain ⟨c, hc, hcaad⟩ := exists_eq_ok_of_any hnone
  obtain ⟨d, hd, hdaad⟩ := exists_eq_ok_of_any hdot
  simp only [Bool.and_eq_true, decide_eq_true_eq] at hsame hcaad hdaad
  replace hb : (read "\"aad\":\"\",").envelope = some (.ok b) := congrArg some hb
  replace hc : (read "").envelope = some (.ok c) := congrArg some hc
  replace hd : (read "\"aad\":\".\",").envelope = some (.ok d) := congrArg some hd
  refine ⟨_, b, c, d, hbuilt, hb, hc, hd,
    (associatedData_eq_iff hbuilt hb).2 ⟨hencoded.trans hsame.1.symm, hsame.2.symm⟩,
    fun h => ?_, fun h => ?_⟩
  · exact absurd (((associatedData_eq_iff hbuilt hc).1 h).2.trans hcaad) nofun
  · exact absurd (((associatedData_eq_iff hbuilt hd).1 h).2.trans hdaad) (by decide)

end Origin
end SealedEnvelope
