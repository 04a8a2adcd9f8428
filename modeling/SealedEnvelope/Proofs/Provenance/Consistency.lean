import SealedEnvelope.Proofs.Provenance.Origin

/-!
# What holds of every envelope

Whoever opens an envelope looks up an entry by its name and relies on the protected header being
the one that its text stands for.  Neither is checked again at that point.  Both hold of every
envelope, wherever it comes from (`Origin.consistent`): a name stands for one entry, in whatever
order the entries are, and the protected header is read from its text.

For texts, the check of the names is the last one.  A text that passes all others is refused for
its names exactly if two of its entries have the same (`Envelope.exists_duplicateRecipient_iff`).
-/

namespace SealedEnvelope

open Json (Reader Tree Token)

/-! ## Names and entries -/

namespace Recipient

/-- Two entries have the same name.  Entries without a name, or with one that is no text, do not
count. -/
def Repeats (entries : List Recipient) (kid : String) : Prop :=
  ∃ x y, [x, y].Sublist entries ∧ x.kid? = some kid ∧ y.kid? = some kid

variable {entry : Recipient} {entries order : List Recipient} {kid : String} {seen : List String}

/-- Names are told apart exactly if none is repeated. -/
theorem nodup_kids_iff : (entries.filterMap kid?).Nodup ↔ ∀ kid, ¬Repeats entries kid := by
  rw [List.Nodup, List.pairwise_filterMap, List.pairwise_iff_forall_sublist]
  constructor
  · rintro h kid ⟨x, y, hsublist, hx, hy⟩
    exact h hsublist kid hx kid hy rfl
  · rintro h x y hsublist kid hx _ hy rfl
    exact h kid ⟨x, y, hsublist, hx, hy⟩

theorem Repeats.cons (h : Repeats entries kid) : Repeats (entry :: entries) kid := by
  obtain ⟨x, y, hsublist, hx, hy⟩ := h
  exact ⟨x, y, hsublist.cons entry, hx, hy⟩

/-- The name that is found is that of two entries, the first of which may have come before. -/
theorem repeats_of_firstRepeated? (h : firstRepeated? seen (entries.filterMap kid?) = some kid) :
    (∃ entry ∈ entries, entry.kid? = some kid) ∧ (kid ∈ seen ∨ Repeats entries kid) := by
  induction entries generalizing seen with
  | nil => cases h
  | cons first rest ih =>
    cases hfirst : first.kid? with
    | none =>
      rw [List.filterMap_cons_none hfirst] at h
      obtain ⟨⟨entry, hmem, hkid⟩, hseen⟩ := ih h
      exact ⟨⟨entry, .tail first hmem, hkid⟩, hseen.imp_right Repeats.cons⟩
    | some name =>
      rw [List.filterMap_cons_some hfirst, firstRepeated?] at h
      split at h
      · next hold =>
        obtain rfl := Option.some.inj h
        exact ⟨⟨first, .head rest, hfirst⟩, .inl (List.contains_iff_mem.1 hold)⟩
      · obtain ⟨⟨entry, hmem, hkid⟩, hseen⟩ := ih h
        refine ⟨⟨entry, .tail first hmem, hkid⟩, ?_⟩
        rcases hseen with hseen | hrepeats
        · rcases List.mem_cons.1 hseen with rfl | hseen
          · exact .inr
              ⟨first, entry, .cons_cons first (List.singleton_sublist.2 hmem), hfirst, hkid⟩
          · exact .inl hseen
        · exact .inr hrepeats.cons

/-- An entry is the only one with its name. -/
theorem filter_eq_singleton (hkids : (entries.filterMap kid?).Nodup) (hmem : entry ∈ entries)
    (hkid : entry.kid? = some kid) : entries.filter (·.kid? = some kid) = [entry] := by
  obtain ⟨before, after, rfl⟩ := List.append_of_mem hmem
  have hunique := nodup_kids_iff.1 hkids kid
  have hnil {part : List Recipient} (h : ∀ other ∈ part, other.kid? ≠ some kid) :
      part.filter (·.kid? = some kid) = [] :=
    List.filter_eq_nil_iff.2 fun other hother => by simpa using h other hother
  have hbefore : ∀ other ∈ before, other.kid? ≠ some kid := fun other hother hsame =>
    hunique ⟨other, entry, (List.singleton_sublist.2 hother).append
      (List.singleton_sublist.2 List.mem_cons_self), hsame, hkid⟩
  have hafter : ∀ other ∈ after, other.kid? ≠ some kid := fun other hother hsame =>
    hunique ⟨entry, other, ((List.singleton_sublist.2 hother).cons_cons entry).trans
      (List.sublist_append_right _ _), hkid, hsame⟩
  rw [List.filter_append, List.filter_cons_of_pos (by simpa using hkid), hnil hbefore, hnil hafter]
  rfl

end Recipient

namespace Envelope

variable {envelope : Envelope} {kid : String}

/-- The order of the entries does not matter for who is found. -/
theorem recipient?_of_perm {entry : Recipient} {order : List Recipient}
    (hkids : envelope.kids.Nodup) (horder : order.Perm envelope.recipients)
    (hmem : entry ∈ envelope.recipients) (hkid : entry.kid? = some kid) :
    { envelope with recipients := order }.recipient? kid = some entry := by
  refine recipient?_eq_some ?_ (horder.mem_iff.2 hmem) hkid
  exact (horder.filterMap Recipient.kid?).nodup_iff.2 hkids

/-! ## Texts that are refused for their names -/

/-- A text has all that an envelope needs, and names these recipients. -/
def Complete (text : Bytes) (recipients : List Recipient) : Prop :=
  ∃ parts flattened, schema.read.whole text = .ok parts ∧
    parts.recipients? = some (recipients, flattened)

variable {text : Bytes} {recipients : List Recipient} {parts : Parts}

theorem ofBytes_eq_toEnvelope (h : schema.read.whole text = .ok parts) :
    ofBytes text = parts.toEnvelope.mapError fun fault => .parse (.envelope (.rejected fault)) := by
  obtain ⟨hread, hrest⟩ := Reader.whole_eq_ok_iff.1 h
  rw [ofBytes, Reader.whole_of_isEmpty hrest, reader, hread]
  show (parts.toEnvelope.mapError Json.Fault.rejected).mapError _ = _
  cases parts.toEnvelope <;> rfl

/-- A text that has all that an envelope needs is read, or is refused for a name. -/
theorem ofBytes_of_complete (h : Complete text recipients) :
    (∃ envelope, ofBytes text = .ok envelope ∧ envelope.recipients = recipients ∧
      ∀ kid, ¬Recipient.Repeats recipients kid) ∨
    ∃ kid, ofBytes text = .error (.parse (.envelope (.rejected (.duplicateRecipient kid)))) ∧
      Recipient.Repeats recipients kid := by
  obtain ⟨parts, flattened, hparts, hrecipients⟩ := h
  rw [ofBytes_eq_toEnvelope hparts, Parts.toEnvelope, hrecipients]
  dsimp only
  cases hfirst : firstRepeated? [] (recipients.filterMap Recipient.kid?) with
  | none =>
    refine .inl ⟨_, rfl, rfl, Recipient.nodup_kids_iff.1 (nodup_of_firstRepeated? hfirst).1⟩
  | some kid =>
    obtain ⟨-, hrepeats⟩ := Recipient.repeats_of_firstRepeated? hfirst
    exact .inr ⟨kid, rfl, hrepeats.resolve_left List.not_mem_nil⟩

/-- **A text is read exactly if it has all that an envelope needs and no name twice.** -/
theorem exists_ofBytes_eq_ok_iff :
    (∃ envelope, ofBytes text = .ok envelope ∧ envelope.recipients = recipients) ↔
      Complete text recipients ∧ ∀ kid, ¬Recipient.Repeats recipients kid := by
  constructor
  · rintro ⟨envelope, h, rfl⟩
    obtain ⟨hread, hrest⟩ := Reader.whole_eq_ok_iff.1 (mapError_eq_ok_iff.1 h)
    obtain ⟨parts, hparts, henvelope⟩ := bind_eq_ok_iff.1 hread
    obtain ⟨recipients, flattened, hrecipients, hkids, rfl⟩ :=
      toEnvelope_eq_ok (mapError_eq_ok_iff.1 henvelope)
    exact ⟨⟨parts, flattened, Reader.whole_eq_ok_iff.2 ⟨hparts, hrest⟩, hrecipients⟩,
      Recipient.nodup_kids_iff.1 hkids⟩
  · rintro ⟨hcomplete, hunique⟩
    rcases ofBytes_of_complete hcomplete with ⟨envelope, h, hrecipients, -⟩ | ⟨kid, -, hrepeats⟩
    · exact ⟨envelope, h, hrecipients⟩
    · exact absurd hrepeats (hunique kid)

/-- **A text that has all that an envelope needs is refused for a name exactly if two of its
entries have the same.** -/
theorem exists_duplicateRecipient_iff (h : Complete text recipients) :
    (∃ kid, ofBytes text = .error (.parse (.envelope (.rejected (.duplicateRecipient kid))))) ↔
      ∃ kid, Recipient.Repeats recipients kid := by
  rcases ofBytes_of_complete h with ⟨envelope, hread, -, hunique⟩ | ⟨kid, hrefused, hrepeats⟩
  · exact iff_of_false (by rw [hread]; exact nofun) (not_exists.2 hunique)
  · exact iff_of_true ⟨kid, hrefused⟩ ⟨kid, hrepeats⟩

end Envelope

/-! ## Protected headers -/

/-- A header that was made from a text and holds no doubles. -/
def Header.FromText (header : Header) : Prop :=
  header.toJson.Integral ∧ ∃ text, (ofText text : Except (Json.Fault Empty) Header) = .ok header

theorem Header.FromText.legible {header : Header} (h : header.FromText) :
    header.Legible Json.maxDepth := by
  obtain ⟨hintegral, text, htext⟩ := h
  obtain ⟨hread, -⟩ := Reader.whole_eq_ok_iff.1 htext
  obtain ⟨hdistinct, hdepth⟩ := reader_sound hread
  exact ⟨hintegral, hdistinct, hdepth⟩

namespace Origin

variable {origin : Origin}

/-- A protected header is the one that its text stands for.  Only a builder could be given one
that has no text. -/
theorem Heads.ofEncoded_eq {head : ProtectedHeader} (h : origin.Heads head)
    (hgiven : ∀ steps, origin = .builder steps → head.header.FromText) :
    ProtectedHeader.ofEncoded head.encoded = .ok head := by
  cases h with
  | read hread => exact hread
  | given steps header => exact Header.ofEncoded_ofHeader (hgiven steps rfl).legible
  | made hportable => exact Header.ofEncoded_ofHeader (hportable.legible (by decide))

/-- **What holds of every envelope**, wherever it comes from.  The names of its recipients are
different, so that a name is listed once, and its only entry is found in whatever order the entries
are.  If it was read without a list it has one recipient.  Its protected header is the one that its
text stands for, unless a builder was given a header that has no text.  A text that is otherwise
accepted is refused for a name exactly if two of its entries have the same. -/
theorem consistent :
    (∀ (origin : Origin) (envelope : Envelope), origin.envelope = some (.ok envelope) →
      envelope.kids.Nodup ∧
      (∀ entry ∈ envelope.recipients, ∀ kid, entry.kid? = some kid →
        envelope.recipients.filter (·.kid? = some kid) = [entry] ∧ envelope.kids.count kid = 1 ∧
        ∀ order : List Recipient, order.Perm envelope.recipients →
          { envelope with recipients := order }.recipient? kid = some entry) ∧
      (∀ kid, envelope.recipient? kid = none ↔ kid ∉ envelope.kids) ∧
      (∀ text, origin = .octets text → envelope.flattened = true → envelope.recipients.length = 1) ∧
      ((∀ steps, origin = .builder steps → envelope.protectedHeader.header.FromText) →
        ProtectedHeader.ofEncoded envelope.protectedHeader.encoded =
          .ok envelope.protectedHeader)) ∧
    ∀ (text : Bytes) (recipients : List Recipient),
      ((∃ envelope, Envelope.ofBytes text = .ok envelope ∧ envelope.recipients = recipients) ↔
        Envelope.Complete text recipients ∧ ∀ kid, ¬Recipient.Repeats recipients kid) ∧
      (Envelope.Complete text recipients →
        ((∃ kid, Envelope.ofBytes text =
            .error (.parse (.envelope (.rejected (.duplicateRecipient kid))))) ↔
          ∃ kid, Recipient.Repeats recipients kid)) := by
  refine ⟨fun origin envelope h => ?_, fun text recipients => ⟨Envelope.exists_ofBytes_eq_ok_iff,
    Envelope.exists_duplicateRecipient_iff⟩⟩
  have hkids := kids_nodup h
  refine ⟨hkids, fun entry hmem kid hkid => ⟨?_, ?_, fun order horder => ?_⟩,
    fun _ => Envelope.recipient?_eq_none_iff, ?_, (heads h).ofEncoded_eq⟩
  · exact Recipient.filter_eq_singleton hkids hmem hkid
  · exact List.count_eq_one_of_mem hkids (List.mem_filterMap.2 ⟨entry, hmem, hkid⟩)
  · exact Envelope.recipient?_of_perm hkids horder hmem hkid
  · rintro text rfl hflattened
    have hrecipients := (Envelope.readFrom_of_ofBytes (Option.some.inj h)).recipients
    rw [hflattened] at hrecipients
    exact hrecipients.length_eq_one

/-- A text with a name and a number for a name, a text with the same name twice, and an envelope
that was built with a header from a text. -/
theorem consistent_of_three_origins :
    let entry (kid : String) := "\x7b\"header\":\x7b\"kid\":" ++ kid ++
      "\x7d,\"encrypted_key\":\"\"\x7d"
    let text (kid : String) := Bytes.ofText ("\x7b\"protected\":\"e30=\",\"recipients\":[" ++
      entry "\"a\"" ++ "," ++ entry kid ++ "],\"iv\":\"\",\"ciphertext\":\"\",\"tag\":\"\"\x7d")
    let header : Header := ⟨[("typ", .string "b"), ("n", .number (.integer ⟨7, by decide⟩))]⟩
    let built : Origin := .builder [.flatten true, .protectedHeader header, .payload ⟨[], [], []⟩,
      .recipient ⟨.empty, []⟩, .recipient ⟨.empty, [1]⟩]
    (∃ envelope, (Origin.octets (text "1")).envelope = some (.ok envelope) ∧
      envelope.recipients.length = 2 ∧ envelope.kids.count "a" = 1) ∧
    (∃ kid, Envelope.ofBytes (text "\"a\"") =
      .error (.parse (.envelope (.rejected (.duplicateRecipient kid))))) ∧
    ∃ envelope, built.envelope = some (.ok envelope) ∧ envelope.flattened = true ∧
      ProtectedHeader.ofEncoded envelope.protectedHeader.encoded =
        .ok envelope.protectedHeader := by
  intro entry text header built
  obtain ⟨hall, htexts⟩ := consistent
  have hnumber : (Envelope.ofBytes (text "1")).toOption.any (fun envelope =>
      envelope.recipients.map Recipient.kid? = [some "a", none]) = true := by
    decide +kernel
  have htwice : (Envelope.schema.read.whole (text "\"a\"")).toOption.any (fun parts =>
      parts.recipients?.any fun pair => pair.1.map Recipient.kid? = [some "a", some "a"]) =
        true := by
    decide +kernel
  have hheader : header.Legible Json.maxDepth :=
    ⟨⟨trivial, trivial, trivial⟩, ⟨by decide, trivial, trivial, trivial⟩, by decide⟩
  refine ⟨?_, ?_, ?_⟩
  · obtain ⟨envelope, henvelope, hnames⟩ := exists_eq_ok_of_any hnumber
    obtain ⟨x, rest, hrecipients, hx, hrest⟩ := List.map_eq_cons_iff.1 (of_decide_eq_true hnames)
    have hlength := congrArg List.length hrest
    rw [List.length_map] at hlength
    replace henvelope : (Origin.octets (text "1")).envelope = some (.ok envelope) :=
      congrArg some henvelope
    obtain ⟨-, hentries, -⟩ := hall _ envelope henvelope
    refine ⟨envelope, henvelope, by rw [hrecipients, List.length_cons, hlength]; rfl, ?_⟩
    exact (hentries x (by rw [hrecipients]; exact .head rest) "a" hx).2.1
  · obtain ⟨parts, hparts, hpair⟩ := exists_eq_ok_of_any htwice
    cases hrecipients : parts.recipients? with
    | none => rw [hrecipients] at hpair; cases hpair
    | some pair =>
      rw [hrecipients] at hpair
      refine (htexts _ pair.1).2 ⟨parts, pair.2, hparts, hrecipients⟩ |>.2 ⟨"a", ?_⟩
      obtain ⟨x, rest, hpair, hx, hrest⟩ := List.map_eq_cons_iff.1 (of_decide_eq_true hpair)
      obtain ⟨y, nothing, rfl, hy, hnothing⟩ := List.map_eq_cons_iff.1 hrest
      exact ⟨x, y, by rw [hpair, List.map_eq_nil_iff.1 hnothing], hx, hy⟩
  · obtain ⟨-, -, -, -, hencoded⟩ := hall built _ rfl
    exact ⟨_, rfl, rfl, hencoded fun _ _ => ⟨hheader.integral, _, Header.ofText_render hheader⟩⟩

end Origin

end SealedEnvelope
