import SealedEnvelope.Proofs.Reading.Records
import SealedEnvelope.Proofs.Reading.Same
import SealedEnvelope.Proofs.RoundTrip.Jwk

/-!
# What is read of a public key in JSON

A public key is read from an object in which the members that a key knows have the right
kinds of values (`Jwk.Admits`) and the ones that it needs are there
(`Jwk.exists_ofJson_iff`).  Then it holds these values (`Jwk.ofJson_fields`).

So of two objects that are the same, either both stand for the same public key or neither does
(`Header.requireEphemeralKey_of_alike`), although the keys in JSON may differ in the further
members that are kept.
-/

namespace SealedEnvelope

open Json (Reader Tree Schema Field)

namespace Jwk

variable {ε : Type} {depth : Nat} {members : Json.Members}

/-- The value is of the kind that a key asks for under this name. -/
def Admits (name : String) (value : Json) : Prop :=
  (name ∈ ["kty", "crv", "x"] → ∃ text, value = .string text) ∧
    (name ∈ ["y", "kid"] → value = .null ∨ ∃ text, value = .string text)

theorem nodup_names : ((schema ε).fields.map Field.name).Nodup := by
  simp [schema, Field.of]

theorem owns :
    (schema ε).Owns "kty" Parts.kty ∧ (schema ε).Owns "crv" Parts.crv ∧
    (schema ε).Owns "x" Parts.x ∧ (schema ε).Owns "y" Parts.y ∧
    (schema ε).Owns "kid" Parts.kid := by
  refine ⟨⟨?_, ?_⟩, ⟨?_, ?_⟩, ⟨?_, ?_⟩, ⟨?_, ?_⟩, ⟨?_, ?_⟩⟩
  all_goals first
    | rintro _ ⟨⟩ name value record
      rfl
    | intro field hmem
      simp only [schema, List.mem_cons, List.not_mem_nil, or_false] at hmem
      rcases hmem with rfl | rfl | rfl | rfl | rfl <;>
        first | exact .inl rfl | exact .inr (Field.keeps_of_store fun _ _ => rfl)

theorem fieldName?_eq (name : String) (value : Tree) :
    (schema ε).fieldName? (some name, value) = if name ∈ names then some name else none := by
  by_cases hmem : name ∈ names
  · rw [if_pos hmem]
    simp only [names, List.mem_cons, List.not_mem_nil, or_false] at hmem
    rcases hmem with rfl | rfl | rfl | rfl | rfl <;> rfl
  · rw [if_neg hmem]
    show ((schema ε).field? name).map _ = none
    rw [field?_eq_none hmem]
    rfl

/-- What an object has for a field is the value of the field's name. -/
theorem found?_ofJson {name : String} (hname : name ∈ names) (members : Json.Members) :
    (schema ε).found? (Tree.ofJson (.object members)) name =
      (members.find? name).map Tree.ofJson := by
  rw [Tree.ofJson, Schema.found?]
  induction members with
  | nil => rfl
  | cons member members ih =>
    obtain ⟨other, value⟩ := member
    rw [Tree.ofMembers]
    by_cases heq : name = other
    · subst heq
      rw [List.find?_cons_of_pos (by rw [fieldName?_eq, if_pos hname]; exact decide_eq_true rfl)]
      simp [Json.Members.find?]
    · have hother : ¬(schema ε).fieldName? (some other, Tree.ofJson value) = some name := by
        rw [fieldName?_eq]
        split
        · exact fun h => heq (Option.some.inj h).symm
        · exact (Option.some_ne_none name).symm
      rw [List.find?_cons_of_neg (by simpa using hother), ih]
      simp [Json.Members.find?, List.lookup_cons, beq_false_of_ne heq]

/-- The fields that are read are the known ones among the names. -/
theorem fieldNames_eq (members : Json.Members) :
    (Tree.ofMembers members).filterMap (schema ε).fieldName? =
      (members.map Prod.fst).filter (· ∈ names) := by
  rw [Tree.ofMembers_eq_map, List.filterMap_map, ← List.filterMap_eq_filter, List.filterMap_map]
  refine List.filterMap_congr fun member _ => ?_
  rw [Function.comp_apply, Function.comp_apply, fieldName?_eq, Option.guard]
  simp

theorem ofJson_eq_string_iff {value : Json} {text : String} :
    Tree.ofJson value = .string (some text) ↔ value = .string text := by
  cases value <;> simp [Tree.ofJson]

theorem ofJson_eq_null_iff {value : Json} : Tree.ofJson value = .null ↔ value = .null := by
  cases value <;> simp [Tree.ofJson]

theorem exists_text_iff {value : Json} {store : String → Parts → Parts} {name : String} :
    (∃ update, (Field.of name (Reader.text : Reader ε String) store).read depth
      (Tree.ofJson value) = .ok update) ↔ ∃ text, value = .string text := by
  simp only [Field.of_read_eq_ok_iff, Reader.text_eq_ok_iff, ofJson_eq_string_iff]
  constructor
  · rintro ⟨update, text, htext, -⟩
    exact ⟨text, htext⟩
  · rintro ⟨text, htext⟩
    exact ⟨store text, text, htext, rfl⟩

theorem exists_optional_iff {value : Json} {store : Option String → Parts → Parts} {name : String} :
    (∃ update, (Field.of name (Reader.text : Reader ε String).optional store).read depth
      (Tree.ofJson value) = .ok update) ↔ value = .null ∨ ∃ text, value = .string text := by
  simp only [Field.of_read_eq_ok_iff, Reader.optional_eq_ok_iff, Reader.text_eq_ok_iff,
    ofJson_eq_string_iff, ofJson_eq_null_iff]
  constructor
  · rintro ⟨update, _, ⟨hnull, -⟩ | ⟨-, text, htext, -⟩, -⟩
    · exact .inl hnull
    · exact .inr ⟨text, htext⟩
  · rintro (hnull | ⟨text, htext⟩)
    · exact ⟨store none, none, .inl ⟨hnull, rfl⟩, rfl⟩
    · refine ⟨store (some text), some text, .inr ⟨?_, text, htext, rfl⟩, rfl⟩
      rw [htext]
      exact nofun

/-- A member is read exactly if it has a value of the right kind. -/
theorem exists_update_iff {name : String} {value : Json} (hdistinct : value.Distinct)
    (hdepth : value.depth ≤ depth) :
    (∃ update, (schema ε).update depth name (Tree.ofJson value) = .ok update) ↔
      Admits name value := by
  by_cases hname : name ∈ names
  · simp only [names, List.mem_cons, List.not_mem_nil, or_false] at hname
    rcases hname with rfl | rfl | rfl | rfl | rfl
    · exact exists_text_iff.trans (by simp [Admits])
    · exact exists_text_iff.trans (by simp [Admits])
    · exact exists_text_iff.trans (by simp [Admits])
    · exact exists_optional_iff.trans (by simp [Admits])
    · exact exists_optional_iff.trans (by simp [Admits])
  · have hother : (schema ε).update depth name (Tree.ofJson value) =
        .ok fun parts => { parts with extras := parts.extras.insert name value } := by
      rw [Schema.update, field?_eq_none hname]
      show (Reader.value depth (Tree.ofJson value)).map _ = _
      rw [Reader.value, Tree.value?_ofJson value hdistinct hdepth]
      rfl
    refine ⟨fun _ => ⟨fun hmem => ?_, fun hmem => ?_⟩, fun _ => ⟨_, hother⟩⟩
    · exact absurd (List.mem_append_left ["y", "kid"] hmem) hname
    · exact absurd (List.mem_append_right ["kty", "crv", "x"] hmem) hname

section Collected

variable {parts : Parts} {name : String} {text : String}

/-- A text that was collected is the one of its member. -/
theorem find?_of_collected
    (h : (schema ε).Collected depth (Tree.ofJson (.object members)) parts)
    (hname : name ∈ names) {store : String → Parts → Parts} {part : Parts → Option String}
    (hfield : (schema ε).field? name = some (.of name Reader.text store))
    (howns : (schema ε).Owns name part) (hstore : ∀ b record, part (store b record) = some b)
    (hblank : part (schema ε).blank = none) (hpart : part parts = some text) :
    members.find? name = some (.string text) := by
  obtain ⟨tree, hfound, hread⟩ := h.required nodup_names hfield howns hstore hblank hpart
  rw [found?_ofJson hname] at hfound
  obtain ⟨value, hvalue, rfl⟩ := Option.map_eq_some_iff.1 hfound
  rw [hvalue, ofJson_eq_string_iff.1 (Reader.text_eq_ok_iff.1 hread)]

/-- A member that is there is collected. -/
theorem isSome_of_collected
    (h : (schema ε).Collected depth (Tree.ofJson (.object members)) parts)
    (hname : name ∈ names) {store : String → Parts → Parts} {part : Parts → Option String}
    (hfield : (schema ε).field? name = some (.of name Reader.text store))
    (howns : (schema ε).Owns name part) (hstore : ∀ b record, part (store b record) = some b)
    (hfind : (members.find? name).isSome) : ∃ text, part parts = some text := by
  rcases h.part_eq nodup_names hfield howns hstore with ⟨hnone, -⟩ | ⟨_, text, -, -, heq⟩
  · rw [found?_ofJson hname, Option.map_eq_none_iff] at hnone
    rw [hnone] at hfind
    cases hfind
  · exact ⟨text, heq⟩

end Collected

/-- The fields of a key that was read are those of its object. -/
theorem ofJson_fields {jwk : Jwk}
    (h : (ofJson (.object members) : Except (Json.Fault ε) Jwk) = .ok jwk) :
    members.find? "kty" = some (.string jwk.kty) ∧ members.find? "crv" = some (.string jwk.crv) ∧
      members.find? "x" = some (.string jwk.x) ∧
      jwk.y = (members.find? "y").bind Json.asString? := by
  obtain ⟨below, parts, -, hcollected, hfinish⟩ := Schema.read_eq_ok_iff.1 h
  obtain ⟨hkty, hcrv, hx, hy, -⟩ := @owns ε
  have hyfield := hcollected.optional nodup_names rfl hy (fun _ _ => by rfl) rfl
  obtain ⟨kty, crv, x, y, kid, extras⟩ := parts
  rcases kty with _ | kty
  · cases hfinish
  rcases crv with _ | crv
  · cases hfinish
  rcases x with _ | x
  · cases hfinish
  cases hfinish
  refine ⟨find?_of_collected hcollected (by decide) rfl hkty (fun _ _ => by rfl) rfl rfl,
    find?_of_collected hcollected (by decide) rfl hcrv (fun _ _ => by rfl) rfl rfl,
    find?_of_collected hcollected (by decide) rfl hx (fun _ _ => by rfl) rfl rfl, ?_⟩
  have hfound := @found?_ofJson ε "y" (by decide) members
  rcases hyfield with ⟨habsent, hnone⟩ | ⟨tree, text, hvalue, -, hread, hsome⟩
  · obtain rfl : y = none := hnone
    rw [hfound] at habsent
    rcases habsent with habsent | hnull
    · rw [Option.map_eq_none_iff.1 habsent]
      rfl
    · obtain ⟨value, hvalue, hnull⟩ := Option.map_eq_some_iff.1 hnull
      rw [hvalue, ofJson_eq_null_iff.1 hnull]
      rfl
  · obtain rfl : y = some text := hsome
    obtain ⟨value, hfind, rfl⟩ := Option.map_eq_some_iff.1 (hfound.symm.trans hvalue)
    rw [hfind, ofJson_eq_string_iff.1 (Reader.text_eq_ok_iff.1 hread)]
    rfl

/-- **Which objects stand for keys.** -/
theorem exists_ofJson_iff (hdistinct : (Json.object members).Distinct) :
    (∃ jwk, (ofJson (.object members) : Except (Json.Fault ε) Jwk) = .ok jwk) ↔
      (∀ name, ∀ value ∈ members.find? name, Admits name value) ∧
      ∀ name ∈ ["kty", "crv", "x"], (members.find? name).isSome := by
  have hupdates : (∀ member ∈ Tree.ofMembers members, ∃ name update, member.1 = some name ∧
      (schema ε).update (Json.membersDepth members) name member.2 = .ok update) ↔
      ∀ name, ∀ value ∈ members.find? name, Admits name value := by
    have hvalues := Json.membersDistinct_iff.1 hdistinct.2
    have hdepth := Json.membersDepth_le_iff.1 (Nat.le_refl (Json.membersDepth members))
    simp only [Tree.ofMembers_eq_map, List.forall_mem_map, Option.some.injEq, exists_and_left,
      exists_eq_left', Option.mem_def, Json.Members.find?_eq_some_iff hdistinct.1, Prod.forall]
    refine forall₃_congr fun name value hmem => ?_
    exact exists_update_iff (hvalues _ hmem) (hdepth _ hmem)
  have hnodup : ((Tree.ofMembers members).filterMap (schema ε).fieldName?).Nodup := by
    rw [fieldNames_eq]
    exact hdistinct.1.filter _
  constructor
  · rintro ⟨jwk, hjwk⟩
    obtain ⟨hkty, hcrv, hx, -⟩ := ofJson_fields hjwk
    refine ⟨?_, by simp [hkty, hcrv, hx]⟩
    obtain ⟨below, parts, hbelow, hcollected, -⟩ := Schema.read_eq_ok_iff.1 hjwk
    obtain rfl : Json.membersDepth members = below := Nat.succ.inj hbelow
    cases hcollected with
    | members hread => exact hupdates.1 (Schema.exists_readMembers_iff.1 ⟨parts, hread⟩).1
  · rintro ⟨hadmits, hfind⟩
    obtain ⟨parts, hread⟩ : ∃ parts, (schema ε).readMembers (Json.membersDepth members) []
        (schema ε).blank (Tree.ofMembers members) = .ok parts :=
      Schema.exists_readMembers_iff.2
        ⟨hupdates.2 hadmits, hnodup, fun _ _ => List.not_mem_nil⟩
    have hcollected : (schema ε).Collected (Json.membersDepth members)
        (Tree.ofJson (.object members)) parts := .members hread
    obtain ⟨howns, howns', howns'', -⟩ := @owns ε
    obtain ⟨kty, hkty⟩ := isSome_of_collected hcollected (by decide) rfl howns
      (fun _ _ => by rfl) (hfind "kty" (by decide))
    obtain ⟨crv, hcrv⟩ := isSome_of_collected hcollected (by decide) rfl howns'
      (fun _ _ => by rfl) (hfind "crv" (by decide))
    obtain ⟨x, hx⟩ := isSome_of_collected hcollected (by decide) rfl howns''
      (fun _ _ => by rfl) (hfind "x" (by decide))
    refine ⟨⟨kty, crv, x, parts.y, parts.kid, parts.extras⟩, ?_⟩
    refine Schema.read_eq_ok_iff.2 ⟨_, parts, rfl, hcollected, ?_⟩
    obtain ⟨_, _, _, _, _, _⟩ := parts
    cases hkty
    cases hcrv
    cases hx
    rfl

/-! ## Objects that are the same -/

theorem admits_iff_of_same {name : String} {a b : Json} (h : a.same b = true) :
    Admits name a ↔ Admits name b := by
  rw [Admits, Admits, Json.exists_string_iff_of_same h, Json.eq_null_iff_of_same h]

theorem exists_ofJson_iff_of_alike {as bs : Json.Members} (ha : (Json.object as).Distinct)
    (hb : (Json.object bs).Distinct) (h : as.Alike bs) :
    (∃ jwk, (ofJson (.object as) : Except (Json.Fault ε) Jwk) = .ok jwk) ↔
      ∃ jwk, (ofJson (.object bs) : Except (Json.Fault ε) Jwk) = .ok jwk := by
  rw [exists_ofJson_iff ha, exists_ofJson_iff hb]
  refine and_congr (forall_congr' fun name => ?_) (forall₂_congr fun name _ => ?_)
  · have hname := h name
    generalize as.find? name = a, bs.find? name = b at hname
    cases hname with
    | none => exact Iff.rfl
    | some hsame => simp [admits_iff_of_same hsame]
  · rw [h.isSome_eq name]

/-- Of two values that are the same, neither stands for a key, or both do, and then they differ
in further members at most. -/
theorem ofJson_of_same {a b : Json} (ha : a.Distinct) (hb : b.Distinct) (h : a.same b = true) :
    (∃ fault fault', (ofJson a : Except (Json.Fault ε) Jwk) = .error fault ∧
      (ofJson b : Except (Json.Fault ε) Jwk) = .error fault') ∨
    ∃ jwk jwk', (ofJson a : Except (Json.Fault ε) Jwk) = .ok jwk ∧
      (ofJson b : Except (Json.Fault ε) Jwk) = .ok jwk' ∧
      jwk.kty = jwk'.kty ∧ jwk.crv = jwk'.crv ∧ jwk.x = jwk'.x ∧ jwk.y = jwk'.y := by
  rcases Json.same_cases h with ⟨rfl, rfl⟩ | ⟨_, rfl, rfl⟩ | ⟨_, _, rfl, rfl⟩ | ⟨_, rfl, rfl⟩ |
    ⟨_, _, rfl, rfl⟩ | ⟨as, bs, rfl, rfl, hlength, hmembers⟩
  -- Only objects stand for keys.
  · exact .inl ⟨_, _, rfl, rfl⟩
  · exact .inl ⟨_, _, rfl, rfl⟩
  · exact .inl ⟨_, _, rfl, rfl⟩
  · exact .inl ⟨_, _, rfl, rfl⟩
  · exact .inl ⟨_, _, rfl, rfl⟩
  · have halike := Json.Members.alike_of_sameMembers ha.1 hlength hmembers
    have hiff := @exists_ofJson_iff_of_alike ε as bs ha hb halike
    cases hjwk : (ofJson (.object as) : Except (Json.Fault ε) Jwk) with
    | error fault =>
      cases hjwk' : (ofJson (.object bs) : Except (Json.Fault ε) Jwk) with
      | error fault' => exact .inl ⟨fault, fault', rfl, rfl⟩
      | ok jwk' =>
        obtain ⟨jwk, h⟩ := hiff.2 ⟨jwk', hjwk'⟩
        rw [hjwk] at h
        cases h
    | ok jwk =>
      obtain ⟨jwk', hjwk'⟩ := hiff.1 ⟨jwk, hjwk⟩
      obtain ⟨hkty, hcrv, hx, hy⟩ := ofJson_fields hjwk
      obtain ⟨hkty', hcrv', hx', hy'⟩ := ofJson_fields hjwk'
      exact .inr ⟨jwk, jwk', rfl, hjwk', halike.string_eq hkty hkty',
        halike.string_eq hcrv hcrv', halike.string_eq hx hx', by rw [hy, hy', halike.text_eq "y"]⟩

end Jwk

/-- The ephemeral key is the same in headers that are alike, and so is its failure. -/
theorem Header.requireEphemeralKey_of_alike {a b : Header} (ha : a.toJson.Distinct)
    (hb : b.toJson.Distinct) (h : a.members.Alike b.members) :
    a.requireEphemeralKey = b.requireEphemeralKey := by
  have hname := h "epk"
  have hvalue {header : Header} {value : Json} (hdistinct : header.toJson.Distinct)
      (hfind : header.members.find? "epk" = some value) : value.Distinct :=
    Json.membersDistinct_iff.1 hdistinct.2 _
      ((Json.Members.find?_eq_some_iff hdistinct.1).1 hfind)
  unfold requireEphemeralKey ephemeralKey get?
  cases hx : a.members.find? "epk" with
  | none =>
    rw [hx] at hname
    cases hy : b.members.find? "epk" with
    | none => rfl
    | some y =>
      rw [hy] at hname
      cases hname
  | some x =>
    rw [hx] at hname
    cases hy : b.members.find? "epk" with
    | none =>
      rw [hy] at hname
      cases hname
    | some y =>
      rw [hy] at hname
      obtain ⟨hsame⟩ := hname
      dsimp only
      rcases Jwk.ofJson_of_same (hvalue ha hx) (hvalue hb hy) hsame with
        ⟨fault, fault', hfault, hfault'⟩ | ⟨jwk, jwk', hjwk, hjwk', hkty, hcrv, hx, hy⟩
      · rw [hfault, hfault']
        rfl
      · rw [hjwk, hjwk']
        show opaquely (Key.ofJwk jwk) = opaquely (Key.ofJwk jwk')
        rw [Key.ofJwk, Key.ofJwk, hkty, hcrv, hx, hy]

end SealedEnvelope
