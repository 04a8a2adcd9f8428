import Mathlib.Data.List.Nodup
import SealedEnvelope.Json.Record
import SealedEnvelope.Proofs.Reading.Values

/-!
# What is read of a record

A record is an object with its fields in any order, or an array with its fields in the order
of the schema.  `Schema.found?` is what a text has for a field in either form, and a record
that was read holds, for each field, what the field's reader makes of that and of nothing else
(`Schema.Collected.part_eq`).

What a record holds for a field is a *part* of it that no other field changes
(`Schema.Owns`).  So the order of the members is of no consequence, and neither are members
that are no fields, as long as they are not kept in that part.
-/

namespace SealedEnvelope.Json

theorem Tree.ofMembers_eq_map (members : Members) :
    ofMembers members = members.map fun member => (some member.1, ofJson member.2) := by
  induction members with
  | nil => rfl
  | cons member members ih =>
    obtain ⟨name, value⟩ := member
    rw [ofMembers, ih, List.map_cons]

variable {ε σ α β γ : Type}

/-! ## Fields -/

namespace Field

/-- Reading the field leaves a part of the record as it is. -/
def Keeps (field : Field ε σ) (part : σ → γ) : Prop :=
  ∀ depth tree update, field.read depth tree = .ok update →
    ∀ record, part (update record) = part record

variable {name : String} {read : Reader ε β} {store : β → σ → σ}

theorem of_read_eq_ok_iff {depth : Nat} {tree : Tree} {update : σ → σ} :
    (Field.of name read store).read depth tree = .ok update ↔
      ∃ b, read depth tree = .ok b ∧ store b = update :=
  map_eq_ok_iff

/-- A field leaves what it does not store in as it is. -/
theorem keeps_of_store {aliases : List String} {part : σ → γ}
    (h : ∀ b record, part (store b record) = part record) :
    (Field.mk name aliases fun depth tree => (read depth tree).map store).Keeps part := by
  intro depth tree update hread record
  obtain ⟨b, -, rfl⟩ := map_eq_ok_iff.1 hread
  exact h b record

end Field

namespace Schema

variable {schema : Schema ε σ α} {depth : Nat}

/-- The name of the field that a member is. -/
def fieldName? (schema : Schema ε σ α) (member : Option String × Tree) : Option String :=
  (member.1.bind schema.field?).map Field.name

/-- What a text has for a field. -/
def found? (schema : Schema ε σ α) (tree : Tree) (name : String) : Option Tree :=
  match tree with
  | .object members _ => (members.find? (schema.fieldName? · = some name)).map Prod.snd
  | .array items _ => items[schema.place name]?
  | _ => none

/-- What a member does to the record. -/
def update (schema : Schema ε σ α) (depth : Nat) (name : String) (value : Tree) :
    Except (Fault ε) (σ → σ) :=
  match schema.field? name with
  | some field => field.read depth value
  | none => schema.other depth name value

/-- A part of the record that no field but the one of the given name changes. -/
structure Owns (schema : Schema ε σ α) (name : String) (part : σ → γ) : Prop where
  fields : ∀ other ∈ schema.fields, other.name = name ∨ other.Keeps part
  keep : ∀ keep ∈ schema.keep, ∀ name value record, part (keep name value record) = part record

/-! ## Members -/

/-- Members are read one by one, and no field may come a second time. -/
theorem readMembers_cons_eq_ok_iff {seen : List String} {record record' : σ}
    {member : Option String × Tree} {rest : List (Option String × Tree)} :
    schema.readMembers depth seen record (member :: rest) = .ok record' ↔
      ∃ name update, member.1 = some name ∧ schema.update depth name member.2 = .ok update ∧
        (∀ field ∈ schema.fieldName? member, field ∉ seen) ∧
        schema.readMembers depth ((schema.fieldName? member).toList ++ seen) (update record) rest =
          .ok record' := by
  obtain ⟨_ | name, value⟩ := member
  · exact ⟨nofun, nofun⟩
  · have hname : schema.fieldName? (some name, value) = (schema.field? name).map Field.name := rfl
    rw [readMembers]
    simp only [hname, update, Option.some.injEq, exists_and_left, exists_eq_left']
    cases schema.field? name with
    | none =>
      dsimp only
      rw [bind_eq_ok_iff]
      simp
    | some field =>
      dsimp only
      by_cases hseen : field.name ∈ seen
      · rw [if_pos (List.contains_iff_mem.2 hseen)]
        simp [hseen]
      · rw [if_neg fun h => hseen (List.contains_iff_mem.1 h), bind_eq_ok_iff]
        simp [hseen]

/-- A field that was there before does not come again. -/
theorem find?_eq_none_of_seen {seen : List String} {record record' : σ} {name : String}
    {members : List (Option String × Tree)}
    (h : schema.readMembers depth seen record members = .ok record') (hseen : name ∈ seen) :
    members.find? (schema.fieldName? · = some name) = none := by
  induction members generalizing seen record with
  | nil => rfl
  | cons member members ih =>
    obtain ⟨_, _, -, -, hnew, h⟩ := readMembers_cons_eq_ok_iff.1 h
    have hother : ¬schema.fieldName? member = some name := fun heq => hnew name heq hseen
    rw [List.find?_cons_of_neg (by simpa using hother)]
    exact ih h (List.mem_append_right _ hseen)

/-- Members are read exactly if each of them is and no field comes twice. -/
theorem exists_readMembers_iff {seen : List String} {record : σ}
    {members : List (Option String × Tree)} :
    (∃ record', schema.readMembers depth seen record members = .ok record') ↔
      (∀ member ∈ members, ∃ name update, member.1 = some name ∧
        schema.update depth name member.2 = .ok update) ∧
      (members.filterMap schema.fieldName?).Nodup ∧
      ∀ name ∈ members.filterMap schema.fieldName?, name ∉ seen := by
  induction members generalizing seen record with
  | nil =>
    exact ⟨fun _ => ⟨List.forall_mem_nil _, List.nodup_nil, List.forall_mem_nil _⟩,
      fun _ => ⟨record, rfl⟩⟩
  | cons member members ih =>
    simp only [readMembers_cons_eq_ok_iff, List.forall_mem_cons]
    cases hname : schema.fieldName? member with
    | none =>
      rw [List.filterMap_cons_none hname]
      constructor
      · rintro ⟨record', name, update, hmember, hupdate, -, h⟩
        obtain ⟨hall, hnodup, hseen⟩ := ih.1 ⟨record', h⟩
        exact ⟨⟨⟨name, update, hmember, hupdate⟩, hall⟩, hnodup, hseen⟩
      · rintro ⟨⟨⟨name, update, hmember, hupdate⟩, hall⟩, hnodup, hseen⟩
        obtain ⟨record', h⟩ := ih.2 ⟨hall, hnodup, hseen⟩
        exact ⟨record', name, update, hmember, hupdate,
          fun _ hmem => absurd hmem (Option.not_mem_none _), h⟩
    | some field =>
      rw [List.filterMap_cons_some hname, List.nodup_cons]
      simp only [List.forall_mem_cons]
      constructor
      · rintro ⟨record', name, update, hmember, hupdate, hnew, h⟩
        obtain ⟨hall, hnodup, hseen⟩ := ih.1 ⟨record', h⟩
        refine ⟨⟨⟨name, update, hmember, hupdate⟩, hall⟩, ⟨?_, hnodup⟩, hnew field rfl, ?_⟩
        · exact fun hmem => hseen field hmem List.mem_cons_self
        · exact fun other hmem hother => hseen other hmem (List.mem_cons_of_mem _ hother)
      · rintro ⟨⟨⟨name, update, hmember, hupdate⟩, hall⟩, ⟨hfresh, hnodup⟩, hnew, hseen⟩
        have hseen' : ∀ other ∈ members.filterMap schema.fieldName?, other ∉ field :: seen := by
          intro other hmem hother
          rcases List.mem_cons.1 hother with rfl | hother
          · exact hfresh hmem
          · exact hseen other hmem hother
        obtain ⟨record', h⟩ := ih.2 ⟨hall, hnodup, hseen'⟩
        refine ⟨record', name, update, hmember, hupdate, ?_, h⟩
        rintro _ ⟨⟩
        exact hnew

section Parts

variable {field : Field ε σ} {part : σ → γ}

/-- Fields are told apart by their names. -/
theorem eq_of_name_eq (hnodup : (schema.fields.map Field.name).Nodup)
    (hfield : field ∈ schema.fields)
    {other : Field ε σ} (hother : other ∈ schema.fields) (h : other.name = field.name) :
    other = field :=
  List.inj_on_of_nodup_map hnodup hother hfield h

/-- A member that is not the field leaves the field's part as it is. -/
theorem Owns.update_keeps (howns : schema.Owns field.name part) {name : String} {value : Tree}
    {update : σ → σ} (hother : schema.fieldName? (some name, value) ≠ some field.name)
    (h : schema.update depth name value = .ok update) (record : σ) :
    part (update record) = part record := by
  have hname : schema.fieldName? (some name, value) = (schema.field? name).map Field.name := rfl
  rw [Schema.update] at h
  cases hfield : schema.field? name with
  | some other =>
    rw [hfield] at h hname
    rcases howns.fields other (List.mem_of_find?_eq_some hfield) with heq | hkeeps
    · rw [hname, Option.map_some, heq] at hother
      exact absurd rfl hother
    · exact hkeeps depth value update h record
  | none =>
    rw [hfield] at h
    change schema.other depth name value = .ok update at h
    rw [other] at h
    cases hkeep : schema.keep with
    | none =>
      rw [hkeep] at h
      dsimp only at h
      split at h
      · cases h
        rfl
      · cases h
    | some keep =>
      rw [hkeep] at h
      obtain ⟨kept, -, rfl⟩ := map_eq_ok_iff.1 h
      exact howns.keep keep hkeep name kept record

/-- The part of a field depends on the field's own member only. -/
theorem part_of_readMembers (hnodup : (schema.fields.map Field.name).Nodup)
    (hfield : field ∈ schema.fields) (howns : schema.Owns field.name part) {seen : List String}
    {record record' : σ} {members : List (Option String × Tree)}
    (h : schema.readMembers depth seen record members = .ok record') :
    (members.find? (schema.fieldName? · = some field.name) = none ∧ part record' = part record) ∨
      ∃ member update before,
        members.find? (schema.fieldName? · = some field.name) = some member ∧
        field.read depth member.2 = .ok update ∧ part record' = part (update before) := by
  induction members generalizing seen record with
  | nil =>
    cases h
    exact .inl ⟨rfl, rfl⟩
  | cons member members ih =>
    obtain ⟨name, update, hname, hupdate, -, h⟩ := readMembers_cons_eq_ok_iff.1 h
    obtain ⟨_, value⟩ := member
    obtain rfl : _ = some name := hname
    by_cases hself : schema.fieldName? (some name, value) = some field.name
    · -- The field is here, so it is not among the members that follow.
      obtain ⟨other, hother, heq⟩ := Option.map_eq_some_iff.1 hself
      change schema.field? name = some other at hother
      obtain rfl := eq_of_name_eq hnodup hfield (List.mem_of_find?_eq_some hother) heq
      have hread : other.read depth value = .ok update := by
        rw [Schema.update, hother] at hupdate
        exact hupdate
      have hnone : members.find? (schema.fieldName? · = some other.name) = none :=
        find?_eq_none_of_seen h (List.mem_append_left seen (by rw [hself]; simp))
      refine .inr ⟨(some name, value), update, record, ?_, hread, ?_⟩
      · exact List.find?_cons_of_pos (by simpa using hself)
      · rcases ih h with ⟨-, heq⟩ | ⟨_, _, _, hsome, -⟩
        · exact heq
        · rw [hnone] at hsome
          cases hsome
    · rw [List.find?_cons_of_neg (by simpa using hself)]
      have hkeeps := howns.update_keeps hself hupdate record
      rw [← hkeeps]
      exact ih h

/-! ## Items -/

theorem keeps_of_readItems {fields : List (Field ε σ)}
    (hkeeps : ∀ other ∈ fields, other.Keeps part) {items : List Tree} {record record' : σ}
    (h : Field.readItems depth record fields items = .ok record') : part record' = part record := by
  induction fields generalizing items record with
  | nil =>
    cases items with
    | nil =>
      cases h
      rfl
    | cons _ _ => cases h
  | cons other fields ih =>
    cases items with
    | nil =>
      cases h
      rfl
    | cons item items =>
      obtain ⟨update, hupdate, h⟩ := bind_eq_ok_iff.1 h
      rw [ih (fun other h => hkeeps other (List.mem_cons_of_mem _ h)) h,
        hkeeps other List.mem_cons_self depth item update hupdate record]

/-- The part of a field depends on the item in the field's place only. -/
theorem part_of_readItems {fields : List (Field ε σ)} (hnodup : (fields.map Field.name).Nodup)
    (hfield : field ∈ fields)
    (hothers : ∀ other ∈ fields, other.name = field.name ∨ other.Keeps part)
    {items : List Tree} {record record' : σ}
    (h : Field.readItems depth record fields items = .ok record') :
    (items[fields.findIdx (·.name = field.name)]? = none ∧ part record' = part record) ∨
      ∃ item update before, items[fields.findIdx (·.name = field.name)]? = some item ∧
        field.read depth item = .ok update ∧ part record' = part (update before) := by
  induction fields generalizing items record with
  | nil => cases hfield
  | cons first fields ih =>
    obtain ⟨hnew, hrest⟩ := List.nodup_cons.1 hnodup
    cases items with
    | nil =>
      cases h
      exact .inl ⟨rfl, rfl⟩
    | cons item items =>
      obtain ⟨update, hupdate, h⟩ := bind_eq_ok_iff.1 h
      by_cases hself : first.name = field.name
      · obtain rfl : first = field := by
          rcases List.mem_cons.1 hfield with heq | hmem
          · exact heq.symm
          · exact absurd (List.mem_map.2 ⟨field, hmem, hself.symm⟩) hnew
        have hkeeps : ∀ other ∈ fields, other.Keeps part := fun other hmem =>
          (hothers other (List.mem_cons_of_mem _ hmem)).resolve_left fun heq =>
            hnew (List.mem_map.2 ⟨other, hmem, heq⟩)
        refine .inr ⟨item, update, record, ?_, hupdate, keeps_of_readItems hkeeps h⟩
        rw [List.findIdx_cons, decide_eq_true hself]
        rfl
      · have hmem : field ∈ fields := (List.mem_cons.1 hfield).resolve_left fun heq =>
          hself (heq ▸ rfl)
        have hkeeps := (hothers first List.mem_cons_self).resolve_left hself
        rw [List.findIdx_cons, decide_eq_false hself]
        rw [← hkeeps depth item update hupdate record]
        exact ih hrest hmem (fun other h => hothers other (List.mem_cons_of_mem _ h)) h

/-! ## Records -/

/-- What was collected from a text in the end, before the record was made. -/
inductive Collected (schema : Schema ε σ α) (below : Nat) : Tree → σ → Prop
  | members {members : List (Option String × Tree)} {record : σ}
      (h : schema.readMembers below [] schema.blank members = .ok record) :
      Collected schema below (.object members true) record
  | items {items : List Tree} {record : σ} (hpositional : schema.positional = true)
      (h : Field.readItems below schema.blank schema.fields items = .ok record) :
      Collected schema below (.array items true) record

/-- How reading a record ends, whatever fault there is for a missing field. -/
theorem closed_and_finish {closed : Bool} {record : σ} {a : α} {fault : String → Fault ε}
    (h : (if closed then
        match schema.finish record with
        | .ok a => .ok a
        | .error name => .error (fault name)
      else .error .malformed : Except (Fault ε) α) = .ok a) :
    closed = true ∧ schema.finish record = .ok a := by
  split at h
  · next hclosed =>
    split at h
    · next hfinish =>
      cases h
      exact ⟨hclosed, hfinish⟩
    · cases h
  · cases h

/-- Exactly the records are read that are collected and have all that they need. -/
theorem read_eq_ok_iff {tree : Tree} {a : α} :
    schema.read depth tree = .ok a ↔
      ∃ below record, depth = below + 1 ∧ schema.Collected below tree record ∧
        schema.finish record = .ok a := by
  constructor
  · intro h
    cases tree with
    | object members closed =>
      cases depth with
      | zero => cases h
      | succ below =>
        obtain ⟨record, hrecord, hend⟩ := bind_eq_ok_iff.1 h
        obtain ⟨rfl, hfinish⟩ := closed_and_finish hend
        exact ⟨below, record, rfl, .members hrecord, hfinish⟩
    | array items closed =>
      unfold read at h
      dsimp only at h
      by_cases hpositional : schema.positional = true
      · rw [if_pos hpositional] at h
        cases depth with
        | zero => cases h
        | succ below =>
          obtain ⟨record, hrecord, hend⟩ := bind_eq_ok_iff.1 h
          obtain ⟨rfl, hfinish⟩ := closed_and_finish hend
          exact ⟨below, record, rfl, .items hpositional hrecord, hfinish⟩
      · rw [if_neg hpositional] at h
        cases h
    | _ => cases h
  · rintro ⟨below, record, rfl, hcollected, hfinish⟩
    cases hcollected with
    | members h =>
      rw [read, h]
      simp only [bind, Except.bind, ↓reduceIte, hfinish]
    | items hpositional h =>
      rw [read, if_pos hpositional, h]
      simp only [bind, Except.bind, ↓reduceIte, hfinish]

/-- What a record holds for a field is what the field's reader makes of what the text has for
it. -/
theorem Collected.part_eq {below : Nat} {tree : Tree} {record : σ}
    (h : schema.Collected below tree record) (hnodup : (schema.fields.map Field.name).Nodup)
    {name : String} {read : Reader ε β} {store : β → σ → σ}
    (hname : schema.field? name = some (.of name read store)) (howns : schema.Owns name part)
    {give : β → γ} (hgive : ∀ b record, part (store b record) = give b) :
    (schema.found? tree name = none ∧ part record = part schema.blank) ∨
      ∃ value b, schema.found? tree name = some value ∧ read below value = .ok b ∧
        part record = give b := by
  have hfield := List.mem_of_find?_eq_some hname
  cases h with
  | members h =>
    rcases part_of_readMembers hnodup hfield howns h with
      ⟨hnone, heq⟩ | ⟨member, update, before, hsome, hread, heq⟩
    · exact .inl ⟨Option.map_eq_none_iff.2 hnone, heq⟩
    · obtain ⟨b, hb, rfl⟩ := Field.of_read_eq_ok_iff.1 hread
      exact .inr ⟨member.2, b, Option.map_eq_some_iff.2 ⟨member, hsome, rfl⟩, hb,
        heq.trans (hgive b before)⟩
  | items hpositional h =>
    rcases part_of_readItems hnodup hfield howns.fields h with
      ⟨hnone, heq⟩ | ⟨item, update, before, hsome, hread, heq⟩
    · exact .inl ⟨hnone, heq⟩
    · obtain ⟨b, hb, rfl⟩ := Field.of_read_eq_ok_iff.1 hread
      exact .inr ⟨item, b, hsome, hb, heq.trans (hgive b before)⟩

end Parts

variable {below : Nat} {tree : Tree} {record : σ} {name : String} {read : Reader ε β}

/-- A field that the record needs is in the text. -/
theorem Collected.required (h : schema.Collected below tree record)
    (hnodup : (schema.fields.map Field.name).Nodup) {store : β → σ → σ} {part : σ → Option β}
    (hname : schema.field? name = some (.of name read store)) (howns : schema.Owns name part)
    (hstore : ∀ b record, part (store b record) = some b) (hblank : part schema.blank = none)
    {b : β}
    (hb : part record = some b) :
    ∃ value, schema.found? tree name = some value ∧ read below value = .ok b := by
  rcases h.part_eq hnodup hname howns hstore with ⟨-, heq⟩ | ⟨value, other, hvalue, hread, heq⟩
  · rw [heq, hblank] at hb
    cases hb
  · obtain rfl := Option.some.inj (heq.symm.trans hb)
    exact ⟨value, hvalue, hread⟩

/-- A field that may be absent, or `null`, or in the text. -/
theorem Collected.optional (h : schema.Collected below tree record)
    (hnodup : (schema.fields.map Field.name).Nodup) {store : Option β → σ → σ}
    {part : σ → Option β} (hname : schema.field? name = some (.of name read.optional store))
    (howns : schema.Owns name part) (hstore : ∀ b record, part (store b record) = b)
    (hblank : part schema.blank = none) :
    ((schema.found? tree name = none ∨ schema.found? tree name = some .null) ∧
      part record = none) ∨
    ∃ value b, schema.found? tree name = some value ∧ value ≠ .null ∧ read below value = .ok b ∧
      part record = some b := by
  rcases h.part_eq hnodup hname howns hstore with ⟨hnone, heq⟩ | ⟨value, b, hvalue, hread, heq⟩
  · exact .inl ⟨.inl hnone, heq.trans hblank⟩
  · rcases Reader.optional_eq_ok_iff.1 hread with ⟨rfl, rfl⟩ | ⟨hnull, c, hread', rfl⟩
    · exact .inl ⟨.inr hvalue, heq⟩
    · exact .inr ⟨value, c, hvalue, hnull, hread', heq⟩

end Schema

end SealedEnvelope.Json
