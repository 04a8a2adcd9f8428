import Mathlib.Data.List.Nodup
import SealedEnvelope.Proofs.Json.Trees
import SealedEnvelope.Proofs.Reading.Records

/-!
# The entries of a record

What is read of a text is a list of *entries*, that is of fields with their values, whichever form
the text has (`Schema.entries`).  The record is made from them one by one, and as updates of
different fields do not touch the same part of it (`Schema.Orderly`), their order is of no
consequence (`Schema.Orderly.collect_perm`).

An entry that says no more than its absence can be left out (`Schema.Void`).  So two texts that have
the same entries, up to their order and such as these, are read alike
(`Schema.Orderly.read_eq_ok_iff_of_perm`).
-/

namespace SealedEnvelope.Json

variable {ε σ α β γ : Type}

/-! ## Fields -/

namespace Field

variable {field other : Field ε σ} {depth : Nat} {value : Tree}

/-- What a value does to the record, if it is read. -/
def effect (field : Field ε σ) (depth : Nat) (value : Tree) : σ → σ :=
  match field.read depth value with
  | .ok update => update
  | .error _ => id

theorem effect_eq {update : σ → σ} (h : field.read depth value = .ok update) :
    field.effect depth value = update := by
  rw [effect, h]

/-- A value is read for the field. -/
def Reads (depth : Nat) (entry : Field ε σ × Tree) : Prop :=
  ∃ update, entry.1.read depth entry.2 = .ok update

theorem Keeps.effect_eq {part : σ → γ} (h : field.Keeps part) (depth : Nat) (value : Tree)
    (record : σ) : part (field.effect depth value record) = part record := by
  unfold effect
  cases hread : field.read depth value with
  | ok update => exact h depth value update hread record
  | error => rfl

/-- The fields do not touch the same part of a record. -/
def Commutes (field other : Field ε σ) : Prop :=
  ∀ depth value value' update update', field.read depth value = .ok update →
    other.read depth value' = .ok update' →
    ∀ record, update (update' record) = update' (update record)

theorem Commutes.effect_comm (h : field.Commutes other) (depth : Nat) (value value' : Tree)
    (record : σ) :
    field.effect depth value (other.effect depth value' record) =
      other.effect depth value' (field.effect depth value record) := by
  unfold effect
  cases hread : field.read depth value with
  | error => rfl
  | ok update =>
    cases hread' : other.read depth value' with
    | error => rfl
    | ok update' => exact h depth value value' update update' hread hread' record

/-- Fields commute if what they store does. -/
theorem commutes_of_store {δ : Type} {name name' : String} {aliases aliases' : List String}
    {read : Reader ε β} {read' : Reader ε δ} {store : β → σ → σ} {store' : δ → σ → σ}
    (h : ∀ b d record, store b (store' d record) = store' d (store b record)) :
    (Field.mk name aliases fun depth tree => (read depth tree).map store).Commutes
      (Field.mk name' aliases' fun depth tree => (read' depth tree).map store') := by
  intro depth value value' update update' hread hread' record
  obtain ⟨b, -, rfl⟩ := map_eq_ok_iff.1 hread
  obtain ⟨d, -, rfl⟩ := map_eq_ok_iff.1 hread'
  exact h b d record

end Field

namespace Schema

variable {schema : Schema ε σ α} {depth below : Nat} {tree tree' : Tree} {record record' : σ}
  {members : List (Option String × Tree)}

/-! ## Entries -/

/-- The entry that a member is. -/
def entryOf (schema : Schema ε σ α) (member : Option String × Tree) : Option (Field ε σ × Tree) :=
  (member.1.bind schema.field?).map (·, member.2)

/-- The fields of a text with their values. -/
def entries (schema : Schema ε σ α) : Tree → List (Field ε σ × Tree)
  | .object members _ => members.filterMap schema.entryOf
  | .array items _ => schema.fields.zip items
  | _ => []

theorem entryOf_eq_some_iff {member : Option String × Tree} {field : Field ε σ} {value : Tree} :
    schema.entryOf member = some (field, value) ↔
      ∃ name, member.1 = some name ∧ schema.field? name = some field ∧ member.2 = value := by
  rw [entryOf, Option.map_eq_some_iff]
  simp only [Option.bind_eq_some_iff, Prod.mk.injEq]
  constructor
  · rintro ⟨_, ⟨name, hname, hfield⟩, rfl, rfl⟩
    exact ⟨name, hname, hfield, rfl⟩
  · rintro ⟨name, hname, hfield, rfl⟩
    exact ⟨field, ⟨name, hname, hfield⟩, rfl, rfl⟩

theorem map_name_entryOf (schema : Schema ε σ α) (member : Option String × Tree) :
    (schema.entryOf member).map (·.1.name) = schema.fieldName? member :=
  Option.map_map ..

/-- The names of an object's entries are the fields that its members are. -/
theorem map_name_entries (schema : Schema ε σ α) (members : List (Option String × Tree))
    (closed : Bool) :
    (schema.entries (.object members closed)).map (·.1.name) =
      members.filterMap schema.fieldName? := by
  rw [entries, List.map_filterMap]
  exact List.filterMap_congr fun member _ => schema.map_name_entryOf member

theorem fst_mem_fields_of_mem_entries {entry : Field ε σ × Tree} (h : entry ∈ schema.entries tree) :
    entry.1 ∈ schema.fields := by
  unfold entries at h
  split at h
  · obtain ⟨member, -, h⟩ := List.mem_filterMap.1 h
    obtain ⟨_, -, hfield, -⟩ := entryOf_eq_some_iff.1 h
    exact List.mem_of_find?_eq_some hfield
  · exact (List.of_mem_zip h).1
  · cases h

/-- An object has nothing for a field that no member is. -/
theorem found?_eq_none_iff {closed : Bool} {name : String} :
    schema.found? (.object members closed) name = none ↔
      name ∉ members.filterMap schema.fieldName? := by
  rw [found?, Option.map_eq_none_iff, List.find?_eq_none, List.mem_filterMap]
  simp

/-- If no field comes twice, the entries of an object are what it has for its fields. -/
theorem mem_entries_iff (hfields : (schema.fields.map Field.name).Nodup) {closed : Bool}
    (hnodup : (members.filterMap schema.fieldName?).Nodup) {field : Field ε σ}
    (hfield : field ∈ schema.fields) {value : Tree} :
    (field, value) ∈ schema.entries (.object members closed) ↔
      schema.found? (.object members closed) field.name = some value := by
  induction members with
  | nil => exact ⟨nofun, nofun⟩
  | cons member members ih =>
    have hname := schema.map_name_entryOf member
    cases hentry : schema.entryOf member with
    | none =>
      rw [hentry, Option.map_none] at hname
      rw [List.filterMap_cons_none hname.symm] at hnodup
      rw [entries, List.filterMap_cons_none hentry, found?,
        List.find?_cons_of_neg (by simp [← hname])]
      exact ih hnodup
    | some entry =>
      obtain ⟨other, value'⟩ := entry
      rw [hentry, Option.map_some] at hname
      rw [List.filterMap_cons_some hname.symm] at hnodup
      obtain ⟨hnew, hrest⟩ := List.nodup_cons.1 hnodup
      obtain ⟨_, -, hother, rfl⟩ := entryOf_eq_some_iff.1 hentry
      rw [entries, List.filterMap_cons_some hentry, List.mem_cons, Prod.mk.injEq, found?]
      by_cases hself : other.name = field.name
      · -- The field is here, so it is not among the members that follow.
        obtain rfl := eq_of_name_eq hfields hfield (List.mem_of_find?_eq_some hother) hself
        have hnot : (other, value) ∉ members.filterMap schema.entryOf := fun h => hnew <| by
          rw [← schema.map_name_entries members closed]
          exact List.mem_map_of_mem (f := (·.1.name)) h
        rw [List.find?_cons_of_pos (by simp [← hname])]
        simp [hnot, eq_comm]
      · rw [List.find?_cons_of_neg (by simp [← hname, hself])]
        have hother : ¬(field = other ∧ value = member.2) := fun h => hself (by rw [h.1])
        rw [or_iff_right hother]
        exact ih hrest

/-! ## Which texts are read -/

/-- The text is an object that has no field twice, or an array that is not too long. -/
inductive Laid (schema : Schema ε σ α) : Tree → Prop
  | object {members : List (Option String × Tree)}
      (hnamed : ∀ member ∈ members, ∃ name, member.1 = some name ∧
        (schema.field? name = none → member.2.intact = true))
      (hnodup : (members.filterMap schema.fieldName?).Nodup) : Laid schema (.object members true)
  | array {items : List Tree} (hlength : items.length ≤ schema.fields.length) :
      Laid schema (.array items true)

/-- The record with further entries. -/
def collect (depth : Nat) (record : σ) (entries : List (Field ε σ × Tree)) : σ :=
  entries.foldl (fun record entry => entry.1.effect depth entry.2 record) record

theorem collect_cons (depth : Nat) (record : σ) (entry : Field ε σ × Tree)
    (entries : List (Field ε σ × Tree)) :
    collect depth record (entry :: entries) =
      collect depth (entry.1.effect depth entry.2 record) entries := rfl

theorem collect_append (depth : Nat) (record : σ) (left right : List (Field ε σ × Tree)) :
    collect depth record (left ++ right) = collect depth (collect depth record left) right :=
  List.foldl_append

/-- What a member does to the record, where other members than fields are passed over. -/
theorem update_eq_ok_iff (hkeep : schema.keep = none) {name : String} {value : Tree}
    {update : σ → σ} :
    schema.update depth name value = .ok update ↔
      (∃ field, schema.field? name = some field ∧ field.read depth value = .ok update) ∨
        schema.field? name = none ∧ value.intact = true ∧ update = id := by
  rw [Schema.update, other, hkeep]
  cases schema.field? name with
  | some field => simp
  | none =>
    cases value.intact with
    | true => simp [eq_comm]
    | false => simp

/-- Members are collected one by one. -/
theorem eq_collect_of_readMembers (hkeep : schema.keep = none) {seen : List String}
    (h : schema.readMembers depth seen record members = .ok record') :
    record' = collect depth record (members.filterMap schema.entryOf) := by
  induction members generalizing seen record with
  | nil => exact (Except.ok.inj h).symm
  | cons member members ih =>
    obtain ⟨name, update, hname, hupdate, -, h⟩ := readMembers_cons_eq_ok_iff.1 h
    rw [ih h]
    rcases (update_eq_ok_iff hkeep).1 hupdate with ⟨field, hfield, hread⟩ | ⟨hnone, -, rfl⟩
    · have hentry := entryOf_eq_some_iff.2 ⟨name, hname, hfield, rfl⟩
      rw [List.filterMap_cons_some hentry, collect_cons, Field.effect_eq hread]
    · have hentry : schema.entryOf member = none := by
        rw [entryOf, hname, Option.bind_some, hnone, Option.map_none]
      rw [List.filterMap_cons_none hentry]
      rfl

theorem readMembers_eq_ok_iff (hkeep : schema.keep = none) :
    schema.readMembers depth [] record members = .ok record' ↔
      schema.Laid (.object members true) ∧
      (∀ entry ∈ members.filterMap schema.entryOf, Field.Reads depth entry) ∧
      record' = collect depth record (members.filterMap schema.entryOf) := by
  constructor
  · intro h
    obtain ⟨hread, hnodup, -⟩ := exists_readMembers_iff.1 ⟨record', h⟩
    refine ⟨.object (fun member hmem => ?_) hnodup, fun entry hmem => ?_,
      eq_collect_of_readMembers hkeep h⟩
    · obtain ⟨name, update, hname, hupdate⟩ := hread member hmem
      refine ⟨name, hname, fun hnone => ?_⟩
      rcases (update_eq_ok_iff hkeep).1 hupdate with ⟨field, hfield, -⟩ | ⟨-, hintact, -⟩
      · cases hnone.symm.trans hfield
      · exact hintact
    · obtain ⟨member, hmember, hentry⟩ := List.mem_filterMap.1 hmem
      obtain ⟨field, value⟩ := entry
      obtain ⟨name, hname, hfield, rfl⟩ := entryOf_eq_some_iff.1 hentry
      obtain ⟨name', update, hname', hupdate⟩ := hread member hmember
      cases hname.symm.trans hname'
      rw [Schema.update, hfield] at hupdate
      exact ⟨update, hupdate⟩
  · rintro ⟨hlaid, hreads, rfl⟩
    cases hlaid with
    | object hnamed hnodup =>
      have hread : ∀ member ∈ members, ∃ name update, member.1 = some name ∧
          schema.update depth name member.2 = .ok update := by
        intro member hmem
        obtain ⟨name, hname, hintact⟩ := hnamed member hmem
        cases hfield : schema.field? name with
        | none =>
          exact ⟨name, id, hname, (update_eq_ok_iff hkeep).2 (.inr ⟨hfield, hintact hfield, rfl⟩)⟩
        | some field =>
          obtain ⟨update, hupdate⟩ := hreads (field, member.2)
            (List.mem_filterMap.2 ⟨member, hmem, entryOf_eq_some_iff.2 ⟨name, hname, hfield, rfl⟩⟩)
          exact ⟨name, update, hname, (update_eq_ok_iff hkeep).2 (.inl ⟨field, hfield, hupdate⟩)⟩
      obtain ⟨record', h⟩ := exists_readMembers_iff.2 ⟨hread, hnodup, fun _ _ => List.not_mem_nil⟩
      rw [h, eq_collect_of_readMembers hkeep h]

theorem readItems_eq_ok_iff {fields : List (Field ε σ)} {items : List Tree} :
    Field.readItems depth record fields items = .ok record' ↔
      items.length ≤ fields.length ∧ (∀ entry ∈ fields.zip items, Field.Reads depth entry) ∧
        record' = collect depth record (fields.zip items) := by
  induction items generalizing fields record with
  | nil => 
    rw [Field.readItems, List.zip_nil_right]
    simp [collect, eq_comm]
  | cons item items ih =>
    cases fields with
    | nil => exact ⟨nofun, fun h => absurd h.1 (Nat.not_succ_le_zero _)⟩
    | cons field fields =>
      rw [Field.readItems, bind_eq_ok_iff, List.zip_cons_cons, List.forall_mem_cons,
        List.length_cons, List.length_cons, Nat.succ_le_succ_iff]
      constructor
      · rintro ⟨update, hread, h⟩
        obtain ⟨hlength, hreads, rfl⟩ := ih.1 h
        refine ⟨hlength, ⟨⟨update, hread⟩, hreads⟩, ?_⟩
        rw [collect_cons, Field.effect_eq hread]
      · rintro ⟨hlength, ⟨⟨update, hread⟩, hreads⟩, rfl⟩
        refine ⟨update, hread, ih.2 ⟨hlength, hreads, ?_⟩⟩
        rw [collect_cons, Field.effect_eq hread]

/-! ## Order -/

/-- Fields in whose entries only the fields matter, not their order. -/
structure Orderly (schema : Schema ε σ α) : Prop where
  positional : schema.positional = true
  keep : schema.keep = none
  nodup : (schema.fields.map Field.name).Nodup
  commutes : ∀ field ∈ schema.fields, ∀ other ∈ schema.fields, field.name ≠ other.name →
    field.Commutes other

theorem sublist_map_fst_zip (fields : List (Field ε σ)) (items : List Tree) :
    ((fields.zip items).map Prod.fst).Sublist fields := by
  induction fields generalizing items with
  | nil => exact .slnil
  | cons field fields ih =>
    cases items with
    | nil => exact List.nil_sublist _
    | cons item items => exact (ih items).cons_cons field

theorem Laid.nodup (h : schema.Laid tree) (hfields : (schema.fields.map Field.name).Nodup) :
    ((schema.entries tree).map (·.1.name)).Nodup := by
  cases h with
  | object _ hnodup => rwa [map_name_entries]
  | @array items =>
    have hsub := (sublist_map_fst_zip schema.fields items).map Field.name
    rw [List.map_map] at hsub
    exact hsub.nodup hfields

/-- The entries of an object are what it has for its fields. -/
theorem Laid.perm_entries (h : schema.Laid (.object members true))
    (hfields : (schema.fields.map Field.name).Nodup) :
    (schema.entries (.object members true)).Perm (schema.fields.filterMap fun field =>
      (schema.found? (.object members true) field.name).map (field, ·)) := by
  refine (List.perm_ext_iff_of_nodup (h.nodup hfields).of_map
    (hfields.of_map.filterMap ?_)).2 fun entry => ?_
  · intro field other entry hentry hother
    obtain ⟨value, -, rfl⟩ := Option.map_eq_some_iff.1 hentry
    obtain ⟨value', -, heq⟩ := Option.map_eq_some_iff.1 hother
    exact (Prod.mk.inj heq).1.symm
  · cases h with
    | object _ hnodup =>
      obtain ⟨field, value⟩ := entry
      rw [List.mem_filterMap]
      constructor
      · intro hmem
        have hfield := fst_mem_fields_of_mem_entries hmem
        refine ⟨field, hfield, ?_⟩
        rw [(mem_entries_iff hfields hnodup hfield).1 hmem, Option.map_some]
      · rintro ⟨other, hother, hentry⟩
        obtain ⟨_, hvalue, heq⟩ := Option.map_eq_some_iff.1 hentry
        cases heq
        exact (mem_entries_iff hfields hnodup hother).2 hvalue

namespace Orderly

variable (h : schema.Orderly)
include h

theorem collected_iff :
    schema.Collected below tree record ↔ schema.Laid tree ∧
      (∀ entry ∈ schema.entries tree, Field.Reads below entry) ∧
      record = collect below schema.blank (schema.entries tree) := by
  constructor
  · rintro (hmembers | ⟨-, hitems⟩)
    · exact (readMembers_eq_ok_iff h.keep).1 hmembers
    · obtain ⟨hlength, hreads⟩ := readItems_eq_ok_iff.1 hitems
      exact ⟨.array hlength, hreads⟩
  · rintro ⟨hlaid, hreads⟩
    cases hlaid with
    | object hnamed hnodup =>
      exact .members ((readMembers_eq_ok_iff h.keep).2 ⟨.object hnamed hnodup, hreads⟩)
    | array hlength => exact .items h.positional (readItems_eq_ok_iff.2 ⟨hlength, hreads⟩)

/-- A record is read if its entries are and they are all that it needs. -/
theorem read_eq_ok_iff {a : α} :
    schema.read (below + 1) tree = .ok a ↔ schema.Laid tree ∧
      (∀ entry ∈ schema.entries tree, Field.Reads below entry) ∧
      schema.finish (collect below schema.blank (schema.entries tree)) = .ok a := by
  rw [Schema.read_eq_ok_iff]
  constructor
  · rintro ⟨below', record, hbelow, hcollected, hfinish⟩
    obtain rfl := Nat.succ.inj hbelow
    obtain ⟨hlaid, hreads, rfl⟩ := h.collected_iff.1 hcollected
    exact ⟨hlaid, hreads, hfinish⟩
  · rintro ⟨hlaid, hreads, hfinish⟩
    exact ⟨below, _, rfl, h.collected_iff.2 ⟨hlaid, hreads, rfl⟩, hfinish⟩

/-- The order of entries is of no consequence. -/
theorem collect_perm {entries entries' : List (Field ε σ × Tree)} (hperm : entries.Perm entries')
    (hmem : ∀ entry ∈ entries, entry.1 ∈ schema.fields)
    (hnodup : (entries.map (·.1.name)).Nodup) (record : σ) :
    collect depth record entries = collect depth record entries' := by
  refine hperm.foldl_eq' (fun x hx y hy record => ?_) record
  by_cases heq : x.1.name = y.1.name
  · rw [List.inj_on_of_nodup_map hnodup hx hy heq]
  · exact (h.commutes y.1 (hmem y hy) x.1 (hmem x hx) (Ne.symm heq)).effect_comm depth _ _ record

end Orderly

/-! ## Entries that say nothing -/

/-- The entries are of other fields than the given one. -/
def Lacks (schema : Schema ε σ α) (field : Field ε σ) (entries : List (Field ε σ × Tree)) : Prop :=
  ∀ entry ∈ entries, entry.1 ∈ schema.fields ∧ entry.1.name ≠ field.name

/-- The value says no more of the field than if the field were missing. -/
def Void (schema : Schema ε σ α) (depth : Nat) (entry : Field ε σ × Tree) : Prop :=
  Field.Reads depth entry ∧ ∀ entries, schema.Lacks entry.1 entries →
    schema.finish (entry.1.effect depth entry.2 (collect depth schema.blank entries)) =
      schema.finish (collect depth schema.blank entries)

/-- There is no record without the field. -/
def Requires (schema : Schema ε σ α) (depth : Nat) (field : Field ε σ) : Prop :=
  ∀ entries, schema.Lacks field entries → ∀ a,
    schema.finish (collect depth schema.blank entries) ≠ .ok a

theorem part_collect {field : Field ε σ} {part : σ → γ} (howns : schema.Owns field.name part)
    {entries : List (Field ε σ × Tree)} (h : schema.Lacks field entries) (record : σ) :
    part (collect depth record entries) = part record := by
  induction entries generalizing record with
  | nil => rfl
  | cons entry entries ih =>
    obtain ⟨⟨hmem, hne⟩, hentries⟩ := List.forall_mem_cons.1 h
    rw [collect_cons, ih hentries]
    exact ((howns.fields entry.1 hmem).resolve_left hne).effect_eq depth entry.2 record

theorem void_of_owns {field : Field ε σ} {value : Tree} {update : σ → σ} {part : σ → γ}
    (howns : schema.Owns field.name part) (hread : field.read depth value = .ok update)
    (hfinish : ∀ record, part record = part schema.blank →
      schema.finish (update record) = schema.finish record) : schema.Void depth (field, value) := by
  refine ⟨⟨update, hread⟩, fun entries h => ?_⟩
  rw [Field.effect_eq hread]
  exact hfinish _ (part_collect howns h schema.blank)

/-- `null` says nothing of a field that is stored as it is read and blank without a value. -/
theorem void_null_of_owns {name : String} {aliases : List String} {read : Reader ε β}
    {store : Option β → σ → σ} {part : σ → γ} (howns : schema.Owns name part)
    (hnone : ∀ record, part record = part schema.blank → store none record = record) :
    schema.Void depth
      (⟨name, aliases, fun depth tree => (read.optional depth tree).map store⟩, .null) :=
  void_of_owns howns rfl fun record h => congrArg schema.finish (hnone record h)

/-- A field is required if it has a value in every record. -/
theorem requires_of_owns {field : Field ε σ} {part : σ → Option γ}
    (howns : schema.Owns field.name part) (hblank : part schema.blank = none)
    (hfinish : ∀ record a, schema.finish record = .ok a → part record ≠ none) :
    schema.Requires depth field := fun _ h a hok =>
  hfinish _ a hok ((part_collect howns h schema.blank).trans hblank)

/-- Entries that say nothing can be left out behind the others. -/
theorem finish_append_void {entries void : List (Field ε σ × Tree)}
    (hmem : ∀ entry ∈ entries ++ void, entry.1 ∈ schema.fields)
    (hnodup : ((entries ++ void).map (·.1.name)).Nodup)
    (hvoid : ∀ entry ∈ void, schema.Void depth entry) :
    schema.finish (collect depth schema.blank (entries ++ void)) =
      schema.finish (collect depth schema.blank entries) := by
  induction void using List.reverseRecOn with
  | nil => rw [List.append_nil]
  | append_singleton void entry ih =>
    rw [← List.append_assoc] at hmem hnodup ⊢
    rw [List.map_append, List.nodup_append] at hnodup
    obtain ⟨hmem, -⟩ := List.forall_mem_append.1 hmem
    obtain ⟨hvoid, hentry⟩ := List.forall_mem_append.1 hvoid
    rw [collect_append]
    refine Eq.trans ((hentry entry (List.mem_singleton_self _)).2 _ fun other hother => ?_)
      (ih hmem hnodup.1 hvoid)
    exact ⟨hmem other hother,
      hnodup.2.2 _ (List.mem_map_of_mem hother) _ (List.mem_singleton_self _)⟩

/-- **Texts with the same entries are read alike**, in whatever order the entries come and whatever
else is there that says nothing. -/
theorem Orderly.read_eq_ok_iff_of_perm (h : schema.Orderly) (hlaid : schema.Laid tree)
    (hlaid' : schema.Laid tree') {void : List (Field ε σ × Tree)}
    (hperm : (schema.entries tree').Perm (schema.entries tree ++ void))
    (hvoid : ∀ entry ∈ void, schema.Void below entry) {a : α} :
    schema.read (below + 1) tree' = .ok a ↔ schema.read (below + 1) tree = .ok a := by
  have hmem : ∀ entry ∈ schema.entries tree', entry.1 ∈ schema.fields := fun entry =>
    fst_mem_fields_of_mem_entries
  have hnodup := hlaid'.nodup h.nodup
  have hfinish := finish_append_void (fun entry hentry => hmem entry (hperm.mem_iff.2 hentry))
    ((hperm.map _).nodup_iff.1 hnodup) hvoid
  have hreads : (∀ entry ∈ schema.entries tree', Field.Reads below entry) ↔
      ∀ entry ∈ schema.entries tree, Field.Reads below entry := by
    constructor
    · exact fun hall entry hentry => hall entry (hperm.mem_iff.2 (List.mem_append_left _ hentry))
    · intro hall entry hentry
      rcases List.mem_append.1 (hperm.mem_iff.1 hentry) with hentry | hentry
      · exact hall entry hentry
      · exact (hvoid entry hentry).1
  rw [h.read_eq_ok_iff, h.read_eq_ok_iff, iff_true_intro hlaid, iff_true_intro hlaid', hreads,
    h.collect_perm hperm hmem hnodup, hfinish]

/-- The order of the entries alone makes no difference. -/
theorem Orderly.read_eq_ok_iff_of_perm_entries (h : schema.Orderly) (hlaid : schema.Laid tree)
    (hlaid' : schema.Laid tree') (hperm : (schema.entries tree').Perm (schema.entries tree))
    {a : α} :
    schema.read (below + 1) tree' = .ok a ↔ schema.read (below + 1) tree = .ok a := by
  rw [← List.append_nil (schema.entries tree)] at hperm
  exact h.read_eq_ok_iff_of_perm hlaid hlaid' hperm nofun

end Schema

end SealedEnvelope.Json
