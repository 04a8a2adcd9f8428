import Mathlib.Logic.Relation
import SealedEnvelope.Proofs.Json.Respelling
import SealedEnvelope.Proofs.Reading.Entries

/-!
# Layouts of a record

A record can be written in many ways: its members in any order, further ones among them, `null` for
what may be missing, a field under another of its names, or as an array.  `Layout.Step` is one such
change of a text's tree.

None of them makes a difference to what is read (`Layout.Step.read_eq_ok`), and so neither does a
run of them (`Layout.read_eq_ok_of_steps`).  Each leaves the entries of the text as they are, up to
their order and entries that say nothing.

What does make a difference is a field that comes a second time, under whichever name, with
whatever value and wherever it stands (`Schema.Doubles.read_ne_ok`).
-/

namespace SealedEnvelope.Json

variable {ε σ α : Type}

/-! ## What may change -/

namespace Schema

/-- The value of a field is changed. -/
inductive Inside (schema : Schema ε σ α) (change : String → Tree → Tree → Prop) : Tree → Tree → Prop
  | member {before after : List (Option String × Tree)} {name : String} {field : Field ε σ}
      {value value' : Tree} (hfield : schema.field? name = some field)
      (h : change field.name value value') :
      Inside schema change (.object (before ++ (some name, value) :: after) true)
        (.object (before ++ (some name, value') :: after) true)
  | item {before after : List Tree} {field : Field ε σ} {value value' : Tree}
      (hfield : schema.fields[before.length]? = some field) (h : change field.name value value') :
      Inside schema change (.array (before ++ value :: after) true)
        (.array (before ++ value' :: after) true)

/-- A member is added to an object in which its field is already there, maybe by another name. -/
inductive Doubles (schema : Schema ε σ α) : Tree → Tree → Prop
  | mk {members members' : List (Option String × Tree)} {name : String} {value : Tree}
      {field : Field ε σ} (hfield : schema.field? name = some field)
      (hthere : schema.found? (.object members true) field.name ≠ none)
      (h : members'.Perm ((some name, value) :: members)) :
      Doubles schema (.object members true) (.object members' true)

end Schema

/-- One item of an array is changed. -/
inductive Tree.OneItem (change : Tree → Tree → Prop) : Tree → Tree → Prop
  | mk {before after : List Tree} {item item' : Tree} (h : change item item') :
      OneItem change (.array (before ++ item :: after) true)
        (.array (before ++ item' :: after) true)

/-- In how many ways a record may be written. -/
structure Layout (ε σ α : Type) where
  schema : Schema ε σ α
  /-- The fields that may be `null` instead of missing. -/
  optional : List String
  /-- What stands in an array for a field that is missing. -/
  filler : String → Tree
  /-- How the value of a field may change. -/
  inside : String → Tree → Tree → Prop

namespace Layout

/-- What stands in an array for what an object has for a field. -/
def item (layout : Layout ε σ α) (members : List (Option String × Tree)) (field : Field ε σ) :
    Tree :=
  (layout.schema.found? (.object members true) field.name).getD (layout.filler field.name)

/-- The array of a record's fields that stands for an object. -/
def listed (layout : Layout ε σ α) (members : List (Option String × Tree)) : Tree :=
  .array (layout.schema.fields.map (layout.item members)) true

/-- One change of how a record is written. -/
inductive Step (layout : Layout ε σ α) : Tree → Tree → Prop
  | permute {members members' : List (Option String × Tree)} (h : members'.Perm members) :
      Step layout (.object members true) (.object members' true)
  /-- A member that is no field, with any value. -/
  | unknown {members : List (Option String × Tree)} {name : String} {value : Tree}
      (hname : layout.schema.field? name = none) (hvalue : ∃ text, value.Spells text) :
      Step layout (.object members true) (.object ((some name, value) :: members) true)
  | null {members : List (Option String × Tree)} {name : String} {field : Field ε σ}
      (hfield : layout.schema.field? name = some field) (hoptional : field.name ∈ layout.optional)
      (habsent : layout.schema.found? (.object members true) field.name = none) :
      Step layout (.object members true) (.object ((some name, .null) :: members) true)
  | drop {members : List (Option String × Tree)} {name : String} {field : Field ε σ}
      (hfield : layout.schema.field? name = some field) (hoptional : field.name ∈ layout.optional) :
      Step layout (.object ((some name, .null) :: members) true) (.object members true)
  /-- Another name of the same field. -/
  | rename {members : List (Option String × Tree)} {name name' : String} {value : Tree}
      {field : Field ε σ} (hfield : layout.schema.field? name = some field)
      (hfield' : layout.schema.field? name' = some field) :
      Step layout (.object ((some name, value) :: members) true)
        (.object ((some name', value) :: members) true)
  | list {members : List (Option String × Tree)} :
      Step layout (.object members true) (layout.listed members)
  /-- In an array, only what is missing at the end can be `null` instead. -/
  | nullItem {items : List Tree} {field : Field ε σ}
      (hfield : layout.schema.fields[items.length]? = some field)
      (hoptional : field.name ∈ layout.optional) :
      Step layout (.array items true) (.array (items ++ [.null]) true)
  | dropItem {items : List Tree} {field : Field ε σ}
      (hfield : layout.schema.fields[items.length]? = some field)
      (hoptional : field.name ∈ layout.optional) :
      Step layout (.array (items ++ [.null]) true) (.array items true)
  | inside {tree tree' : Tree} (h : layout.schema.Inside layout.inside tree tree') :
      Step layout tree tree'

end Layout

/-! ## What the changes leave as it is -/

namespace Schema

variable {schema : Schema ε σ α} {below : Nat} {tree tree' : Tree} {a : α}
  {members members' : List (Option String × Tree)} {name : String} {field : Field ε σ}
  {value : Tree}

theorem laid_object_iff :
    schema.Laid (.object members true) ↔
      (∀ member ∈ members, ∃ name, member.1 = some name ∧
        (schema.field? name = none → member.2.intact = true)) ∧
      (members.filterMap schema.fieldName?).Nodup :=
  ⟨fun | .object hnamed hnodup => ⟨hnamed, hnodup⟩, fun h => .object h.1 h.2⟩

theorem Laid.perm (h : schema.Laid (.object members true)) (hperm : members'.Perm members) :
    schema.Laid (.object members' true) := by
  obtain ⟨hnamed, hnodup⟩ := laid_object_iff.1 h
  exact .object (fun member hmem => hnamed member (hperm.mem_iff.1 hmem))
    ((hperm.filterMap _).nodup_iff.2 hnodup)

/-- What it takes to have one more field. -/
theorem laid_cons_iff (hfield : schema.field? name = some field) :
    schema.Laid (.object ((some name, value) :: members) true) ↔
      schema.found? (.object members true) field.name = none ∧
        schema.Laid (.object members true) := by
  have hname : schema.fieldName? (some name, value) = some field.name :=
    congrArg (Option.map Field.name) hfield
  rw [laid_object_iff, laid_object_iff, List.forall_mem_cons, List.filterMap_cons_some hname,
    List.nodup_cons, found?_eq_none_iff]
  constructor
  · rintro ⟨⟨-, hnamed⟩, hnew, hnodup⟩
    exact ⟨hnew, hnamed, hnodup⟩
  · rintro ⟨hnew, hnamed, hnodup⟩
    refine ⟨⟨⟨name, rfl, fun hnone => ?_⟩, hnamed⟩, hnew, hnodup⟩
    cases hnone.symm.trans hfield

theorem entries_cons (hfield : schema.field? name = some field) :
    schema.entries (.object ((some name, value) :: members) true) =
      (field, value) :: schema.entries (.object members true) :=
  List.filterMap_cons_some (entryOf_eq_some_iff.2 ⟨name, rfl, hfield, rfl⟩)

/-- Items are of the fields in the same places. -/
theorem entries_array_append (schema : Schema ε σ α) (items more : List Tree) :
    schema.entries (.array (items ++ more) true) =
      schema.entries (.array items true) ++ (schema.fields.drop items.length).zip more := by
  show schema.fields.zip (items ++ more) = schema.fields.zip items ++ _
  generalize schema.fields = fields
  induction items generalizing fields with
  | nil => rw [List.zip_nil_right]; rfl
  | cons item items ih =>
    cases fields with
    | nil => rfl
    | cons field fields => exact congrArg ((field, item) :: ·) (ih fields)

theorem entries_array_cons {items more : List Tree}
    (hfield : schema.fields[items.length]? = some field) (value : Tree) :
    schema.entries (.array (items ++ value :: more) true) =
      schema.entries (.array items true) ++
        (field, value) :: (schema.fields.drop (items.length + 1)).zip more := by
  obtain ⟨hlt, rfl⟩ := List.getElem?_eq_some_iff.1 hfield
  rw [entries_array_append, List.drop_eq_getElem_cons hlt]
  rfl

/-- Where the value of a field is changed, all other entries stay. -/
theorem Inside.exists_entries {change : String → Tree → Tree → Prop}
    (h : schema.Inside change tree tree') :
    ∃ before field value value' after, field ∈ schema.fields ∧ change field.name value value' ∧
      schema.entries tree = before ++ (field, value) :: after ∧
      schema.entries tree' = before ++ (field, value') :: after ∧
      (schema.Laid tree → schema.Laid tree') := by
  cases h with
  | @member before after name field value value' hfield hchange =>
    have hentries (value : Tree) :
        schema.entries (.object (before ++ (some name, value) :: after) true) =
          schema.entries (.object before true) ++ (field, value) ::
            schema.entries (.object after true) := by
      rw [← entries_cons hfield]
      exact List.filterMap_append
    refine ⟨_, field, value, value', _, List.mem_of_find?_eq_some hfield, hchange,
      hentries value, hentries value', fun hlaid => ?_⟩
    have hlaid := hlaid.perm List.perm_middle.symm
    rw [laid_cons_iff hfield] at hlaid
    exact ((laid_cons_iff hfield).2 hlaid).perm List.perm_middle
  | @item before after field value value' hfield hchange =>
    refine ⟨_, field, value, value', _, List.mem_of_getElem? hfield, hchange,
      entries_array_cons hfield value, entries_array_cons hfield value', ?_⟩
    rintro (_ | hlength)
    refine .array ?_
    rwa [List.length_append, List.length_cons] at hlength ⊢

/-- The value of a field may be changed to one that is read alike. -/
theorem Inside.read_eq_ok {change : String → Tree → Tree → Prop} (hschema : schema.Orderly)
    (hchange : ∀ field ∈ schema.fields, ∀ value value', change field.name value value' →
      ∀ update, field.read below value = .ok update → field.read below value' = .ok update)
    (hinside : schema.Inside change tree tree') (h : schema.read (below + 1) tree = .ok a) :
    schema.read (below + 1) tree' = .ok a := by
  obtain ⟨before, field, value, value', after, hmem, hvalue, hentries, hentries', hlaid'⟩ :=
    hinside.exists_entries
  obtain ⟨hlaid, hreads, hfinish⟩ := hschema.read_eq_ok_iff.1 h
  rw [hentries, List.forall_mem_append, List.forall_mem_cons] at hreads
  obtain ⟨hbefore, ⟨update, hread⟩, hafter⟩ := hreads
  have hread' := hchange field hmem value value' hvalue update hread
  refine hschema.read_eq_ok_iff.2 ⟨hlaid' hlaid, ?_, ?_⟩
  · rw [hentries', List.forall_mem_append, List.forall_mem_cons]
    exact ⟨hbefore, ⟨update, hread'⟩, hafter⟩
  · rw [hentries, collect_append, collect_cons, Field.effect_eq hread] at hfinish
    rw [hentries', collect_append, collect_cons, Field.effect_eq hread', hfinish]

/-- The value of a field may not be changed to one that is not read. -/
theorem Inside.read_ne_ok {change : String → Tree → Tree → Prop} (hschema : schema.Orderly)
    (hchange : ∀ field ∈ schema.fields, ∀ value value', change field.name value value' →
      ∀ update, field.read below value' ≠ .ok update)
    (hinside : schema.Inside change tree tree') : schema.read (below + 1) tree' ≠ .ok a := by
  intro h
  obtain ⟨before, field, value, value', after, hmem, hvalue, -, hentries', -⟩ :=
    hinside.exists_entries
  obtain ⟨-, hreads, -⟩ := hschema.read_eq_ok_iff.1 h
  rw [hentries'] at hreads
  obtain ⟨update, hread⟩ := hreads (field, value') (List.mem_append_right _ List.mem_cons_self)
  exact hchange field hmem value value' hvalue update hread

/-- **No field may come twice**, whatever its value and wherever it stands. -/
theorem Doubles.read_ne_ok (hschema : schema.Orderly) (hdoubles : schema.Doubles tree tree') :
    schema.read (below + 1) tree' ≠ .ok a := by
  intro h
  obtain ⟨hfield, hthere, hperm⟩ := hdoubles
  obtain ⟨hlaid, -⟩ := hschema.read_eq_ok_iff.1 h
  exact hthere ((laid_cons_iff hfield).1 (hlaid.perm hperm.symm)).1

end Schema

/-! ## Changes of an item -/

theorem forall₂_middle {R : Tree → α → Prop} {before after : List Tree} {item : Tree}
    {as : List α} :
    List.Forall₂ R (before ++ item :: after) as ↔ ∃ left a right, as = left ++ a :: right ∧
      List.Forall₂ R before left ∧ R item a ∧ List.Forall₂ R after right := by
  constructor
  · intro h
    induction before generalizing as with
    | nil =>
      obtain ⟨a, right, hitem, hafter, rfl⟩ := List.forall₂_cons_left_iff.1 h
      exact ⟨[], a, right, rfl, .nil, hitem, hafter⟩
    | cons first before ih =>
      obtain ⟨b, rest, hfirst, hrest, rfl⟩ := List.forall₂_cons_left_iff.1 h
      obtain ⟨left, a, right, rfl, hbefore, hitem, hafter⟩ := ih hrest
      exact ⟨b :: left, a, right, rfl, .cons hfirst hbefore, hitem, hafter⟩
  · rintro ⟨left, a, right, rfl, hbefore, hitem, hafter⟩
    exact List.rel_append hbefore (.cons hitem hafter)

namespace Tree.OneItem

variable {change : Tree → Tree → Prop} {read : Reader ε α} {below : Nat} {tree tree' : Tree}
  {as : List α}

/-- An item may be changed to one that is read alike. -/
theorem list_eq_ok (hchange : ∀ item item' a, change item item' → read below item = .ok a →
    read below item' = .ok a) (h : OneItem change tree tree')
    (hread : read.list (below + 1) tree = .ok as) : read.list (below + 1) tree' = .ok as := by
  obtain ⟨hitem⟩ := h
  obtain ⟨trees, _, heq, hbelow, hitems⟩ := Reader.list_eq_ok_iff.1 hread
  cases heq
  cases hbelow
  obtain ⟨left, a, right, rfl, hbefore, ha, hafter⟩ := forall₂_middle.1 hitems
  exact Reader.list_eq_ok_iff.2 ⟨_, below, rfl, rfl,
    forall₂_middle.2 ⟨left, a, right, rfl, hbefore, hchange _ _ a hitem ha, hafter⟩⟩

/-- An item may not be changed to one that is not read. -/
theorem list_ne_ok (hchange : ∀ item item' a, change item item' → read below item' ≠ .ok a)
    (h : OneItem change tree tree') : read.list (below + 1) tree' ≠ .ok as := by
  intro hread
  obtain ⟨hitem⟩ := h
  obtain ⟨trees, _, heq, hbelow, hitems⟩ := Reader.list_eq_ok_iff.1 hread
  cases heq
  cases hbelow
  obtain ⟨left, a, right, -, -, ha, -⟩ := forall₂_middle.1 hitems
  exact hchange _ _ a hitem ha

theorem ne_null (h : OneItem change tree tree') : tree ≠ .null ∧ tree' ≠ .null := by
  obtain ⟨-⟩ := h
  exact ⟨nofun, nofun⟩

theorem optional_list_eq_ok (hchange : ∀ item item' a, change item item' →
    read below item = .ok a → read below item' = .ok a) (h : OneItem change tree tree')
    {as : Option (List α)} (hread : read.list.optional (below + 1) tree = .ok as) :
    read.list.optional (below + 1) tree' = .ok as := by
  rcases Reader.optional_eq_ok_iff.1 hread with ⟨hnull, -⟩ | ⟨-, b, hlist, rfl⟩
  · exact absurd hnull h.ne_null.1
  · exact Reader.optional_eq_ok_iff.2 (.inr ⟨h.ne_null.2, b, h.list_eq_ok hchange hlist, rfl⟩)

theorem optional_list_ne_ok (hchange : ∀ item item' a, change item item' →
    read below item' ≠ .ok a) (h : OneItem change tree tree') {as : Option (List α)} :
    read.list.optional (below + 1) tree' ≠ .ok as := by
  intro hread
  rcases Reader.optional_eq_ok_iff.1 hread with ⟨hnull, -⟩ | ⟨-, b, hlist, -⟩
  · exact h.ne_null.2 hnull
  · exact h.list_ne_ok hchange hlist

end Tree.OneItem

/-! ## Changes of the layout -/

namespace Layout

variable {layout : Layout ε σ α} {below : Nat} {tree tree' : Tree} {a : α}
  {members : List (Option String × Tree)}

/-- What must be so of the fields of a record for its layout not to matter. -/
structure Sound (layout : Layout ε σ α) (below : Nat) : Prop where
  orderly : layout.schema.Orderly
  optional : ∀ field ∈ layout.schema.fields, field.name ∈ layout.optional →
    layout.schema.Void below (field, .null)
  filler : ∀ field ∈ layout.schema.fields, layout.schema.Requires below field ∨
    layout.schema.Void below (field, layout.filler field.name)
  inside : ∀ field ∈ layout.schema.fields, ∀ value value', layout.inside field.name value value' →
    ∀ update, field.read below value = .ok update → field.read below value' = .ok update

/-- The fields that an object does not have, with what stands in an array for them. -/
def missing (layout : Layout ε σ α) (members : List (Option String × Tree))
    (fields : List (Field ε σ)) : List (Field ε σ × Tree) :=
  (fields.filter fun field =>
    !(layout.schema.found? (.object members true) field.name).isSome).map
      fun field => (field, layout.filler field.name)

/-- A field is either there or missing. -/
theorem perm_items (layout : Layout ε σ α) (members : List (Option String × Tree))
    (fields : List (Field ε σ)) :
    (fields.map fun field => (field, layout.item members field)).Perm
      ((fields.filterMap fun field =>
          (layout.schema.found? (.object members true) field.name).map (field, ·)) ++
        layout.missing members fields) := by
  induction fields with
  | nil => exact .refl _
  | cons field fields ih =>
    rw [List.map_cons, item, missing]
    cases hfound : layout.schema.found? (.object members true) field.name with
    | some value =>
      rw [List.filterMap_cons_some (by rw [hfound, Option.map_some]),
        List.filter_cons_of_neg (by simp [hfound])]
      exact ih.cons _
    | none =>
      rw [List.filterMap_cons_none (by rw [hfound, Option.map_none]),
        List.filter_cons_of_pos (by simp [hfound])]
      exact (ih.cons _).trans List.perm_middle.symm

/-- The entries of the array that stands for an object are those of the object and the missing
ones. -/
theorem perm_entries_listed (hschema : layout.schema.Orderly)
    (hlaid : layout.schema.Laid (.object members true)) :
    (layout.schema.entries (layout.listed members)).Perm
      (layout.schema.entries (.object members true) ++
        layout.missing members layout.schema.fields) := by
  have hlisted : layout.schema.entries (layout.listed members) =
      layout.schema.fields.map fun field => (field, layout.item members field) :=
    List.map_prod_left_eq_zip.symm
  rw [hlisted]
  exact (layout.perm_items members _).trans
    ((hlaid.perm_entries hschema.nodup).symm.append_right _)

/-- What is missing from an object that is read says nothing. -/
theorem Sound.void_of_mem_missing (hsound : layout.Sound below)
    (h : layout.schema.read (below + 1) (.object members true) = .ok a) :
    ∀ entry ∈ layout.missing members layout.schema.fields, layout.schema.Void below entry := by
  obtain ⟨hlaid, -, hfinish⟩ := hsound.orderly.read_eq_ok_iff.1 h
  intro entry hmem
  obtain ⟨field, hfilter, rfl⟩ := List.mem_map.1 hmem
  obtain ⟨hfield, hnone⟩ := List.mem_filter.1 hfilter
  have hnone : field.name ∉ members.filterMap layout.schema.fieldName? :=
    Schema.found?_eq_none_iff.1 (by simpa using hnone)
  refine (hsound.filler field hfield).resolve_left fun hrequired => ?_
  refine hrequired _ (fun other hother => ?_) a hfinish
  refine ⟨Schema.fst_mem_fields_of_mem_entries hother, fun heq => hnone ?_⟩
  rw [← Schema.map_name_entries _ _ true, ← heq]
  exact List.mem_map_of_mem hother

/-- **One change of the layout makes no difference.** -/
theorem Step.read_eq_ok (hsound : layout.Sound below) (hstep : layout.Step tree tree')
    (h : layout.schema.read (below + 1) tree = .ok a) :
    layout.schema.read (below + 1) tree' = .ok a := by
  have hschema := hsound.orderly
  obtain ⟨hlaid, -⟩ := hschema.read_eq_ok_iff.1 h
  -- What is left or added as `null` says nothing.
  have hnull {field : Field ε σ} (hmem : field ∈ layout.schema.fields)
      (hoptional : field.name ∈ layout.optional) :
      ∀ entry ∈ [(field, Tree.null)], layout.schema.Void below entry :=
    List.forall_mem_singleton.2 (hsound.optional field hmem hoptional)
  cases hstep with
  | permute hperm =>
    exact (hschema.read_eq_ok_iff_of_perm_entries hlaid (hlaid.perm hperm) (hperm.filterMap _)).2 h
  | @unknown members name value hname hvalue =>
    obtain ⟨text, hintact, -⟩ := hvalue
    obtain ⟨hnamed, hnodup⟩ := Schema.laid_object_iff.1 hlaid
    have hentry : layout.schema.entryOf (some name, value) = none :=
      congrArg (Option.map _) hname
    have hfield : layout.schema.fieldName? (some name, value) = none :=
      congrArg (Option.map Field.name) hname
    refine (hschema.read_eq_ok_iff_of_perm_entries hlaid (.object ?_ ?_) ?_).2 h
    · exact List.forall_mem_cons.2 ⟨⟨name, rfl, fun _ => hintact⟩, hnamed⟩
    · rwa [List.filterMap_cons_none hfield]
    · rw [Schema.entries, Schema.entries, List.filterMap_cons_none hentry]
  | null hfield hoptional habsent =>
    refine (hschema.read_eq_ok_iff_of_perm hlaid ((Schema.laid_cons_iff hfield).2 ⟨habsent, hlaid⟩)
      ?_ (hnull (List.mem_of_find?_eq_some hfield) hoptional)).2 h
    rw [Schema.entries_cons hfield]
    exact (List.perm_append_singleton _ _).symm
  | drop hfield hoptional =>
    refine (hschema.read_eq_ok_iff_of_perm ((Schema.laid_cons_iff hfield).1 hlaid).2 hlaid ?_
      (hnull (List.mem_of_find?_eq_some hfield) hoptional)).1 h
    rw [Schema.entries_cons hfield]
    exact (List.perm_append_singleton _ _).symm
  | rename hfield hfield' =>
    rw [Schema.laid_cons_iff hfield] at hlaid
    refine (hschema.read_eq_ok_iff_of_perm_entries ((Schema.laid_cons_iff hfield).2 hlaid)
      ((Schema.laid_cons_iff hfield').2 hlaid) ?_).2 h
    rw [Schema.entries_cons hfield, Schema.entries_cons hfield']
  | list =>
    refine (hschema.read_eq_ok_iff_of_perm hlaid (.array ?_) (perm_entries_listed hschema hlaid)
      (hsound.void_of_mem_missing h)).2 h
    rw [List.length_map]
  | nullItem hfield hoptional =>
    obtain ⟨hlt, -⟩ := List.getElem?_eq_some_iff.1 hfield
    refine (hschema.read_eq_ok_iff_of_perm hlaid (.array ?_) ?_
      (hnull (List.mem_of_getElem? hfield) hoptional)).2 h
    · rwa [List.length_append]
    · rw [Schema.entries_array_cons hfield, List.zip_nil_right]
  | dropItem hfield hoptional =>
    obtain ⟨hlt, -⟩ := List.getElem?_eq_some_iff.1 hfield
    refine (hschema.read_eq_ok_iff_of_perm (.array (Nat.le_of_lt hlt)) hlaid ?_
      (hnull (List.mem_of_getElem? hfield) hoptional)).1 h
    rw [Schema.entries_array_cons hfield, List.zip_nil_right]
  | inside hinside => exact hinside.read_eq_ok hschema hsound.inside h

/-- **No run of changes of the layout makes a difference.** -/
theorem read_eq_ok_of_steps (hsound : layout.Sound below)
    (hsteps : Relation.ReflTransGen layout.Step tree tree')
    (h : layout.schema.read (below + 1) tree = .ok a) :
    layout.schema.read (below + 1) tree' = .ok a := by
  induction hsteps with
  | refl => exact h
  | tail _ hstep ih => exact hstep.read_eq_ok hsound ih

end Layout

/-! ## Texts of the changed trees -/

theorem Schema.Inside.spellable {schema : Schema ε σ α} {change : String → Tree → Tree → Prop}
    (hchange : ∀ name value value', change name value value' → value.Spellable → value'.Spellable)
    {tree tree' : Tree} (hinside : schema.Inside change tree tree') (h : tree.Spellable) :
    tree'.Spellable := by
  cases hinside with
  | member _ hvalue =>
    rw [Tree.spellable_object_iff, List.forall_mem_append, List.forall_mem_cons] at h ⊢
    exact ⟨h.1, ⟨h.2.1.1, hchange _ _ _ hvalue h.2.1.2⟩, h.2.2⟩
  | item _ hvalue =>
    rw [Tree.spellable_array_iff, List.forall_mem_append, List.forall_mem_cons] at h ⊢
    exact ⟨h.1, hchange _ _ _ hvalue h.2.1, h.2.2⟩

theorem Tree.OneItem.spellable {change : Tree → Tree → Prop}
    (hchange : ∀ item item', change item item' → item.Spellable → item'.Spellable)
    {tree tree' : Tree} (hitem : OneItem change tree tree') (h : tree.Spellable) :
    tree'.Spellable := by
  obtain ⟨hitem⟩ := hitem
  rw [Tree.spellable_array_iff, List.forall_mem_append, List.forall_mem_cons] at h ⊢
  exact ⟨h.1, hchange _ _ hitem h.2.1, h.2.2⟩

namespace Layout

variable {layout : Layout ε σ α} {tree tree' : Tree}
  (hfiller : ∀ name, (layout.filler name).Spellable)
  (hinside : ∀ name value value', layout.inside name value value' → value.Spellable →
    value'.Spellable)
include hfiller hinside

/-- Where there is a text before a change of the layout, there is one behind it. -/
theorem Step.spellable (hstep : layout.Step tree tree') (h : tree.Spellable) : tree'.Spellable := by
  cases hstep with
  | permute hperm =>
    rw [Tree.spellable_object_iff] at h ⊢
    exact fun member hmem => h member (hperm.mem_iff.1 hmem)
  | unknown _ hvalue =>
    obtain ⟨text, hvalue⟩ := hvalue
    rw [Tree.spellable_object_iff] at h
    exact Tree.spellable_object_iff.2
      (List.forall_mem_cons.2 ⟨⟨Token.spellable_string _, hvalue.spellable⟩, h⟩)
  | null =>
    rw [Tree.spellable_object_iff] at h
    exact Tree.spellable_object_iff.2
      (List.forall_mem_cons.2 ⟨⟨Token.spellable_string _, Tree.spellable_null⟩, h⟩)
  | drop =>
    rw [Tree.spellable_object_iff] at h
    exact Tree.spellable_object_iff.2 (List.forall_mem_cons.1 h).2
  | rename =>
    rw [Tree.spellable_object_iff, List.forall_mem_cons] at h
    exact Tree.spellable_object_iff.2
      (List.forall_mem_cons.2 ⟨⟨Token.spellable_string _, h.1.2⟩, h.2⟩)
  | @list members =>
    rw [Tree.spellable_object_iff] at h
    refine Tree.spellable_array_iff.2 (List.forall_mem_map.2 fun field _ => ?_)
    rw [item]
    cases hfound : layout.schema.found? (.object members true) field.name with
    | none => exact hfiller field.name
    | some value =>
      obtain ⟨member, hmember, rfl⟩ := Option.map_eq_some_iff.1 hfound
      exact (h member (List.mem_of_find?_eq_some hmember)).2
  | nullItem =>
    rw [Tree.spellable_array_iff] at h
    exact Tree.spellable_array_iff.2
      (List.forall_mem_append.2 ⟨h, List.forall_mem_singleton.2 Tree.spellable_null⟩)
  | dropItem =>
    rw [Tree.spellable_array_iff, List.forall_mem_append] at h
    exact Tree.spellable_array_iff.2 h.1
  | inside hchange => exact hchange.spellable hinside h

theorem spellable_of_steps (hsteps : Relation.ReflTransGen layout.Step tree tree')
    (h : tree.Spellable) : tree'.Spellable := by
  induction hsteps with
  | refl => exact h
  | tail _ hstep ih => exact hstep.spellable hfiller hinside ih

end Layout

end SealedEnvelope.Json
