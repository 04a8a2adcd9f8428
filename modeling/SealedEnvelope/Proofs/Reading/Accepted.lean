import SealedEnvelope.Proofs.Json.Trees
import SealedEnvelope.Proofs.Reading.Entries

/-!
# What is read follows the grammar

A reader may give up before the end of a text, but when it gives a value it has gone through all of
it: nothing is missing from the tree (`Reader.Careful`).  So the text that it was given has a tree,
and the reader was given that tree (`Reader.whole_eq_ok_iff_spells`).
-/

namespace SealedEnvelope.Json

variable {ε σ α β : Type}

/-! ## Trees with a value -/

namespace Tree

mutual

/-- Nothing is missing from a tree that has a value. -/
theorem intact_of_value? : ∀ (tree : Tree) {depth : Nat} {value : Json},
    tree.value? depth = some value → tree.intact = true
  | .broken, _, _, h => by rw [value?] at h; cases h
  | .null, _, _, _ | .bool _, _, _, _ | .number _, _, _, _ | .string _, _, _, _ => rfl
  | .array items closed, 0, _, h => by rw [value?] at h; cases h
  | .array items closed, depth + 1, _, h => by
    rw [value?] at h
    split at h
    · next hclosed =>
      obtain ⟨values, hvalues, -⟩ := Option.map_eq_some_iff.1 h
      rw [intact, intact_of_itemValues? items hvalues, hclosed]
      rfl
    · cases h
  | .object members closed, 0, _, h => by rw [value?] at h; cases h
  | .object members closed, depth + 1, _, h => by
    rw [value?] at h
    split at h
    · next hclosed =>
      obtain ⟨entries, hentries, -⟩ := Option.map_eq_some_iff.1 h
      rw [intact, intact_of_memberValues? members hentries, hclosed]
      rfl
    · cases h

theorem intact_of_itemValues? : ∀ (items : List Tree) {depth : Nat} {values : List Json},
    itemValues? depth items = some values → intactItems items = true
  | [], _, _, _ => by rw [intactItems]
  | item :: items, _, _, h => by
    rw [itemValues?] at h
    obtain ⟨value, hvalue, h⟩ := Option.bind_eq_some_iff.1 h
    obtain ⟨values, hvalues, -⟩ := Option.bind_eq_some_iff.1 h
    rw [intactItems, intact_of_value? item hvalue, intact_of_itemValues? items hvalues]
    rfl

theorem intact_of_memberValues? : ∀ (members : List (Option String × Tree)) {depth : Nat}
    {entries : List (String × Json)}, memberValues? depth members = some entries →
    intactMembers members = true
  | [], _, _, _ => by rw [intactMembers]
  | (_, item) :: members, _, _, h => by
    rw [memberValues?] at h
    obtain ⟨_, -, h⟩ := Option.bind_eq_some_iff.1 h
    obtain ⟨value, hvalue, h⟩ := Option.bind_eq_some_iff.1 h
    obtain ⟨entries, hentries, -⟩ := Option.bind_eq_some_iff.1 h
    rw [intactMembers, intact_of_value? item hvalue, intact_of_memberValues? members hentries]
    rfl

end

end Tree

/-! ## Readers -/

/-- What is read is a tree from which nothing is missing. -/
def Reader.Careful (read : Reader ε α) : Prop :=
  ∀ depth tree a, read depth tree = .ok a → tree.intact = true

/-- What is read for the field is a tree from which nothing is missing. -/
def Field.Careful (field : Field ε σ) : Prop := Reader.Careful field.read

namespace Reader

theorem careful_value : (Reader.value : Reader ε Json).Careful := by
  intro depth tree value h
  unfold Reader.value at h
  split at h
  · next hvalue => exact tree.intact_of_value? hvalue
  · cases h

theorem careful_text : (Reader.text : Reader ε String).Careful := by
  intro depth tree text h
  obtain rfl := text_eq_ok_iff.1 h
  rfl

theorem careful_textThen (convert : String → Except ε α) : (textThen convert).Careful := by
  intro depth tree a h
  obtain ⟨text, rfl, -⟩ := textThen_eq_ok_iff.1 h
  rfl

variable {read : Reader ε α}

theorem Careful.optional (h : read.Careful) : read.optional.Careful := by
  intro depth tree a hread
  rcases optional_eq_ok_iff.1 hread with ⟨rfl, -⟩ | ⟨-, b, hread, -⟩
  · rfl
  · exact h depth tree b hread

theorem Careful.list (h : read.Careful) : read.list.Careful := by
  intro depth tree as hread
  obtain ⟨trees, below, rfl, -, hitems⟩ := list_eq_ok_iff.1 hread
  refine Tree.intact_array_iff.2 ?_
  clear hread
  induction hitems with
  | nil => exact nofun
  | cons hitem _ ih => exact List.forall_mem_cons.2 ⟨h below _ _ hitem, ih⟩

theorem Careful.field (h : read.Careful) {name : String} {aliases : List String}
    {store : α → σ → σ} :
    (Field.mk name aliases fun depth tree => (read depth tree).map store).Careful := by
  intro depth tree update hread
  obtain ⟨a, ha, -⟩ := map_eq_ok_iff.1 hread
  exact h depth tree a ha

/-- **What is read of a whole text follows the grammar**, and is read of the text's tree. -/
theorem whole_eq_ok_iff_spells (h : read.Careful) {text : Bytes} {a : α} :
    read.whole text = .ok a ↔ ∃ tree : Tree, tree.Spells text ∧ read maxDepth tree = .ok a := by
  rw [whole_eq_ok_iff]
  constructor
  · rintro ⟨hread, hrest⟩
    refine ⟨_, Tree.spells_iff.2 ⟨h _ _ _ hread, ?_⟩, hread⟩
    exact Prod.ext rfl (List.isEmpty_iff.1 hrest)
  · rintro ⟨tree, hspells, hread⟩
    rw [(Tree.spells_iff.1 hspells).2]
    exact ⟨hread, rfl⟩

end Reader

/-- A record is read with care if its fields are. -/
theorem Schema.careful_read {schema : Schema ε σ α} (h : ∀ field ∈ schema.fields, field.Careful) :
    schema.read.Careful := by
  intro depth tree a hread
  obtain ⟨below, record, -, hcollected, -⟩ := read_eq_ok_iff.1 hread
  cases hcollected with
  | members hmembers =>
    obtain ⟨hall, -⟩ := exists_readMembers_iff.1 ⟨record, hmembers⟩
    refine Tree.intact_object_iff.2 fun member hmem => ?_
    obtain ⟨name, update, -, hupdate⟩ := hall member hmem
    rw [Schema.update] at hupdate
    split at hupdate
    · next field hfield =>
      exact h field (List.mem_of_find?_eq_some hfield) below member.2 update hupdate
    · rw [other] at hupdate
      split at hupdate
      · obtain ⟨value, hvalue, -⟩ := map_eq_ok_iff.1 hupdate
        exact Reader.careful_value below member.2 value hvalue
      · split at hupdate
        · assumption
        · cases hupdate
  | items _ hitems =>
    obtain ⟨hlength, hreads, -⟩ := readItems_eq_ok_iff.1 hitems
    refine Tree.intact_array_iff.2 fun item hmem => ?_
    rw [← List.map_snd_zip hlength] at hmem
    obtain ⟨⟨field, _⟩, hentry, rfl⟩ := List.mem_map.1 hmem
    obtain ⟨update, hupdate⟩ := hreads _ hentry
    exact h field (List.of_mem_zip hentry).1 below _ update hupdate

end SealedEnvelope.Json

/-- A header is read with care. -/
theorem SealedEnvelope.Header.careful_reader {ε : Type} :
    Json.Reader.Careful (reader : Json.Reader ε SealedEnvelope.Header) := fun _ tree _ h =>
  tree.intact_of_value? (reader_eq_ok_iff.1 h)
