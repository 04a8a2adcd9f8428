import SealedEnvelope.Json.Record
import SealedEnvelope.Proofs.Json.Rendering

/-!
# Reading records back

A record is read member by member, and each member changes what was collected so far.
`Schema.Collects` says by how much a run of members changes it, whatever was collected
before and whatever follows, as long as none of its fields was there already.  Runs are
put together with `Collects.append`, so that the members of a record are looked at one by
one, and optional members need no case distinction over all of them.
-/

namespace SealedEnvelope.Json

/-! ## Members put together -/

theorem membersIntegral_append {left right : List (String × Json)} :
    MembersIntegral (left ++ right) ↔ MembersIntegral left ∧ MembersIntegral right := by
  induction left with
  | nil => exact ⟨fun h => ⟨trivial, h⟩, fun h => h.2⟩
  | cons member left ih =>
    obtain ⟨name, value⟩ := member
    rw [List.cons_append, MembersIntegral, MembersIntegral, ih, and_assoc]

theorem membersDistinct_append {left right : List (String × Json)} :
    MembersDistinct (left ++ right) ↔ MembersDistinct left ∧ MembersDistinct right := by
  induction left with
  | nil => exact ⟨fun h => ⟨trivial, h⟩, fun h => h.2⟩
  | cons member left ih =>
    obtain ⟨name, value⟩ := member
    rw [List.cons_append, MembersDistinct, MembersDistinct, ih, and_assoc]

theorem membersDepth_append (left right : List (String × Json)) :
    membersDepth (left ++ right) = max (membersDepth left) (membersDepth right) := by
  induction left with
  | nil => exact (Nat.zero_max _).symm
  | cons member left ih =>
    obtain ⟨name, value⟩ := member
    rw [List.cons_append, membersDepth, membersDepth, ih, Nat.max_assoc]

namespace Tree

theorem ofMembers_append (left right : List (String × Json)) :
    ofMembers (left ++ right) = ofMembers left ++ ofMembers right := by
  induction left with
  | nil => rfl
  | cons member left ih =>
    obtain ⟨name, value⟩ := member
    rw [List.cons_append, ofMembers, ofMembers, ih, List.cons_append]

theorem ofMembers_option {β : Type} (value : Option β) (member : β → String × Json) :
    ofMembers (value.map member).toList = value.elim [] fun b => ofMembers [member b] := by
  cases value <;> rfl

end Tree

/-! ## Members one after the other -/

namespace Schema

variable {ε σ α : Type} {schema : Schema ε σ α} {depth : Nat}

/-- The members change what was collected by `update`, and are the fields of the given
names. -/
def Collects (schema : Schema ε σ α) (depth : Nat) (members : List (Option String × Tree))
    (names : List String) (update : σ → σ) : Prop :=
  ∀ (seen : List String) (record : σ) (rest : List (Option String × Tree)),
    (∀ name ∈ names, name ∉ seen) →
      ∃ seen', (∀ name ∈ seen', name ∈ seen ∨ name ∈ names) ∧
        schema.readMembers depth seen record (members ++ rest) =
          schema.readMembers depth seen' (update record) rest

namespace Collects

theorem nil (names : List String) : schema.Collects depth [] names id :=
  fun seen _ _ _ => ⟨seen, fun _ h => .inl h, rfl⟩

theorem mono {members : List (Option String × Tree)} {names names' : List String}
    {update : σ → σ} (h : schema.Collects depth members names update)
    (hnames : ∀ name ∈ names, name ∈ names') : schema.Collects depth members names' update := by
  intro seen record rest hseen
  obtain ⟨seen', hseen', heq⟩ := h seen record rest fun name hmem => hseen name (hnames name hmem)
  exact ⟨seen', fun name hmem => (hseen' name hmem).imp_right (hnames name), heq⟩

/-- Members of different fields one after the other. -/
theorem append {left right : List (Option String × Tree)} {names names' : List String}
    {update update' : σ → σ} (hleft : schema.Collects depth left names update)
    (hright : schema.Collects depth right names' update')
    (hnames : ∀ name ∈ names', name ∉ names) :
    schema.Collects depth (left ++ right) (names ++ names') (update' ∘ update) := by
  intro seen record rest hseen
  obtain ⟨seen₁, hseen₁, heq₁⟩ := hleft seen record (right ++ rest)
    fun name h => hseen name (List.mem_append_left _ h)
  obtain ⟨seen₂, hseen₂, heq₂⟩ := hright seen₁ (update record) rest fun name h hmem => by
    rcases hseen₁ name hmem with hmem | hmem
    · exact hseen name (List.mem_append_right _ h) hmem
    · exact hnames name h hmem
  refine ⟨seen₂, fun name h => ?_, by rw [List.append_assoc, heq₁, heq₂, Function.comp_apply]⟩
  rw [List.mem_append]
  rcases hseen₂ name h with h | h
  · exact (hseen₁ name h).imp_right .inl
  · exact .inr (.inr h)

/-- The member of a field. -/
theorem field {name : String} {field : Field ε σ} {value : Tree} {update : σ → σ}
    (hfield : schema.field? name = some field) (hread : field.read depth value = .ok update) :
    schema.Collects depth [(some name, value)] [field.name] update := by
  intro seen record rest hseen
  have hnew : ¬seen.contains field.name = true := fun h =>
    hseen _ (List.mem_singleton_self _) (List.contains_iff_mem.1 h)
  refine ⟨field.name :: seen, fun other h => ?_, ?_⟩
  · rw [List.mem_singleton]
    exact (List.mem_cons.1 h).symm
  · rw [List.singleton_append, readMembers, hfield]
    dsimp only
    rw [if_neg hnew, hread]
    rfl

/-- A member that is no field. -/
theorem other {name : String} {value : Tree} {update : σ → σ}
    (hfield : schema.field? name = none) (hother : schema.other depth name value = .ok update) :
    schema.Collects depth [(some name, value)] [] update := by
  intro seen record rest _
  refine ⟨seen, fun _ h => .inl h, ?_⟩
  rw [List.singleton_append, readMembers, hfield]
  dsimp only
  rw [hother]
  rfl

/-- Members that may be absent, in which case nothing changes. -/
theorem option {β : Type} (value : Option β) {members : β → List (Option String × Tree)}
    {names : List String} {update : β → σ → σ}
    (h : ∀ b ∈ value, schema.Collects depth (members b) names (update b)) :
    schema.Collects depth (value.elim [] members) names (value.elim id update) := by
  cases value with
  | none => exact nil names
  | some b => exact h b rfl

/-- The member of a field, for a value that is read. -/
theorem member {β : Type} (name : String) {value : Json} {b : β} {read : Reader ε β}
    {store : β → σ → σ} (hfield : schema.field? name = some (.of name read store))
    (hread : read depth (.ofJson value) = .ok b) :
    schema.Collects depth (Tree.ofMembers [(name, value)]) [name] (store b) := by
  refine Collects.field hfield ?_
  show (read depth (.ofJson value)).map store = _
  rw [hread]
  rfl

/-- A member that is written only if there is a value for it. -/
theorem optionMember {β γ : Type} (name : String) {value : Option γ} {toJson : γ → Json}
    {result : γ → β} {read : Reader ε β} {store : β → σ → σ}
    (hfield : schema.field? name = some (.of name read store))
    (hread : ∀ c ∈ value, read depth (.ofJson (toJson c)) = .ok (result c)) :
    schema.Collects depth (Tree.ofMembers (value.map fun c => (name, toJson c)).toList) [name]
      (value.elim id fun c => store (result c)) := by
  rw [Tree.ofMembers_option]
  exact option value fun c hc => member name hfield (hread c hc)

/-- What members make of a record is what is read from an object of these members. -/
theorem read {members : List (Option String × Tree)} {names : List String} {update : σ → σ}
    {a : α} (h : schema.Collects depth members names update)
    (hfinish : schema.finish (update schema.blank) = .ok a) :
    schema.read (depth + 1) (.object members true) = .ok a := by
  obtain ⟨seen, -, heq⟩ := h [] schema.blank [] fun _ _ => List.not_mem_nil
  rw [List.append_nil] at heq
  rw [Schema.read, heq, readMembers]
  simp only [bind, Except.bind, ↓reduceIte, hfinish]

end Collects

end Schema

/-! ## Values -/

namespace Reader

variable {ε α : Type} {depth : Nat}

theorem text_string (text : String) :
    (Reader.text : Reader ε String) depth (.ofJson (.string text)) = .ok text := rfl

theorem textThen_string {convert : String → Except ε α} {text : String} {a : α}
    (h : convert text = .ok a) : textThen convert depth (.ofJson (.string text)) = .ok a := by
  rw [textThen, text_string]
  simp only [bind, Except.bind, h]

theorem optional_ofJson {read : Reader ε α} {value : Json} {a : α}
    (h : read depth (.ofJson value) = .ok a) (hnull : value ≠ .null) :
    read.optional depth (.ofJson value) = .ok (some a) := by
  have hmap : (read depth (.ofJson value)).map some = .ok (some a) := by
    rw [h]
    rfl
  cases value with
  | null => exact absurd rfl hnull
  | _ => exact hmap

/-- An array of values that are read back is read back. -/
theorem list_map {read : Reader ε α} {toJson : α → Json} {items : List α}
    (h : ∀ a ∈ items, read depth (.ofJson (toJson a)) = .ok a) :
    read.list (depth + 1) (.ofJson (.array (items.map toJson))) = .ok items := by
  have hitems : Reader.items (read depth) (Tree.ofItems (items.map toJson)) = .ok items := by
    induction items with
    | nil => rfl
    | cons a items ih =>
      rw [List.map_cons, Tree.ofItems, Reader.items, h a List.mem_cons_self,
        ih fun b hb => h b (List.mem_cons_of_mem _ hb)]
      rfl
  rw [Tree.ofJson, Reader.list, hitems]
  rfl

end Reader

theorem itemsIntegral_map {α : Type} {toJson : α → Json} {items : List α}
    (h : ∀ a ∈ items, (toJson a).Integral) : ItemsIntegral (items.map toJson) := by
  induction items with
  | nil => exact trivial
  | cons a items ih =>
    exact ⟨h a List.mem_cons_self, ih fun b hb => h b (List.mem_cons_of_mem _ hb)⟩

end SealedEnvelope.Json
