import Mathlib.Data.List.Forall2
import SealedEnvelope.Envelope.Header
import SealedEnvelope.Proofs.Json.Rendering
import SealedEnvelope.Proofs.Opening.Steps

/-!
# What readers accept

A reader that gives a value says something about the tree that it was given.  For the small
readers, out of which all others are made, this is said here as an equivalence each.

A value that was read has distinct names in each of its objects and nests no deeper than it
may (`Tree.value?_sound`): a name that is repeated in the text replaces the value that was
there, and keeps its place.
-/

namespace SealedEnvelope.Json

/-! ## Values -/

mutual

/-- Whether all numbers of a value are integers. -/
def decidableIntegral : (value : Json) → Decidable value.Integral
  | .null | .bool _ | .string _ | .number (.integer _) => .isTrue trivial
  | .number (.double _) => .isFalse id
  | .array items => decidableItemsIntegral items
  | .object members => decidableMembersIntegral members

/-- Whether all numbers of values are integers. -/
def decidableItemsIntegral : (items : List Json) → Decidable (ItemsIntegral items)
  | [] => .isTrue trivial
  | item :: rest =>
    @instDecidableAnd _ _ (decidableIntegral item) (decidableItemsIntegral rest)

/-- Whether all numbers of members are integers. -/
def decidableMembersIntegral : (members : List (String × Json)) →
    Decidable (MembersIntegral members)
  | [] => .isTrue trivial
  | (_, value) :: rest =>
    @instDecidableAnd _ _ (decidableIntegral value) (decidableMembersIntegral rest)

end

instance : DecidablePred Integral := decidableIntegral

theorem membersDistinct_iff {members : Members} :
    MembersDistinct members ↔ ∀ member ∈ members, member.2.Distinct := by
  induction members with
  | nil => exact ⟨fun _ => nofun, fun _ => trivial⟩
  | cons member members ih =>
    obtain ⟨name, value⟩ := member
    rw [MembersDistinct, ih, List.forall_mem_cons]

theorem membersDepth_le_iff {members : Members} {depth : Nat} :
    membersDepth members ≤ depth ↔ ∀ member ∈ members, member.2.depth ≤ depth := by
  induction members with
  | nil => exact ⟨fun _ => nofun, fun _ => Nat.zero_le depth⟩
  | cons member members ih =>
    obtain ⟨name, value⟩ := member
    rw [membersDepth, Nat.max_le, ih, List.forall_mem_cons]

namespace Members

theorem mem_insert {members : Members} {name : String} {value : Json} {member : String × Json}
    (h : member ∈ members.insert name value) : member = (name, value) ∨ member ∈ members := by
  induction members with
  | nil => exact .inl (List.mem_singleton.1 h)
  | cons head rest ih =>
    obtain ⟨other, old⟩ := head
    rw [insert] at h
    split at h
    · exact (List.mem_cons.1 h).imp_right (List.mem_cons_of_mem _)
    · rcases List.mem_cons.1 h with rfl | h
      · exact .inr List.mem_cons_self
      · exact (ih h).imp_right (List.mem_cons_of_mem _)

/-- Adding a member adds its name, if it is not there. -/
theorem nodup_insert {members : Members} (h : (members.map Prod.fst).Nodup) (name : String)
    (value : Json) : ((members.insert name value).map Prod.fst).Nodup := by
  induction members with
  | nil => exact List.pairwise_singleton _ _
  | cons head rest ih =>
    obtain ⟨other, old⟩ := head
    obtain ⟨hnew, hrest⟩ := List.nodup_cons.1 h
    rw [insert]
    split
    · next heq =>
      subst heq
      exact List.nodup_cons.2 ⟨hnew, hrest⟩
    · next hne =>
      refine List.nodup_cons.2 ⟨fun hmem => ?_, ih hrest⟩
      obtain ⟨member, hmember, heq⟩ := List.mem_map.1 hmem
      rcases mem_insert hmember with rfl | hmember
      · exact hne heq.symm
      · exact hnew (List.mem_map.2 ⟨member, hmember, heq⟩)

/-- The members of a list have distinct names and are all from it. -/
theorem ofList_spec (entries : List (String × Json)) :
    ((ofList entries).map Prod.fst).Nodup ∧ ∀ member ∈ ofList entries, member ∈ entries := by
  -- The induction is on the entries that are left, over any members that are there already.
  have hfold : ∀ (entries : List (String × Json)) (members : Members),
      (members.map Prod.fst).Nodup →
      ((entries.foldl (fun members entry => members.insert entry.1 entry.2) members).map
        Prod.fst).Nodup ∧
      ∀ member ∈ entries.foldl (fun members entry => members.insert entry.1 entry.2) members,
        member ∈ members ∨ member ∈ entries := by
    intro entries
    induction entries with
    | nil => exact fun members h => ⟨h, fun _ => .inl⟩
    | cons entry entries ih =>
      intro members h
      obtain ⟨hnodup, hmem⟩ := ih _ (nodup_insert h entry.1 entry.2)
      refine ⟨hnodup, fun member hmember => ?_⟩
      rw [List.mem_cons]
      rcases hmem member hmember with hmember | hmember
      · rcases mem_insert hmember with rfl | hmember
        · exact .inr (.inl rfl)
        · exact .inl hmember
      · exact .inr (.inr hmember)
  obtain ⟨hnodup, hmem⟩ := hfold entries [] List.nodup_nil
  exact ⟨hnodup, fun member h => (hmem member h).resolve_left List.not_mem_nil⟩

theorem find?_eq_some_iff {members : Members} (h : (members.map Prod.fst).Nodup) {name : String}
    {value : Json} : members.find? name = some value ↔ (name, value) ∈ members := by
  induction members with
  | nil => exact ⟨nofun, nofun⟩
  | cons head rest ih =>
    obtain ⟨other, old⟩ := head
    obtain ⟨hnew, hrest⟩ := List.nodup_cons.1 h
    by_cases heq : name = other
    · subst heq
      have hhead : find? ((name, old) :: rest) name = some old := by
        rw [find?, List.lookup_cons_self]
      rw [hhead, Option.some.injEq, List.mem_cons]
      constructor
      · rintro rfl
        exact .inl rfl
      · rintro (heq | hmem)
        · exact (Prod.mk.inj heq).2.symm
        · exact absurd (List.mem_map.2 ⟨_, hmem, rfl⟩) hnew
    · have hhead : find? ((other, old) :: rest) name = find? rest name := by
        rw [find?, List.lookup_cons, beq_false_of_ne heq, find?]
      rw [hhead, ih hrest, List.mem_cons, or_iff_right fun h => heq (Prod.mk.inj h).1]

end Members

namespace Tree

mutual

/-- The value of a tree has distinct names and nests no deeper than it may. -/
theorem value?_sound : ∀ (tree : Tree) {depth : Nat} {value : Json},
    tree.value? depth = some value → value.Distinct ∧ value.depth ≤ depth
  | .broken, _, _, h => by rw [value?] at h; cases h
  | .null, _, _, h => by
    rw [value?] at h
    cases h
    exact ⟨trivial, Nat.zero_le _⟩
  | .bool _, _, _, h => by
    rw [value?] at h
    cases h
    exact ⟨trivial, Nat.zero_le _⟩
  | .number n, _, _, h => by
    rw [value?] at h
    obtain ⟨number, -, rfl⟩ := Option.map_eq_some_iff.1 h
    exact ⟨trivial, Nat.zero_le _⟩
  | .string text, _, _, h => by
    rw [value?] at h
    obtain ⟨characters, -, rfl⟩ := Option.map_eq_some_iff.1 h
    exact ⟨trivial, Nat.zero_le _⟩
  | .array items closed, 0, _, h => by rw [value?] at h; cases h
  | .array items closed, depth + 1, _, h => by
    rw [value?] at h
    split at h
    · obtain ⟨values, hvalues, rfl⟩ := Option.map_eq_some_iff.1 h
      obtain ⟨hdistinct, hdepth⟩ := itemValues?_sound items hvalues
      exact ⟨hdistinct, Nat.succ_le_succ hdepth⟩
    · cases h
  | .object members closed, 0, _, h => by rw [value?] at h; cases h
  | .object members closed, depth + 1, _, h => by
    rw [value?] at h
    split at h
    · obtain ⟨entries, hentries, rfl⟩ := Option.map_eq_some_iff.1 h
      have hsound := memberValues?_sound members hentries
      obtain ⟨hnodup, hmem⟩ := Members.ofList_spec entries
      refine ⟨⟨hnodup, membersDistinct_iff.2 fun member h => (hsound member (hmem member h)).1⟩,
        Nat.succ_le_succ (membersDepth_le_iff.2 fun member h => (hsound member (hmem member h)).2)⟩
    · cases h

theorem itemValues?_sound : ∀ (items : List Tree) {depth : Nat} {values : List Json},
    itemValues? depth items = some values → ItemsDistinct values ∧ itemsDepth values ≤ depth
  | [], _, _, h => by
    rw [itemValues?] at h
    cases h
    exact ⟨trivial, Nat.zero_le _⟩
  | item :: items, _, _, h => by
    rw [itemValues?] at h
    obtain ⟨value, hvalue, h⟩ := Option.bind_eq_some_iff.1 h
    obtain ⟨values, hvalues, h⟩ := Option.bind_eq_some_iff.1 h
    cases h
    obtain ⟨hdistinct, hdepth⟩ := value?_sound item hvalue
    obtain ⟨hdistinct', hdepth'⟩ := itemValues?_sound items hvalues
    exact ⟨⟨hdistinct, hdistinct'⟩, Nat.max_le.2 ⟨hdepth, hdepth'⟩⟩

theorem memberValues?_sound : ∀ (members : List (Option String × Tree)) {depth : Nat}
    {entries : List (String × Json)}, memberValues? depth members = some entries →
    ∀ entry ∈ entries, entry.2.Distinct ∧ entry.2.depth ≤ depth
  | [], _, _, h => by
    rw [memberValues?] at h
    cases h
    exact nofun
  | (name, item) :: members, _, _, h => by
    rw [memberValues?] at h
    obtain ⟨text, -, h⟩ := Option.bind_eq_some_iff.1 h
    obtain ⟨value, hvalue, h⟩ := Option.bind_eq_some_iff.1 h
    obtain ⟨entries, hentries, h⟩ := Option.bind_eq_some_iff.1 h
    cases h
    exact List.forall_mem_cons.2 ⟨value?_sound item hvalue, memberValues?_sound members hentries⟩

end

mutual

/-- With more room, a tree has the same value. -/
theorem value?_mono : ∀ (tree : Tree) {depth depth' : Nat} {value : Json},
    tree.value? depth = some value → depth ≤ depth' → tree.value? depth' = some value
  | .broken, _, _, _, h, _ | .null, _, _, _, h, _ | .bool _, _, _, _, h, _
  | .number _, _, _, _, h, _ | .string _, _, _, _, h, _ => by
    rw [value?] at h ⊢
    exact h
  | .array items closed, 0, _, _, h, _ => by rw [value?] at h; cases h
  | .array items closed, depth + 1, 0, _, _, hle => absurd hle (Nat.not_succ_le_zero depth)
  | .array items closed, depth + 1, depth' + 1, _, h, hle => by
    rw [value?] at h ⊢
    split at h
    · next hclosed =>
      obtain ⟨values, hvalues, rfl⟩ := Option.map_eq_some_iff.1 h
      rw [if_pos hclosed, itemValues?_mono items hvalues (Nat.le_of_succ_le_succ hle)]
      rfl
    · cases h
  | .object members closed, 0, _, _, h, _ => by rw [value?] at h; cases h
  | .object members closed, depth + 1, 0, _, _, hle => absurd hle (Nat.not_succ_le_zero depth)
  | .object members closed, depth + 1, depth' + 1, _, h, hle => by
    rw [value?] at h ⊢
    split at h
    · next hclosed =>
      obtain ⟨entries, hentries, rfl⟩ := Option.map_eq_some_iff.1 h
      rw [if_pos hclosed, memberValues?_mono members hentries (Nat.le_of_succ_le_succ hle)]
      rfl
    · cases h

theorem itemValues?_mono : ∀ (items : List Tree) {depth depth' : Nat} {values : List Json},
    itemValues? depth items = some values → depth ≤ depth' →
    itemValues? depth' items = some values
  | [], _, _, _, h, _ => by
    rw [itemValues?] at h ⊢
    exact h
  | item :: items, _, _, _, h, hle => by
    rw [itemValues?] at h
    obtain ⟨value, hvalue, h⟩ := Option.bind_eq_some_iff.1 h
    obtain ⟨values, hvalues, h⟩ := Option.bind_eq_some_iff.1 h
    rw [itemValues?, value?_mono item hvalue hle, itemValues?_mono items hvalues hle]
    exact h

theorem memberValues?_mono : ∀ (members : List (Option String × Tree)) {depth depth' : Nat}
    {entries : List (String × Json)}, memberValues? depth members = some entries →
    depth ≤ depth' → memberValues? depth' members = some entries
  | [], _, _, _, h, _ => by
    rw [memberValues?] at h ⊢
    exact h
  | (name, item) :: members, _, _, _, h, hle => by
    rw [memberValues?] at h
    obtain ⟨text, hname, h⟩ := Option.bind_eq_some_iff.1 h
    obtain ⟨value, hvalue, h⟩ := Option.bind_eq_some_iff.1 h
    obtain ⟨entries, hentries, h⟩ := Option.bind_eq_some_iff.1 h
    rw [memberValues?, hname, value?_mono item hvalue hle, memberValues?_mono members hentries hle]
    exact h

end

/-- The value of a tree does not depend on how much room there is, if there is enough. -/
theorem value?_unique {tree : Tree} {depth depth' : Nat} {value value' : Json}
    (h : tree.value? depth = some value) (h' : tree.value? depth' = some value') :
    value = value' := by
  rcases Nat.le_total depth depth' with hle | hle
  · exact Option.some.inj ((value?_mono tree h hle).symm.trans h')
  · exact Option.some.inj (h.symm.trans (value?_mono tree h' hle))

/-- Only the tree of an object has an object for its value. -/
theorem eq_object_of_value? {tree : Tree} {depth : Nat} {members : Members}
    (h : tree.value? depth = some (.object members)) :
    ∃ entries closed, tree = .object entries closed := by
  cases tree with
  | object entries closed => exact ⟨entries, closed, rfl⟩
  | number n => cases n <;> cases h
  | string text => cases text <;> cases h
  | array items closed =>
    cases depth with
    | zero => cases h
    | succ depth =>
      rw [value?] at h
      split at h
      · obtain ⟨values, -, h⟩ := Option.map_eq_some_iff.1 h
        cases h
      · cases h
  | _ => cases h

end Tree

/-! ## Readers -/

namespace Reader

variable {ε α : Type} {depth : Nat} {tree : Tree}

theorem text_eq_ok_iff {text : String} :
    (Reader.text : Reader ε String) depth tree = .ok text ↔ tree = .string (some text) := by
  constructor
  · intro h
    unfold Reader.text at h
    split at h
    · rw [Except.ok.inj h]
    · cases h
  · rintro rfl
    rfl

theorem textThen_eq_ok_iff {convert : String → Except ε α} {a : α} :
    textThen convert depth tree = .ok a ↔
      ∃ text, tree = .string (some text) ∧ convert text = .ok a := by
  rw [textThen, bind_eq_ok_iff]
  refine exists_congr fun text => and_congr text_eq_ok_iff ?_
  cases convert text with
  | error cause => exact ⟨nofun, nofun⟩
  | ok b => simp

theorem optional_eq_ok_iff {read : Reader ε α} {a : Option α} :
    read.optional depth tree = .ok a ↔
      (tree = .null ∧ a = none) ∨ tree ≠ .null ∧ ∃ b, read depth tree = .ok b ∧ a = some b := by
  by_cases hnull : tree = .null
  · subst hnull
    rw [optional, Except.ok.injEq]
    simp [eq_comm]
  · rw [optional]
    · simp only [map_eq_ok_iff, hnull, false_and, ne_eq, not_false_iff, true_and, false_or,
        eq_comm]
    · exact hnull

theorem members_eq_ok_iff {members : Members} :
    (Reader.members : Reader ε Members) depth tree = .ok members ↔
      tree.value? depth = some (.object members) := by
  constructor
  · intro h
    unfold Reader.members at h
    split at h
    · split at h
      · next hvalue => rw [hvalue, Except.ok.inj h]
      · cases h
    · cases h
  · intro h
    obtain ⟨entries, closed, rfl⟩ := Tree.eq_object_of_value? h
    rw [Reader.members, h]

theorem items_eq_ok_iff {read : Tree → Except (Fault ε) α} {trees : List Tree} {as : List α} :
    items read trees = .ok as ↔ List.Forall₂ (fun tree a => read tree = .ok a) trees as := by
  induction trees generalizing as with
  | nil =>
    rw [items, Except.ok.injEq, List.forall₂_nil_left_iff, eq_comm]
  | cons tree trees ih =>
    simp only [items, bind_eq_ok_iff, ih, List.forall₂_cons_left_iff, Except.ok.injEq]
    constructor
    · rintro ⟨a, ha, rest, hrest, rfl⟩
      exact ⟨a, rest, ha, hrest, rfl⟩
    · rintro ⟨a, rest, ha, hrest, rfl⟩
      exact ⟨a, ha, rest, hrest, rfl⟩

theorem list_eq_ok_iff {read : Reader ε α} {as : List α} :
    read.list depth tree = .ok as ↔
      ∃ trees below, tree = .array trees true ∧ depth = below + 1 ∧
        List.Forall₂ (fun tree a => read below tree = .ok a) trees as := by
  constructor
  · intro h
    unfold list at h
    split at h
    · cases h
    · next trees closed below =>
      obtain ⟨as', hitems, h⟩ := bind_eq_ok_iff.1 h
      split at h
      · next hclosed =>
        cases h
        subst hclosed
        exact ⟨trees, below, rfl, rfl, items_eq_ok_iff.1 hitems⟩
      · cases h
    · cases h
  · rintro ⟨trees, below, rfl, rfl, hitems⟩
    rw [list, items_eq_ok_iff.2 hitems]
    rfl

/-- Where nothing comes after the value of a text, reading the text is reading the value. -/
theorem whole_of_isEmpty {text : Bytes} (h : (Tree.build (Token.scan text)).2.isEmpty = true)
    (read : Reader ε α) : read.whole text = read maxDepth (Tree.build (Token.scan text)).1 := by
  show (read maxDepth (Tree.build (Token.scan text)).1 >>= fun a =>
    if (Tree.build (Token.scan text)).2.isEmpty then .ok a else .error .malformed) = _
  cases read maxDepth (Tree.build (Token.scan text)).1 with
  | error fault => rfl
  | ok a => exact if_pos h

/-- A whole text is read if its value is and nothing comes after it. -/
theorem whole_eq_ok_iff {read : Reader ε α} {text : Bytes} {a : α} :
    read.whole text = .ok a ↔ read maxDepth (Tree.build (Token.scan text)).1 = .ok a ∧
      (Tree.build (Token.scan text)).2.isEmpty = true := by
  rw [whole, bind_eq_ok_iff]
  constructor
  · rintro ⟨b, hb, h⟩
    split at h
    · next hrest =>
      obtain rfl := Except.ok.inj h
      exact ⟨hb, hrest⟩
    · cases h
  · rintro ⟨ha, hrest⟩
    exact ⟨a, ha, if_pos hrest⟩

end Reader

end SealedEnvelope.Json

namespace SealedEnvelope.Header

open Json

variable {ε : Type} {depth : Nat} {tree : Tree} {header : Header}

theorem reader_eq_ok_iff :
    (reader : Reader ε Header) depth tree = .ok header ↔
      tree.value? depth = some header.toJson := by
  obtain ⟨members⟩ := header
  rw [toJson, ← @Reader.members_eq_ok_iff ε, reader, map_eq_ok_iff]
  simp

/-- A header that was read has distinct names and nests no deeper than it may. -/
theorem reader_sound (h : (reader : Reader ε Header) depth tree = .ok header) :
    header.toJson.Distinct ∧ header.toJson.depth ≤ depth :=
  tree.value?_sound (reader_eq_ok_iff.1 h)

end SealedEnvelope.Header
