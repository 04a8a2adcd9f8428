import SealedEnvelope.Json.Reader
import SealedEnvelope.Proofs.Json.Numbers
import SealedEnvelope.Proofs.Json.Trees

/-!
# Reading back a value that was written

What is written of a value follows the grammar: its tokens are those of its tree
(`Tree.tokens_ofJson`), and their octets spell them (`Json.spells_render`).  So reading
undoes writing:

* The text is read as the tree of the value, like any text that the tree spells.
* The tree has that value (`Tree.value?_ofJson`), as long as it does not nest too deep.

A reader of a certain kind of value is handed that tree, whatever it makes of it
(`Reader.whole_render`).

## Which values are read back

A double need not be the nearest one to its text, so a value with doubles has a text, but
need not be read back from it (`Integral`).  Of two members with one name only one is
kept, so objects that name a member twice are no values that were read (`Distinct`).
-/

namespace SealedEnvelope.Json

mutual

/-- All numbers of the value are integers. -/
def Integral : Json → Prop
  | .number (.double _) => False
  | .array items => ItemsIntegral items
  | .object members => MembersIntegral members
  | _ => True

/-- All numbers of the values are integers. -/
def ItemsIntegral : List Json → Prop
  | [] => True
  | item :: rest => item.Integral ∧ ItemsIntegral rest

/-- All numbers of the members are integers. -/
def MembersIntegral : List (String × Json) → Prop
  | [] => True
  | (_, value) :: rest => value.Integral ∧ MembersIntegral rest

end

mutual

/-- No object of the value names a member twice. -/
def Distinct : Json → Prop
  | .array items => ItemsDistinct items
  | .object members => (members.map Prod.fst).Nodup ∧ MembersDistinct members
  | _ => True

/-- No object of the values names a member twice. -/
def ItemsDistinct : List Json → Prop
  | [] => True
  | item :: rest => item.Distinct ∧ ItemsDistinct rest

/-- No object of the members names a member twice. -/
def MembersDistinct : List (String × Json) → Prop
  | [] => True
  | (_, value) :: rest => value.Distinct ∧ MembersDistinct rest

end

/-! ## Tokens and their octets -/

/-- The octets of a token. -/
def Token.bytes (token : Token) : Bytes := token.chars.flatMap String.utf8EncodeChar

namespace Token

theorem spelled_integer (whole : Whole) :
    Spelled (.number (some (.integer whole))) (bytes (.number (some (.integer whole)))) := by
  have hspelled := Spelled.number (numeral_integerChars whole.value)
  rw [Number.ofLiteral?_integerLiteral] at hspelled
  exact hspelled

theorem spelled_string (text : String) :
    Spelled (.string (some text)) (bytes (.string (some text))) := by
  have htext : Bytes.toText? (text.toList.flatMap String.utf8EncodeChar) = some text := by
    rw [← Bytes.ofText_ofList, String.ofList_toList, Bytes.toText?_ofText]
  obtain ⟨pieces, octets, hpieces, hdecode, hoctets⟩ :=
    exists_pieces (spell?_flatMap_escapeChar text.toList [])
  have hspelled := Spelled.string hpieces
  rw [hdecode, Option.bind_some, htext, ← List.append_cancel_right hoctets] at hspelled
  show Spelled _ (String.utf8EncodeChar '"' ++
    ((text.toList.flatMap escapeChar ++ ['"']).flatMap String.utf8EncodeChar))
  rw [List.flatMap_append]
  exact hspelled

/-- A token that has only one spelling is written that way. -/
theorem spelled_of_fixed {token : Token} (h : token.fixed?.isSome) : token.Spelled token.bytes := by
  cases token with
  | number | string | junk => cases h
  | bool value => cases value <;> exact .fixed rfl
  | _ => exact .fixed rfl

end Token

/-- The octets of a list of tokens. -/
def tokenBytes (tokens : List Token) : Bytes := tokens.flatMap Token.bytes

/-- The octets of a text are those of its tokens. -/
theorem ofText_render (value : Json) : Bytes.ofText value.render = tokenBytes value.tokens := by
  rw [render, Bytes.ofText_ofList, List.flatMap_assoc]
  rfl

theorem spelling_tokenBytes {tokens : List Token}
    (h : ∀ token ∈ tokens, token.Spelled token.bytes) :
    Spelling tokens (tokenBytes tokens) := by
  induction tokens with
  | nil => exact .nil
  | cons token tokens ih =>
    obtain ⟨htoken, htokens⟩ := List.forall_mem_cons.1 h
    exact .cons htoken (ih htokens)

/-! ## The tree of a value -/

namespace Tree

mutual

/-- Nothing is missing from the tree of a value. -/
theorem intact_ofJson : ∀ (value : Json), (ofJson value).intact = true
  | .null | .bool _ | .number _ | .string _ => by rw [ofJson]; rfl
  | .array items => by rw [ofJson, intact, intact_ofItems items]; rfl
  | .object members => by rw [ofJson, intact, intact_ofMembers members]; rfl

theorem intact_ofItems : ∀ (items : List Json), intactItems (ofItems items) = true
  | [] => by rw [ofItems, intactItems]
  | item :: items => by rw [ofItems, intactItems, intact_ofJson item, intact_ofItems items]; rfl

theorem intact_ofMembers : ∀ (members : List (String × Json)),
    intactMembers (ofMembers members) = true
  | [] => by rw [ofMembers, intactMembers]
  | (_, value) :: members => by
    rw [ofMembers, intactMembers, intact_ofJson value, intact_ofMembers members]; rfl

end

mutual

/-- **A value is written with the tokens of its tree.** -/
theorem tokens_ofJson : ∀ (value : Json), (ofJson value).tokens = value.tokens
  | .null | .bool _ | .number _ | .string _ => by rw [ofJson, tokens, Json.tokens]
  | .array [] => by rw [ofJson, ofItems, tokens, Json.tokens, itemTokens]; rfl
  | .array (item :: items) => by
    rw [ofJson, ofItems, tokens, Json.tokens, tokens_ofJson item, tokens_append_itemTail item items]
  | .object [] => by rw [ofJson, ofMembers, tokens, Json.tokens, memberTokens]; rfl
  | .object ((name, value) :: members) => by
    rw [ofJson, ofMembers, tokens, Json.tokens, tokens_ofJson value,
      tokens_append_memberTail name value members]

/-- The tokens of an array from its first item on. -/
theorem tokens_append_itemTail : ∀ (item : Json) (items : List Json),
    item.tokens ++ itemTail (ofItems items) = itemTokens (item :: items) ++ [.rightBracket]
  | item, [] => by rw [ofItems, itemTail, itemTokens]
  | item, next :: items => by
    rw [ofItems, itemTail, itemTokens, tokens_ofJson next, tokens_append_itemTail next items,
      List.append_assoc, List.cons_append]

/-- The tokens of an object from its first member on. -/
theorem tokens_append_memberTail :
    ∀ (name : String) (value : Json) (members : List (String × Json)),
    .string (some name) :: .colon :: (value.tokens ++ memberTail (ofMembers members)) =
      memberTokens ((name, value) :: members) ++ [.rightBrace]
  | name, value, [] => by rw [ofMembers, memberTail, memberTokens]; rfl
  | name, value, (next, other) :: members => by
    rw [ofMembers, memberTail, memberTokens, tokens_ofJson other,
      tokens_append_memberTail next other members]
    simp only [List.cons_append, List.append_assoc]

end

mutual

/-- The tokens of a value without doubles are spelled by their octets. -/
theorem spelled_tokens : ∀ (value : Json), value.Integral →
    ∀ token ∈ (ofJson value).tokens, token.Spelled token.bytes
  | .null, _ => by
    rw [ofJson, tokens]
    exact List.forall_mem_singleton.2 (Token.spelled_of_fixed rfl)
  | .bool value, _ => by
    rw [ofJson, tokens]
    exact List.forall_mem_singleton.2 (Token.spelled_of_fixed (by cases value <;> rfl))
  | .number (.integer whole), _ => by
    rw [ofJson, tokens]
    exact List.forall_mem_singleton.2 (Token.spelled_integer whole)
  | .string text, _ => by
    rw [ofJson, tokens]
    exact List.forall_mem_singleton.2 (Token.spelled_string text)
  | .array items, h => by
    rw [ofJson]
    exact (forall_mem_tokens_array_iff fun _ => Token.spelled_of_fixed).2 (spelled_ofItems items h)
  | .object members, h => by
    rw [ofJson]
    exact (forall_mem_tokens_object_iff fun _ => Token.spelled_of_fixed).2
      (spelled_ofMembers members h)

theorem spelled_ofItems : ∀ (items : List Json), ItemsIntegral items →
    ∀ item ∈ ofItems items, ∀ token ∈ item.tokens, token.Spelled token.bytes
  | [], _ => by rw [ofItems]; exact nofun
  | item :: items, h => by
    rw [ofItems]
    exact List.forall_mem_cons.2 ⟨spelled_tokens item h.1, spelled_ofItems items h.2⟩

theorem spelled_ofMembers : ∀ (members : List (String × Json)), MembersIntegral members →
    ∀ member ∈ ofMembers members,
      Token.Spelled (.string member.1) (Token.bytes (.string member.1)) ∧
      ∀ token ∈ member.2.tokens, token.Spelled token.bytes
  | [], _ => by rw [ofMembers]; exact nofun
  | (name, value) :: members, h => by
    rw [ofMembers]
    exact List.forall_mem_cons.2
      ⟨⟨Token.spelled_string name, spelled_tokens value h.1⟩, spelled_ofMembers members h.2⟩

end

/-- **The text of a value has the value's tree.** -/
theorem spells_render {value : Json} (h : value.Integral) :
    (ofJson value).Spells (Bytes.ofText value.render) := by
  refine ⟨intact_ofJson value, ?_⟩
  rw [ofText_render, ← tokens_ofJson]
  exact spelling_tokenBytes (spelled_tokens value h)

/-- The tokens of a value are arranged to its tree, and none is left. -/
theorem build_tokens (value : Json) : build value.tokens = (ofJson value, []) := by
  rw [build_eq_iff (intact_ofJson value), tokens_ofJson, List.append_nil]

end Tree

/-- Cutting the text of a value gives its tokens. -/
theorem Token.scan_render {value : Json} (h : value.Integral) :
    scan (Bytes.ofText value.render) = value.tokens := by
  obtain ⟨hintact, hbuild⟩ := Tree.spells_iff.1 (Tree.spells_render h)
  rw [Tree.build_eq_iff hintact, Tree.tokens_ofJson, List.append_nil] at hbuild
  exact hbuild

/-! ## Values -/

namespace Members

theorem insert_of_notMem {members : Members} {name : String} (h : name ∉ members.map Prod.fst)
    (value : Json) : members.insert name value = members ++ [(name, value)] := by
  induction members with
  | nil => rfl
  | cons head rest ih =>
    rw [List.map_cons, List.mem_cons, not_or] at h
    rw [insert, if_neg (Ne.symm h.1), ih h.2, List.cons_append]

/-- Members with distinct names are all kept. -/
theorem ofList_of_nodup {entries : List (String × Json)} (h : (entries.map Prod.fst).Nodup) :
    ofList entries = entries := by
  have hfold : ∀ (entries : List (String × Json)) (members : Members),
      ((members ++ entries).map Prod.fst).Nodup →
      entries.foldl (fun members entry => members.insert entry.1 entry.2) members =
        members ++ entries := by
    intro entries
    induction entries with
    | nil => exact fun members _ => (List.append_nil members).symm
    | cons entry entries ih =>
      obtain ⟨name, value⟩ := entry
      intro members hnodup
      have hnew : name ∉ members.map Prod.fst := by
        rw [List.map_append, List.map_cons] at hnodup
        intro hmem
        exact (List.nodup_append.1 hnodup).2.2 _ hmem _ List.mem_cons_self rfl
      rw [List.append_cons] at hnodup ⊢
      rw [List.foldl_cons, insert_of_notMem hnew, ih _ hnodup]
  exact hfold entries [] h

end Members

namespace Tree

mutual

/-- The tree of a value has that value. -/
theorem value?_ofJson : ∀ (value : Json) {depth : Nat}, value.Distinct → value.depth ≤ depth →
    value? depth (ofJson value) = some value
  | .null, _, _, _ => by rw [ofJson, value?]
  | .bool _, _, _, _ => by rw [ofJson, value?]
  | .number _, _, _, _ => by rw [ofJson, value?, Option.map_some]
  | .string _, _, _, _ => by rw [ofJson, value?, Option.map_some]
  | .array items, 0, _, hdepth => absurd hdepth (by rw [Json.depth]; omega)
  | .array items, depth + 1, h, hdepth => by
    have hitems := itemValues?_ofItems items h (Nat.le_of_succ_le_succ hdepth)
    rw [ofJson, value?, if_pos rfl, hitems, Option.map_some]
  | .object members, 0, _, hdepth => absurd hdepth (by rw [Json.depth]; omega)
  | .object members, depth + 1, h, hdepth => by
    have hmembers := memberValues?_ofMembers members h.2 (Nat.le_of_succ_le_succ hdepth)
    rw [ofJson, value?, if_pos rfl, hmembers, Option.map_some, Members.ofList_of_nodup h.1]

theorem itemValues?_ofItems : ∀ (items : List Json) {depth : Nat}, ItemsDistinct items →
    itemsDepth items ≤ depth → itemValues? depth (ofItems items) = some items
  | [], _, _, _ => by rw [ofItems, itemValues?]
  | item :: items, depth, h, hdepth => by
    have hitem := value?_ofJson item h.1 (Nat.le_trans (Nat.le_max_left _ _) hdepth)
    have hitems := itemValues?_ofItems items h.2 (Nat.le_trans (Nat.le_max_right _ _) hdepth)
    rw [ofItems, itemValues?, hitem, hitems]
    rfl

theorem memberValues?_ofMembers : ∀ (members : List (String × Json)) {depth : Nat},
    MembersDistinct members → membersDepth members ≤ depth →
    memberValues? depth (ofMembers members) = some members
  | [], _, _, _ => by rw [ofMembers, memberValues?]
  | (name, value) :: members, depth, h, hdepth => by
    have hvalue := value?_ofJson value h.1 (Nat.le_trans (Nat.le_max_left _ _) hdepth)
    have hmembers :=
      memberValues?_ofMembers members h.2 (Nat.le_trans (Nat.le_max_right _ _) hdepth)
    rw [ofMembers, memberValues?, hvalue, hmembers]
    rfl

end

end Tree

/-! ## Readers -/

namespace Reader

variable {ε α : Type}

/-- **Reading undoes writing**: a reader that is given the text of a value is given the
tree of that value, and nothing behind it. -/
theorem whole_render (read : Reader ε α) {value : Json} (h : value.Integral) :
    read.whole (Bytes.ofText value.render) = read maxDepth (.ofJson value) := by
  rw [whole, Token.scan_render h, Tree.build_tokens]
  dsimp only
  cases read maxDepth (.ofJson value) with
  | error fault => rfl
  | ok a => rfl

end Reader

end SealedEnvelope.Json
